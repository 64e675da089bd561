import PlatformConfig.GuardPlan
import PlatformConfig.RecordText

/-!
# Records of the request helper

The recovery journal, the pending request, the terminal records and the active record as the
helper for target-local certificate requests reads them, and the two records that it writes.
-/
namespace PlatformConfig.HostRequest

open GuardPlan (matchesHex)
open RecordText

abbrev Data := Bytes

/-! ## Reading -/

/-- One line of a record: the value of the field `name`. -/
def readLine (valid : Text → Bool) (malformed order name : String) (line : Text) :
    Except String String :=
  match splitField line with
  | none => .error malformed
  | some (key, value) =>
    if key = name.toList && valid value then .ok (String.ofList value) else .error order

/-- The lines of a record against its fields, one after the other. -/
def readLines (valid : Text → Bool) (malformed order : String) :
    List String → List Text → Except String (List String)
  | n :: names, l :: lines => do
    let value ← readLine valid malformed order n l
    let rest ← readLines valid malformed order names lines
    return value :: rest
  | _, _ => return []

/-- The text of an ASCII file. -/
def asciiText (e : String) (d : Data) : Except String Text :=
  match decode d with
  | none => .error e
  | some text => .ok text

/-- What `parse_journal`, `parse_target_terminal` and `active_request_id` have in common. -/
def readRecord (label : String) (fields : List String) (d : Data) : Except String (List String) := do
  let text ← asciiText (label ++ " is not ASCII") d
  let lines := splitLines text
  if lines.length ≠ fields.length ∨ d.getLast? ≠ some 10 then .error (label ++ " is malformed")
  else readLines (· ≠ []) (label ++ " is malformed") (label ++ " field order is invalid") fields lines

/-- `canonical_decimal` -/
def canonicalDecimal (label : String) (minimum maximum : ℕ) (value : String) : Except String ℕ :=
  match decimal value.toList with
  | none => .error (label ++ " must be canonical decimal")
  | some parsed =>
    if parsed < minimum ∨ parsed > maximum then .error (label ++ " is outside its allowed range")
    else .ok parsed

/-! ## The recovery journal -/

def journalFields : List String := ["schema", "request_id", "stage_name", "pending_root"]

structure Journal where
  schema : String
  requestId : String
  stageName : String
  pendingRoot : String
  deriving DecidableEq

def Journal.values (j : Journal) : List String := [j.schema, j.requestId, j.stageName, j.pendingRoot]

def Journal.ofValues : List String → Option Journal
  | [schema, requestId, stageName, pendingRoot] => some ⟨schema, requestId, stageName, pendingRoot⟩
  | _ => none

/-- A record made of the values that were read for all of its fields. -/
def made {α : Type} (ofValues : List String → Option α) (values : Except String (List String))
    (e : String) : Except String α :=
  match values with
  | .error e => .error e
  | .ok values =>
    match ofValues values with
    | none => .error e
    | some a => .ok a

def journalLabel : String := "request recovery journal"

def parseJournal (d : Data) : Except String Journal :=
  made Journal.ofValues (readRecord journalLabel journalFields d) (journalLabel ++ " is malformed")

def journalContent (requestId stageName pendingRoot : String) : Data :=
  serialize journalFields (Journal.values ⟨"2", requestId, stageName, pendingRoot⟩)

/-! ## The pending request -/

def requestFields : List String :=
  ["schema", "request_id", "nonce", "created_epoch", "expires_epoch", "operation", "service",
    "target", "requester_principal", "inventory_sha256", "csr_sha256", "csr_spki_sha256",
    "current_cert_sha256", "predecessor_request_id", "profile", "response_principal"]

structure Request where
  schema : String
  requestId : String
  nonce : String
  createdEpoch : String
  expiresEpoch : String
  operation : String
  service : String
  target : String
  requesterPrincipal : String
  inventorySha256 : String
  csrSha256 : String
  csrSpkiSha256 : String
  currentCertSha256 : String
  predecessorRequestId : String
  profile : String
  responsePrincipal : String
  deriving DecidableEq

def Request.values (r : Request) : List String :=
  [r.schema, r.requestId, r.nonce, r.createdEpoch, r.expiresEpoch, r.operation, r.service, r.target,
    r.requesterPrincipal, r.inventorySha256, r.csrSha256, r.csrSpkiSha256, r.currentCertSha256,
    r.predecessorRequestId, r.profile, r.responsePrincipal]

def Request.ofValues : List String → Option Request
  | [schema, requestId, nonce, createdEpoch, expiresEpoch, operation, service, target,
      requesterPrincipal, inventorySha256, csrSha256, csrSpkiSha256, currentCertSha256,
      predecessorRequestId, profile, responsePrincipal] =>
    some ⟨schema, requestId, nonce, createdEpoch, expiresEpoch, operation, service, target,
      requesterPrincipal, inventorySha256, csrSha256, csrSpkiSha256, currentCertSha256,
      predecessorRequestId, profile, responsePrincipal⟩
  | _ => none

/-- A value of a request record: non-empty printable ASCII, where blanks are allowed. -/
def isPlainValue (t : Text) : Bool := t ≠ [] && t.all fun c => 0x20 ≤ c.toNat && c.toNat ≤ 0x7e

def parseRequest (d : Data) : Except String Request := do
  let text ← asciiText "pending request is not ASCII" d
  if text.getLast? ≠ some '\n' ∨ text.contains '\r' = true then
    .error "pending request is not canonically newline-terminated"
  else
    let lines := splitLines text
    if lines.length ≠ requestFields.length then .error "pending request has the wrong field count"
    else
      made Request.ofValues
        (readLines isPlainValue "pending request contains malformed text"
          "pending request has invalid field order or text" requestFields lines)
        "pending request has the wrong field count"

def requestContent (r : Request) : Data := serialize requestFields r.values

/-! ## Terminal and active records -/

def targetTerminalFields : List String :=
  ["schema", "kind", "service", "target", "request_id", "state", "artifact_manifest_sha256",
    "response_sha256", "response_signature_sha256", "certificate_sha256",
    "served_certificate_sha256", "served_intermediate_sha256", "activation_epoch", "validation_epoch"]

structure TargetTerminal where
  schema : String
  kind : String
  service : String
  target : String
  requestId : String
  state : String
  artifactManifestSha256 : String
  responseSha256 : String
  responseSignatureSha256 : String
  certificateSha256 : String
  servedCertificateSha256 : String
  servedIntermediateSha256 : String
  activationEpoch : String
  validationEpoch : String
  deriving DecidableEq

def TargetTerminal.values (r : TargetTerminal) : List String :=
  [r.schema, r.kind, r.service, r.target, r.requestId, r.state, r.artifactManifestSha256,
    r.responseSha256, r.responseSignatureSha256, r.certificateSha256, r.servedCertificateSha256,
    r.servedIntermediateSha256, r.activationEpoch, r.validationEpoch]

def TargetTerminal.ofValues : List String → Option TargetTerminal
  | [schema, kind, service, target, requestId, state, artifactManifestSha256, responseSha256,
      responseSignatureSha256, certificateSha256, servedCertificateSha256,
      servedIntermediateSha256, activationEpoch, validationEpoch] =>
    some ⟨schema, kind, service, target, requestId, state, artifactManifestSha256, responseSha256,
      responseSignatureSha256, certificateSha256, servedCertificateSha256,
      servedIntermediateSha256, activationEpoch, validationEpoch⟩
  | _ => none

/-- The identity checks of `parse_target_terminal`. -/
def TargetTerminal.identified (r : TargetTerminal) (expected : Option String) : Bool :=
  r.schema = "2" && r.kind = "host-local-target-terminal" && matchesHex 32 r.requestId &&
    (r.state = "complete" || r.state = "rolled-back" || r.state = "not-activated") &&
    matchesHex 64 r.artifactManifestSha256 && matchesHex 64 r.responseSha256 &&
    matchesHex 64 r.responseSignatureSha256 && matchesHex 64 r.certificateSha256 &&
    expected.all fun requestId => r.requestId = requestId

/-- The proof checks of `parse_target_terminal`: a success proof belongs to a completion only. -/
def TargetTerminal.proven (r : TargetTerminal) : Bool :=
  isDigits r.activationEpoch.toList &&
    if r.state = "complete" then
      matchesHex 64 r.servedCertificateSha256 && matchesHex 64 r.servedIntermediateSha256 &&
        isDigits r.validationEpoch.toList
    else
      r.servedCertificateSha256 = "none" && r.servedIntermediateSha256 = "none" &&
        r.validationEpoch = "none"

def terminalLabel : String := "target-local terminal record"

def parseTargetTerminal (d : Data) (expected : Option String) : Except String TargetTerminal := do
  let r ← made TargetTerminal.ofValues (readRecord terminalLabel targetTerminalFields d)
    (terminalLabel ++ " is malformed")
  if !r.identified expected then .error (terminalLabel ++ " identity is invalid")
  else if !r.proven then .error (terminalLabel ++ " proof is invalid")
  else .ok r

def activeFields : List String :=
  ["schema", "kind", "service", "target", "request_id", "artifact_manifest_sha256",
    "response_sha256", "response_signature_sha256", "certificate_sha256",
    "certificate_spki_sha256", "chain_sha256", "fullchain_sha256", "version_path",
    "version_device", "version_inode", "zot_config_sha256", "activation_epoch",
    "rollback_deadline_epoch"]

/-- The request of an active record, as `active_request_id` reads it. -/
def parseActive (service target : String) (d : Data) : Except String String := do
  match ← readRecord "active record" activeFields d with
  | schema :: kind :: service' :: target' :: requestId :: _ =>
    if schema = "2" && kind = "host-local-active" && service' = service && target' = target &&
        matchesHex 32 requestId then .ok requestId
    else .error "active record identity is invalid"
  | _ => .error "active record is malformed"

/-! ## What is written is read -/

section Reading
variable {valid : Text → Bool} {malformed order label : String} {names fields values : List String}
  {lines : List Text} {d : Data}

lemma readLine_eq {n v : String} {l : Text} : readLine valid malformed order n l = .ok v ↔
    ∃ value, splitField l = some (n.toList, value) ∧ valid value = true ∧ String.ofList value = v := by
  unfold readLine
  cases split : splitField l with
  | none => simp
  | some p =>
    obtain ⟨key, value⟩ := p
    by_cases passed : (key = n.toList && valid value) = true
    · simp only [Bool.and_eq_true, decide_eq_true_eq] at passed
      obtain ⟨rfl, ok⟩ := passed
      simp [ok]
    · simp only [if_neg passed]
      simp only [Bool.and_eq_true, decide_eq_true_eq] at passed
      constructor
      · intro read
        cases read
      · rintro ⟨value', same, ok, -⟩
        cases same
        exact absurd ⟨rfl, ok⟩ passed

/-- The reading with errors and the plain one accept the same lines. -/
lemma readLines_eq (same : lines.length = names.length) :
    readLines valid malformed order names lines = .ok values ↔
      readFields valid names lines = some values := by
  induction names generalizing lines values with
  | nil =>
    obtain rfl := List.length_eq_zero_iff.mp same
    simp [readLines, readFields, pure, Except.pure]
  | cons n names ih =>
    cases lines with
    | nil => cases same
    | cons l lines =>
      have rest : ∀ {others}, readLines valid malformed order names lines = .ok others ↔
          readFields valid names lines = some others := ih (Nat.succ.inj same)
      simp only [readLines, readFields, bind, Except.bind, Option.bind, pure, Except.pure]
      cases split : splitField l with
      | none => simp [readLine, split]
      | some p =>
        obtain ⟨key, value⟩ := p
        by_cases passed : (key = n.toList && valid value) = true
        · have here : readLine valid malformed order n l = .ok (String.ofList value) := by
            simp only [Bool.and_eq_true, decide_eq_true_eq] at passed
            exact readLine_eq.mpr ⟨value, by rw [split, passed.1], passed.2, rfl⟩
          simp only [here, passed, if_true]
          cases tail : readLines valid malformed order names lines with
          | ok others =>
            rw [rest.mp tail]
            simp
          | error e =>
            cases plain : readFields valid names lines with
            | none => simp
            | some others =>
              rw [rest.mpr plain] at tail
              cases tail
        · simp [readLine, split, passed]

lemma isToken_some {t : Text} (h : isToken t = true) : decide (t ≠ []) = true := by
  simp only [isToken, Bool.and_eq_true] at h
  exact h.1

lemma isToken_plain {t : Text} (h : isToken t = true) : isPlainValue t = true := by
  simp only [isToken, isVisible, isPlainValue, Bool.and_eq_true, List.all_eq_true,
    decide_eq_true_eq] at h ⊢
  exact ⟨h.1, fun c mem => ⟨by have := h.2 c mem; omega, (h.2 c mem).2⟩⟩

/-- The lines of a written record hold its values. -/
lemma readLines_recordText (h : Printable fields values)
    (valids : ∀ t, isToken t = true → valid t = true) :
    readLines valid malformed order fields (splitLines (recordText fields values)) = .ok values := by
  refine (readLines_eq ?_).mpr (readFields_recordText h valids)
  rw [splitLines_recordText h, List.length_zipWith, ← h.same, min_self]

lemma recordText_last (h : Printable fields values) (some_ : fields ≠ []) :
    (recordText fields values).getLast? = some '\n' := by
  obtain ⟨t, c, last, -⟩ := recordText_end h some_
  rw [last]
  simp

lemma recordText_ascii (h : Printable fields values) : ∀ c ∈ recordText fields values, c.toNat < 128 := by
  intro c mem
  rcases recordText_mem h mem with visible | rfl
  · simp only [isVisible, Bool.and_eq_true, decide_eq_true_eq] at visible
    omega
  · decide

/-- A record that was written whole is read back. -/
theorem readRecord_serialize (h : Printable fields values) (some_ : fields ≠ []) :
    readRecord label fields (serialize fields values) = .ok values := by
  have last : (serialize fields values).getLast? = some 10 :=
    (getLast_encode (recordText_ascii h) (by decide)).mpr (recordText_last h some_)
  have count : (splitLines (recordText fields values)).length = fields.length := by
    rw [splitLines_recordText h, List.length_zipWith, ← h.same, min_self]
  simp only [readRecord, asciiText, decode_serialize h, bind, Except.bind, count, last]
  simpa using readLines_recordText h fun t token => isToken_some token

/-- A record of which only the beginning was written is refused. -/
theorem readRecord_torn {front : Data} (h : Printable fields values)
    (part : front <+: serialize fields values) (torn : front ≠ serialize fields values) :
    readRecord label fields front = .error (label ++ " is malformed") := by
  obtain ⟨text, front_, rfl⟩ := List.prefix_map_iff.mp part
  have ascii : ∀ c ∈ text, c.toNat < 128 := fun c mem => recordText_ascii h c (front_.subset mem)
  have read : decode (text.map fun c => UInt8.ofNat c.toNat) = some text := decode_encode ascii
  simp only [readRecord, asciiText, read, bind, Except.bind]
  refine if_pos ?_
  by_cases ends : text.getLast? = some '\n'
  · refine .inl (ne_of_lt (splitLines_front h front_ (fun same => torn ?_) ends))
    rw [same]
    rfl
  · exact .inr fun last => ends ((getLast_encode ascii (by decide)).mp last)

end Reading

section Records
variable {r stage root : String}

lemma field_plain : ∀ n ∈ journalFields ++ requestFields ++ targetTerminalFields,
    n.toList.all isVisible = true ∧ '=' ∉ n.toList := by decide +kernel

/-- The values of a recovery journal can be written. -/
lemma journal_printable (tokens : ∀ v ∈ [r, stage, root], isToken v.toList = true) :
    Printable journalFields (Journal.values ⟨"2", r, stage, root⟩) :=
  ⟨fun n mem => field_plain n (by simp [mem]),
    List.forall_mem_cons.mpr ⟨(by decide : isToken "2".toList = true), tokens⟩, rfl⟩

theorem parseJournal_content (tokens : ∀ v ∈ [r, stage, root], isToken v.toList = true) :
    parseJournal (journalContent r stage root) = .ok ⟨"2", r, stage, root⟩ := by
  rw [parseJournal, journalContent, readRecord_serialize (journal_printable tokens) (by decide)]
  rfl

theorem parseJournal_torn {front : Data} (tokens : ∀ v ∈ [r, stage, root], isToken v.toList = true)
    (part : front <+: journalContent r stage root) (torn : front ≠ journalContent r stage root) :
    parseJournal front = .error (journalLabel ++ " is malformed") := by
  rw [parseJournal, readRecord_torn (journal_printable tokens) part torn]
  rfl

lemma request_printable {q : Request} (tokens : ∀ v ∈ q.values, isToken v.toList = true) :
    Printable requestFields q.values :=
  ⟨fun n mem => field_plain n (by simp [mem]), tokens, rfl⟩

theorem parseRequest_content {q : Request} (tokens : ∀ v ∈ q.values, isToken v.toList = true) :
    parseRequest (requestContent q) = .ok q := by
  have h := request_printable tokens
  have return_ : (recordText requestFields q.values).contains '\r' = false := by
    rw [List.contains_eq_mem, decide_eq_false_iff_not]
    intro mem
    rcases recordText_mem h mem with visible | feed
    · exact absurd visible (by decide)
    · exact absurd feed (by decide)
  have count : (splitLines (recordText requestFields q.values)).length = requestFields.length := by
    rw [splitLines_recordText h]
    rfl
  simp only [parseRequest, requestContent, asciiText, decode_serialize h, bind, Except.bind,
    recordText_last h (by decide), return_, count]
  rw [readLines_recordText h fun t token => isToken_plain token]
  rfl

end Records

end PlatformConfig.HostRequest
