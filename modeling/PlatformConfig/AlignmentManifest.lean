import PlatformConfig.CompletionMarker
import PlatformConfig.Fallible

/-!
# The manifest of an alignment

The action rows of a DNF transaction, the manifest that `prepare` writes of a transaction and of its
downloaded packages, and what `apply` accepts and reads of a manifest.
-/
namespace PlatformConfig.MinorAlignment

open CanonicalJson
open CompletionMarker (canonicalJson equalsOne hasText isDigest)
open Fallible (ensure)
open RecordText (Bytes decode encode)

/-! ## Transitions -/

/-- What `TRANSITIONS` says of a transition besides what is only checked outside of the state. -/
structure Transition extends CompletionMarker.Profile where
  sourceReleasever : Option String

def transitions : List (String × Transition) :=
  [("rocky-10.1-to-10.2", ⟨⟨"2026-08-rocky-10.1-to-10.2", "10.1", "10.2"⟩, some "10.1"⟩),
    ("rocky-10.0-to-10.2", ⟨⟨"2026-08-rocky-10.0-to-10.2", "10.0", "10.2"⟩, none⟩)]

example : transitions.map (fun e => (e.1, e.2.toProfile)) = CompletionMarker.transitions := rfl

/-! ## Action rows -/

inductive Action
  | install | upgradeIn | upgradeOut | downgradeIn | downgradeOut | obsoleteIn | obsoleteOut | erase
  | reinstallIn | reinstallOut
  deriving DecidableEq

def Action.text : Action → String
  | .install => "install"
  | .upgradeIn => "upgrade-in"
  | .upgradeOut => "upgrade-out"
  | .downgradeIn => "downgrade-in"
  | .downgradeOut => "downgrade-out"
  | .obsoleteIn => "obsolete-in"
  | .obsoleteOut => "obsolete-out"
  | .erase => "erase"
  | .reinstallIn => "reinstall-in"
  | .reinstallOut => "reinstall-out"

/-- An item of a DNF transaction; the code of its action is one of DNF's constants, or another one. -/
structure Item where
  action : Except ℤ Action
  name : String
  nevra : String
  fromRepo : Option String
  version : String

structure Row where
  action : String
  name : String
  nevra : String
  repo : String
  version : String
  deriving DecidableEq

def itemRow (i : Item) : Except String Row :=
  match i.action with
  | .error code => .error ("unsupported DNF transaction action: " ++ code.repr)
  | .ok action => .ok ⟨action.text, i.name, i.nevra, i.fromRepo.getD "", i.version⟩

/-- The order of the rows: by action, package and repository. -/
def Row.le (r s : Row) : Prop := [r.action, r.nevra, r.repo] ≤ [s.action, s.nevra, s.repo]

instance : DecidableRel Row.le := fun r s =>
  inferInstanceAs (Decidable ([r.action, r.nevra, r.repo] ≤ [s.action, s.nevra, s.repo]))

/-- In the order of their texts. -/
def prohibited : List String :=
  ["downgrade-in", "downgrade-out", "erase", "obsolete-in", "obsolete-out", "reinstall-in", "reinstall-out"]

/-- `transaction_rows` -/
def transactionRows (items : List Item) : Except String (List Row) := do
  let rows ← items.mapM itemRow
  let rows := rows.insertionSort Row.le
  let found := prohibited.filter fun a => rows.any (·.action = a)
  ensure (found = []) ("transaction contains prohibited actions: " ++ ", ".intercalate found)
  return rows

/-- The row brings the release package in. -/
def Row.isRelease (r : Row) : Bool :=
  r.name = "rocky-release" && (r.action = "install" || r.action = "upgrade-in")

/-- `require_target_release` -/
def requireTargetRelease (rows : List Row) (target : String) : Except String Unit :=
  match rows.filter Row.isRelease with
  | [r] => ensure (r.version = target) ("transaction does not contain exactly Rocky release " ++ target)
  | _ => .error ("transaction does not contain exactly Rocky release " ++ target)

/-- A row of a transaction from local files. -/
def Row.local (r : Row) : Row :=
  if "-in".toList.isSuffixOf r.action.toList || r.action = "install" then { r with repo := "@approved-local" }
  else r

lemma Row.local_eq (r : Row) : r.local.action = r.action ∧ r.local.name = r.name ∧ r.local.version = r.version := by
  unfold Row.local
  split_ifs <;> exact ⟨rfl, rfl, rfl⟩

lemma filter_local (rows : List Row) :
    (rows.map Row.local).filter Row.isRelease = (rows.filter Row.isRelease).map Row.local := by
  rw [List.filter_map]
  congr 2
  funext r
  obtain ⟨action, name, -⟩ := r.local_eq
  simp only [Function.comp_apply, Row.isRelease, action, name]

lemma requireTargetRelease_eq {rows : List Row} {target : String}
    (required : requireTargetRelease rows target = .ok ()) :
    ∃ r, rows.filter Row.isRelease = [r] ∧ r.version = target := by
  unfold requireTargetRelease at required
  split at required
  · next r only => exact ⟨r, only, of_decide_eq_true (Fallible.ensure_eq_ok.mp required)⟩
  · cases required

lemma Action.allowed (a : Action) : a.text ∈ prohibited ∨ a.text ∈ ["install", "upgrade-in", "upgrade-out"] := by
  cases a <;> decide

/-- Accepted rows install packages, upgrade them and take out what an upgrade replaces. -/
lemma transactionRows_allowed {items : List Item} {rows : List Row} (accepted : transactionRows items = .ok rows) :
    ∀ r ∈ rows, r.action ∈ ["install", "upgrade-in", "upgrade-out"] := by
  obtain ⟨found, read, accepted⟩ := Fallible.bind_eq_ok.mp accepted
  obtain ⟨none_, made⟩ := Fallible.ensure_bind_ok.mp accepted
  cases made
  intro r mem
  obtain ⟨i, -, row⟩ := Fallible.mapM_right read ((List.mem_insertionSort _).mp mem)
  have free : r.action ∉ prohibited := fun bad => by
    have out := List.filter_eq_nil_iff.mp (of_decide_eq_true none_) _ bad
    exact out (List.any_eq_true.mpr ⟨r, mem, by simp⟩)
  unfold itemRow at row
  split at row
  · cases row
  · next action _ =>
    cases row
    exact action.allowed.resolve_left free

/-! ## The repository policy -/

def policyFields : List String := ["baseurl", "gpgcheck", "gpgkey", "metalink", "mirrorlist", "repo_gpgcheck"]

/-- `[a-z0-9][a-z0-9_-]*` -/
def isRepoId (t : List Char) : Bool :=
  match t with
  | [] => false
  | c :: cs => (c.isDigit || c.isLower) && cs.all fun d => d.isDigit || d.isLower || d = '_' || d = '-'

def isStr : Json → Bool
  | .str _ => true
  | _ => false

def isStrList : Json → Bool
  | .arr xs => xs.all isStr
  | _ => false

def isStrOrNull : Json → Bool
  | .null | .str _ => true
  | _ => false

def isBool : Json → Bool
  | .bool _ => true
  | _ => false

def checkField (j : Json) (key : String) (valid : Json → Bool) (repoId : String) : Except String Unit :=
  ensure ((j.get? key).any valid) ("repository policy " ++ key ++ " is invalid for " ++ repoId)

def checkRepository (e : String × Json) : Except String Unit := do
  ensure (isRepoId e.1.toList) "repository policy contains an invalid ID"
  ensure (e.2.keys? = some policyFields) ("repository policy fields are invalid for " ++ e.1)
  checkField e.2 "baseurl" isStrList e.1
  checkField e.2 "gpgkey" isStrList e.1
  checkField e.2 "metalink" isStrOrNull e.1
  checkField e.2 "mirrorlist" isStrOrNull e.1
  checkField e.2 "gpgcheck" isBool e.1
  checkField e.2 "repo_gpgcheck" isBool e.1

/-- `decode_policy` behind the JSON text -/
def decodePolicy : Json → Except String Unit
  | .obj (e :: es) => (e :: es).forM checkRepository
  | _ => .error "repository policy must be a nonempty object"

/-! ## The manifest -/

def dnfVersion : String := "4.20.0"

/-- A package of the transaction in the staging directory. -/
structure Payload where
  filename : String
  nevra : String
  sha256 : String
  size : ℕ
  deriving DecidableEq

structure Manifest where
  downloadSize : ℕ
  installSize : ℕ
  installedStateSha256 : String
  payloads : List Payload
  repositories : Json
  transaction : List Row

def manifestFields : List String := ["dnf_version", "download_size", "install_size", "installed_state_sha256",
  "migration_id", "payloads", "repositories", "schema", "source", "target", "transaction"]

def rowFields : List String := ["action", "name", "nevra", "repo", "version"]

def payloadFields : List String := ["filename", "nevra", "sha256", "size"]

def Row.json (r : Row) : Json :=
  .obj [("action", .str r.action), ("name", .str r.name), ("nevra", .str r.nevra), ("repo", .str r.repo),
    ("version", .str r.version)]

def Payload.json (p : Payload) : Json :=
  .obj [("filename", .str p.filename), ("nevra", .str p.nevra), ("sha256", .str p.sha256), ("size", .int p.size)]

def Manifest.json (p : Transition) (m : Manifest) : Json :=
  .obj [("dnf_version", .str dnfVersion), ("download_size", .int m.downloadSize),
    ("install_size", .int m.installSize), ("installed_state_sha256", .str m.installedStateSha256),
    ("migration_id", .str p.migrationId), ("payloads", .arr (m.payloads.map Payload.json)),
    ("repositories", m.repositories), ("schema", .int 1), ("source", .str p.source), ("target", .str p.target),
    ("transaction", .arr (m.transaction.map Row.json))]

/-! ## Reading a manifest -/

def arr? : Json → Option (List Json)
  | .arr xs => some xs
  | _ => none

def isObject (j : Json) : Bool := j.keys?.isSome

/-- `isinstance(value, int) and value >= 0` -/
def isNatural : Json → Bool
  | .int n => 0 ≤ n
  | .bool _ => true
  | _ => false

/-- A row of the manifest: exactly the five fields, all of them texts. -/
def readRow (j : Json) : Option Row :=
  if j.keys? = some rowFields then do
    let action ← (j.get? "action").bind Json.str?
    let name ← (j.get? "name").bind Json.str?
    let nevra ← (j.get? "nevra").bind Json.str?
    let repo ← (j.get? "repo").bind Json.str?
    let version ← (j.get? "version").bind Json.str?
    return ⟨action, name, nevra, repo, version⟩
  else none

/-- The rows of a manifest. -/
def rows? (m : Json) : Option (List Row) := ((m.get? "transaction").bind arr?).bind fun rows => rows.mapM readRow

def payloads? (m : Json) : Option (List Json) := (m.get? "payloads").bind arr?

/-- `validate_manifest_identity` -/
def validateManifestIdentity (p : Transition) (m : Json) : Except String Unit := do
  ensure (m.keys? = some manifestFields && (m.get? "schema").any equalsOne)
    "transaction manifest schema is invalid"
  ensure (hasText m "dnf_version" (· = dnfVersion.toList) && hasText m "migration_id" (· = p.migrationId.toList) &&
      hasText m "source" (· = p.source.toList) && hasText m "target" (· = p.target.toList))
    "transaction manifest transition identity is invalid"
  ensure (hasText m "installed_state_sha256" isDigest)
    "transaction manifest installed-state digest is invalid"
  ensure ((m.get? "repositories").any isObject) "transaction manifest repository policy is invalid"
  ensure ((payloads? m).isSome && ((m.get? "transaction").bind arr?).isSome)
    "transaction manifest payload or action set is invalid"
  ensure ((m.get? "download_size").any isNatural) "transaction manifest download_size is invalid"
  ensure ((m.get? "install_size").any isNatural) "transaction manifest install_size is invalid"
  ensure (rows? m).isSome "transaction manifest action set is invalid"

/-- The rows that a transaction from the local files must have. -/
def approvedRows (m : Json) : List Row := ((rows? m).getD []).map Row.local

/-- `[A-Za-z0-9_.+~^-]+\.rpm` -/
def isRpmName (t : List Char) : Bool :=
  ".rpm".toList.isSuffixOf t && 4 < t.length &&
    (t.take (t.length - 4)).all fun c => c.isAlphanum || c = '_' || c = '.' || c = '+' || c = '~' || c = '^' || c = '-'

/-- What a path holds: the content of a regular file, or something else. -/
inductive Entry
  | file (d : Bytes)
  | other
  deriving DecidableEq

/-- `n == value`; a float is compared by its `repr`. -/
def sizeIs (n : ℕ) : Json → Bool
  | .int m => m = n
  | .bool b => n = if b then 1 else 0
  | .float t => t.text = (RecordText.str n ++ ".0").toList
  | _ => false

/-- One step of `verify_payloads`: the file name of the payload. -/
def verifyPayload (sha256 : Bytes → String) (entry : String → Option Entry) (j : Json) : Except String String := do
  ensure (j.keys? = some payloadFields) "RPM payload manifest fields are invalid"
  match (j.get? "filename").bind Json.str? with
  | none => .error "RPM payload filename is invalid"
  | some filename => do
    ensure (isRpmName filename.toList) "RPM payload filename is invalid"
    match entry filename with
    | some (.file d) => do
      ensure ((j.get? "size").any (sizeIs d.length) && (j.get? "sha256").bind Json.str? = some (sha256 d))
        ("RPM payload changed: " ++ filename)
      return filename
    | _ => .error ("RPM payload is missing or unsafe: " ++ filename)

/-- `load_manifest` behind the checks of the directories -/
def loadManifest (float : List Char → Option FloatText) (sha256 : Bytes → String) (expected : String) :
    Option Entry → Except String Json
  | some (.file payload) =>
    if sha256 payload ≠ expected then .error "transaction manifest digest changed"
    else
      match (decode payload).bind (JsonText.loads float) with
      | none => .error "transaction manifest is invalid"
      | some m => if canonicalJson m = payload then .ok m else .error "transaction manifest is not canonical JSON"
  | _ => .error "transaction manifest is missing or unsafe"

/-! ## What is written is read -/

section RoundTrip
variable {float : List Char → Option FloatText} {sha256 : Bytes → String} {p q : Transition} {m : Manifest}

@[simp] lemma readRow_json (r : Row) : readRow r.json = some r := by
  simp [readRow, Row.json, Json.keys?, rowFields, Json.get?, Json.str?, List.lookup]

lemma rows_json : rows? (m.json p) = some m.transaction := by
  have rows : (m.transaction.map Row.json).mapM readRow = some m.transaction := by
    induction m.transaction with
    | nil => rfl
    | cons r rs ih => simp [ih]
  simpa [rows?, Manifest.json, Json.get?, List.lookup, arr?] using rows

lemma approvedRows_json : approvedRows (m.json p) = m.transaction.map Row.local := by
  rw [approvedRows, rows_json]
  rfl

lemma payloads_json : payloads? (m.json p) = some (m.payloads.map Payload.json) := by
  simp [payloads?, Manifest.json, Json.get?, List.lookup, arr?]

lemma Transition.profile_eq : p.toProfile = q.toProfile ↔
    p.migrationId = q.migrationId ∧ p.source = q.source ∧ p.target = q.target := by
  obtain ⟨⟨id, source, target⟩, releasever⟩ := p
  obtain ⟨⟨id', source', target'⟩, releasever'⟩ := q
  simp

/-- A manifest is accepted for the transition that it was written for. -/
lemma identity_json : validateManifestIdentity q (m.json p) = .ok () ↔
    p.toProfile = q.toProfile ∧ isDigest m.installedStateSha256.toList = true ∧ isObject m.repositories = true := by
  have fields : (m.json p).keys? = some manifestFields := rfl
  have text (key s : String) (f : List Char → Bool) (there : (m.json p).get? key = some (.str s)) :
      hasText (m.json p) key f = f s.toList := by
    simp only [hasText, there, Option.bind_some, Json.str?, Option.any_some]
  have lists : (m.json p).get? "transaction" = some (.arr (m.transaction.map Row.json)) := rfl
  have schema : (m.json p).get? "schema" = some (.int 1) := rfl
  have repositories : (m.json p).get? "repositories" = some m.repositories := rfl
  have download : (m.json p).get? "download_size" = some (.int m.downloadSize) := rfl
  have install : (m.json p).get? "install_size" = some (.int m.installSize) := rfl
  have dnf (f : List Char → Bool) := text "dnf_version" dnfVersion f rfl
  have id (f : List Char → Bool) := text "migration_id" p.migrationId f rfl
  have source (f : List Char → Bool) := text "source" p.source f rfl
  have target (f : List Char → Bool) := text "target" p.target f rfl
  have digest (f : List Char → Bool) := text "installed_state_sha256" m.installedStateSha256 f rfl
  simp only [validateManifestIdentity, Fallible.ensure_bind_ok, Fallible.ensure_eq_ok, fields, schema, repositories,
    download, install, dnf, id, source, target, digest, payloads_json, rows_json, lists, Transition.profile_eq]
  simp [equalsOne, isNatural, arr?, String.toList_inj, and_assoc]

/-- The manifest is a value that `json.loads` can return. -/
lemma Manifest.wellFormed (good : JsonText.WellFormed float m.repositories) :
    JsonText.WellFormed float (m.json p) := by
  have payloads : JsonText.ElementsWellFormed float (m.payloads.map Payload.json) := by
    induction m.payloads with
    | nil => trivial
    | cons x xs ih =>
      have ordered : payloadFields.Pairwise (· < ·) := by decide
      exact ⟨⟨ordered, by simp [JsonText.FieldsWellFormed, JsonText.WellFormed]⟩, ih⟩
  have rows : JsonText.ElementsWellFormed float (m.transaction.map Row.json) := by
    induction m.transaction with
    | nil => trivial
    | cons x xs ih =>
      have ordered : rowFields.Pairwise (· < ·) := by decide
      exact ⟨⟨ordered, by simp [JsonText.FieldsWellFormed, JsonText.WellFormed]⟩, ih⟩
  have ordered : manifestFields.Pairwise (· < ·) := by decide
  exact ⟨ordered, by simp [JsonText.FieldsWellFormed, JsonText.WellFormed, good, payloads, rows]⟩

lemma loadManifest_ok {expected : String} {entry : Option Entry} {j : Json}
    (loaded : loadManifest float sha256 expected entry = .ok j) :
    entry = some (.file (canonicalJson j)) ∧ sha256 (canonicalJson j) = expected := by
  unfold loadManifest at loaded
  split at loaded
  · next payload =>
    split_ifs at loaded with digest
    split at loaded
    · cases loaded
    · split_ifs at loaded with same
      cases loaded
      rw [same]
      exact ⟨rfl, not_not.mp digest⟩
  · cases loaded

end RoundTrip

/-- A canonical text ends with its only line feed, so a beginning of one is canonical when it is whole. -/
lemma canonicalJson_front {i j : Json} (front : canonicalJson i <+: canonicalJson j) : i = j := by
  obtain ⟨rest, whole⟩ := front
  have feed (x : Json) : canonicalJson x = encode (canonical x) ++ [10] := by simp [canonicalJson, encode]
  have same : canonicalJson i = canonicalJson j := by
    by_contra other
    have more : rest ≠ [] := fun none_ => other (by rw [← whole, none_, List.append_nil])
    have early : canonicalJson i <+: encode (canonical j) := by
      refine List.prefix_of_prefix_length_le ⟨rest, whole⟩ (by rw [feed j]; exact List.prefix_append _ _) ?_
      have length := congrArg List.length whole
      have pos := List.length_pos_iff.mpr more
      rw [feed j, List.length_append, List.length_append, List.length_singleton] at length
      omega
    have mem : (10 : UInt8) ∈ encode (canonical j) := by
      refine early.subset ?_
      rw [feed i]
      simp
    obtain ⟨c, in_, byte⟩ := List.mem_map.mp mem
    have shown := JsonText.canonical_visible j c in_
    have value := congrArg UInt8.toNat byte
    have low := shown.1
    have ascii := shown.ascii
    rw [UInt8.toNat_ofNat'] at value
    change c.toNat % 256 = 10 at value
    omega
  have read := CompletionMarker.decode_canonicalJson i
  rw [same, CompletionMarker.decode_canonicalJson] at read
  exact (canonical_injective (List.append_cancel_right (Option.some.inj read))).symm

end PlatformConfig.MinorAlignment
