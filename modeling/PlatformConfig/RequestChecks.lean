import PlatformConfig.ClientCsr
import PlatformConfig.Fallible
import PlatformConfig.RequestRecord
import Mathlib.Data.List.AList

/-!
# What the request helper accepts

The validated arguments of a run, the files of the state root and of the pending root as they
stand there, and the checks of the helper on them. What OpenSSL and `ssh-keygen` say about given
bytes is a parameter.
-/
namespace PlatformConfig.HostRequest

open ClientCsr (validateClientCsrAttributes)
open Fallible (ensure)
open GuardPlan (matchesHex)
open RecordText

/-! ## Arguments -/

inductive Operation
  | issue | renew
  deriving DecidableEq

def Operation.text : Operation → String
  | .issue => "issue"
  | .renew => "renew"

def serverProfile : String := "server-p384-sha384-v1"

def clientProfile : String := "client-p384-sha384-v1"

/-- Whom the certificate is for; a client names the whole subject, a server its SANs. -/
inductive Subject
  | server (commonName : String) (dnsSans ipSans : List String)
  | client (cn ou o c : String)
  deriving DecidableEq

def Subject.profile : Subject → String
  | .server .. => serverProfile
  | .client .. => clientProfile

def isLowerAlphanum (c : Char) : Bool := c.isDigit || c.isLower

/-- `[a-z0-9][…]{0,n}` with further characters of `more`. -/
def matchesName (more : Char → Bool) (n : ℕ) (s : String) : Bool :=
  match s.toList with
  | [] => false
  | c :: cs => isLowerAlphanum c && cs.length ≤ n && cs.all fun d => isLowerAlphanum d || more d

/-- `IDENTITY_RE` -/
def matchesIdentity : String → Bool := matchesName (fun c => c = '.' || c = '-') 252

/-- `SERVICE_RE` -/
def matchesService : String → Bool := matchesName (· = '-') 62

/-- What a digest or a predecessor is without a current certificate. -/
def noneText : String := "none"

/-- The arguments of a run as `validate_arguments` leaves them; target and requester principal
are the same. -/
structure Args where
  service : String
  target : String
  responsePrincipal : String
  operation : Operation
  subject : Subject
  inventorySha256 : String
  currentCertSha256 : String
  predecessorRequestId : String
  requestTtlSeconds : ℕ
  pendingRoot : String
  service_ok : matchesService service = true
  target_ok : matchesIdentity target = true
  response_ok : matchesIdentity responsePrincipal = true
  inventory_ok : matchesHex 64 inventorySha256 = true
  ttl_ok : 1 ≤ requestTtlSeconds ∧ requestTtlSeconds ≤ 604800
  client_ok : subject.profile = clientProfile → operation = .issue
  issue_ok : operation = .issue → currentCertSha256 = noneText ∧ predecessorRequestId = noneText
  renew_ok : operation = .renew →
    matchesHex 64 currentCertSha256 = true ∧ matchesHex 32 predecessorRequestId = true
  root_ok : isToken pendingRoot.toList = true

/-- The OpenSSL configuration of the certificate request. -/
def Subject.config : Subject → String
  | .client cn ou o c => "[req]\nprompt = no\ndistinguished_name = dn\n\n[dn]\nC = " ++ c ++
      "\nO = " ++ o ++ "\nOU = " ++ ou ++ "\nCN = " ++ cn ++ "\n"
  | .server commonName dnsSans ipSans =>
    "[req]\nprompt = no\ndistinguished_name = dn\nreq_extensions = ext\n\n[dn]\nCN = " ++
      commonName ++ "\n\n[ext]\nsubjectAltName = " ++
      ",".intercalate (dnsSans.map ("DNS:" ++ ·) ++ ipSans.map ("IP:" ++ ·)) ++ "\n"

def Args.config (a : Args) : Data := encode a.subject.config.toList

/-! ## Files -/

/-- `MAX_PROTOCOL_SIZE` -/
def maxProtocolSize : ℕ := 1024 * 1024

/-- Why a name does not hold a private file of root: a symbolic link, no regular file, another
owner or a second link, another mode. -/
inductive Flaw
  | symlink | kind | owner | mode
  deriving DecidableEq

abbrev File := Except Flaw Data

/-- `stat.S_ISREG` of an entry, without following links. -/
def isRegular : File → Bool
  | .error .symlink | .error .kind => false
  | _ => true

def readable (d : Data) : Bool := 0 < d.length && d.length ≤ maxProtocolSize

/-- `read_safe_file` with mode 0600. -/
def readSafe (label : String) : Option File → Except String Data
  | none | some (.error .symlink) => .error ("cannot open " ++ label)
  | some (.error .kind) | some (.error .owner) =>
    .error (label ++ " must be a root-owned singly-linked regular file")
  | some (.error .mode) => .error (label ++ " must have mode 0600")
  | some (.ok d) => if readable d then .ok d else .error (label ++ " has an invalid size")

/-- Why a name does not hold a private directory of root. -/
inductive DirFlaw
  | kind | mode
  deriving DecidableEq

/-- `require_dir` with mode 0700. -/
def requireDir {α : Type} (label : String) : Option (Except DirFlaw α) → Except String α
  | none => .error ("cannot inspect " ++ label)
  | some (.error .kind) => .error (label ++ " must be a non-symlink directory")
  | some (.error .mode) => .error (label ++ " must be root-owned with mode 0700")
  | some (.ok files) => .ok files

/-- Names below a request directory. -/
inductive FileName
  | key | csr | request | signature | config
  | other (name : String)
  deriving DecidableEq

def FileName.text : FileName → String
  | .key => "tls.key"
  | .csr => "tls.csr"
  | .request => "request"
  | .signature => "request.sig"
  | .config => "request.cnf"
  | .other name => name

/-- `EXPECTED_FILES`, in the order of their names. -/
def expectedFiles : List FileName := [.request, .signature, .csr, .key]

abbrev Files := AList fun _ : FileName => File

/-- A directory of the pending root, or what stands in its place. -/
abbrev Node := Except DirFlaw Files

/-- `stat.S_ISDIR` of an entry, without following links. -/
def isDirectory : Node → Bool
  | .error .kind => false
  | _ => true

/-- A directory with exactly the four files of the protocol. -/
def exactNames (files : Files) : Bool :=
  (∀ f ∈ files.keys, f ∈ expectedFiles) && (∀ f ∈ expectedFiles, f ∈ files.keys)

structure Protocol where
  key : Data
  csr : Data
  request : Data
  signature : Data

/-- The four protocol files, read in the order of their names. -/
def readProtocol (label : String) (files : Files) : Except String Protocol := do
  let request ← readSafe (label ++ FileName.request.text) (files.lookup .request)
  let signature ← readSafe (label ++ FileName.signature.text) (files.lookup .signature)
  let csr ← readSafe (label ++ FileName.csr.text) (files.lookup .csr)
  let key ← readSafe (label ++ FileName.key.text) (files.lookup .key)
  return ⟨key, csr, request, signature⟩

/-! ## Certificate requests and signatures -/

/-- What is computed from bytes outside the helper: SHA-256 in lowercase hexadecimal digits, the
public keys that OpenSSL extracts, the DER form of a certificate request, what the helper makes
of OpenSSL's signature check and texts for given arguments, and the verification of a request
under a principal. -/
structure Tools where
  sha256 : Data → String
  hex : ∀ d, matchesHex 64 (sha256 d) = true
  inspectCsr : Args → Data → Except String Unit
  der : Data → Except String Data
  keySpki : Data → Option Data
  csrSpki : Data → Option Data
  profileCsr : Args → Data → Except String Unit
  profileKey : Data → Except String Unit
  verify : String → Data → Data → Bool

variable (t : Tools) (a : Args)

def ofOption {α : Type} (x : Option α) (e : String) : Except String α :=
  match x with
  | none => .error e
  | some x => .ok x

/-- `validate_csr`: the digest of the public key of a certificate request. -/
def validateCsr (key csr : Data) : Except String String := do
  t.inspectCsr a csr
  if a.subject.profile = clientProfile then do
    let der ← t.der csr
    validateClientCsrAttributes der
  let keySpki ← ofOption (t.keySpki key) "private key public-key extraction failed"
  let csrSpki ← ofOption (t.csrSpki csr) "CSR public-key extraction failed"
  t.profileCsr a csr
  ensure (keySpki = csrSpki) "private key and CSR public keys differ"
  t.profileKey keySpki
  return t.sha256 csrSpki

/-- `verify_request_signature` -/
def verifyRequestSignature (request signature : Data) : Except String Unit :=
  ensure (t.verify a.target request signature) "request signature validation failed"

/-! ## Pending requests -/

inductive Status
  | existing | created
  deriving DecidableEq

/-- What a run prints about a pending request. -/
structure Result where
  status : Status
  requestId : String
  requestSha256 : String
  csrSha256 : String
  csrSpkiSha256 : String
  deriving DecidableEq

def maxEpoch : ℕ := 2 ^ 63 - 1

/-- The record names the request in the current schema. -/
def Request.identified (q : Request) (requestId : String) : Bool :=
  q.schema = "2" && q.requestId = requestId && matchesHex 32 q.requestId && matchesHex 64 q.nonce

/-- `pending_request_lifetime_is_current` -/
def lifetimeIsCurrent (created expires now ttl : ℕ) : Bool :=
  created ≤ now && now < expires && (expires : ℤ) - created = ttl

/-- The record has the bindings of the arguments. -/
def Request.bound (q : Request) : Bool :=
  q.operation = a.operation.text && q.service = a.service && q.target = a.target &&
    q.requesterPrincipal = a.target && q.inventorySha256 = a.inventorySha256 &&
    q.currentCertSha256 = a.currentCertSha256 && q.profile = a.subject.profile &&
    q.responsePrincipal = a.responsePrincipal && q.predecessorRequestId = a.predecessorRequestId

/-- `validate_pending_directory` -/
def validatePendingDirectory (now : ℕ) (requestId : String) (node : Option Node) :
    Except String Result := do
  let files ← requireDir "pending request directory" node
  ensure (exactNames files)
    "pending request directory does not contain the exact four-file protocol set"
  let p ← readProtocol "pending protocol file " files
  let q ← parseRequest p.request
  ensure (q.identified requestId) "pending request identity is invalid"
  let created ← canonicalDecimal "created epoch" 0 maxEpoch q.createdEpoch
  let expires ← canonicalDecimal "expires epoch" 0 maxEpoch q.expiresEpoch
  ensure (lifetimeIsCurrent created expires now a.requestTtlSeconds)
    "pending request is expired, future-dated, or has a conflicting lifetime"
  ensure (q.bound a) "pending request conflicts with supplied request bindings"
  ensure (q.csrSha256 = t.sha256 p.csr) "pending CSR digest binding is invalid"
  let spki ← validateCsr t a p.key p.csr
  ensure (q.csrSpkiSha256 = spki) "pending CSR SPKI digest binding is invalid"
  verifyRequestSignature t a p.request p.signature
  return ⟨.existing, requestId, t.sha256 p.request, t.sha256 p.csr, spki⟩

/-- The lifetime checks on a retained record. -/
def retainedLifetime (created expires now : ℕ) : Bool :=
  created < expires && expires ≤ created + 604800 && created ≤ now + 300

/-- The other checks on a retained record; its own bindings may differ from the arguments. -/
def Request.retained (q : Request) (requestId : String) (csr : Data) : Bool :=
  q.schema = "2" && q.requestId = requestId && matchesHex 64 q.nonce &&
    (q.operation = "issue" || q.operation = "renew") && q.service = a.service &&
    q.target = a.target && q.requesterPrincipal = a.target && matchesHex 64 q.inventorySha256 &&
    matchesHex 64 q.csrSpkiSha256 &&
    (q.currentCertSha256 = noneText || matchesHex 64 q.currentCertSha256) &&
    q.profile = a.subject.profile && (q.profile ≠ clientProfile || q.operation = "issue") &&
    q.responsePrincipal = a.responsePrincipal && q.csrSha256 = t.sha256 csr &&
    (q.predecessorRequestId = noneText || matchesHex 32 q.predecessorRequestId) &&
    (q.operation ≠ "issue" || q.currentCertSha256 = noneText && q.predecessorRequestId = noneText) &&
    (q.operation ≠ "renew" || q.currentCertSha256 ≠ noneText && q.predecessorRequestId ≠ noneText)

/-- `validate_retained_pending_directory` -/
def validateRetainedPendingDirectory (now : ℕ) (requestId : String) (node : Option Node) :
    Except String Unit := do
  let files ← requireDir "retained pending request directory" node
  ensure (exactNames files)
    "retained pending request does not contain the exact four-file protocol set"
  let p ← readProtocol "retained pending protocol file " files
  let q ← parseRequest p.request
  let created ← canonicalDecimal "retained request created epoch" 0 maxEpoch q.createdEpoch
  let expires ← canonicalDecimal "retained request expiry epoch" 0 maxEpoch q.expiresEpoch
  ensure (retainedLifetime created expires now && q.retained t a requestId p.csr)
    "retained pending request binding is invalid"
  let keySpki ← ofOption (t.keySpki p.key) "retained private-key public-key derivation failed"
  let csrSpki ← ofOption (t.csrSpki p.csr) "retained CSR public-key derivation failed"
  ensure (keySpki = csrSpki && t.sha256 csrSpki = q.csrSpkiSha256)
    "retained pending key and CSR SPKI binding is invalid"
  verifyRequestSignature t a p.request p.signature

/-! ## What is accepted -/

section Accepted
variable {t : Tools} {a : Args} {label : String} {files : Files} {now : ℕ} {r : String}

lemma readSafe_eq {f : Option File} {d : Data} :
    readSafe label f = .ok d ↔ f = some (.ok d) ∧ readable d = true := by
  rcases f with _ | (flaw | c)
  · simp [readSafe]
  · cases flaw <;> simp [readSafe]
  · by_cases fits : readable c = true
    · simp only [readSafe, if_pos fits, Except.ok.injEq, Option.some.injEq]
      constructor
      · rintro rfl
        exact ⟨rfl, fits⟩
      · exact fun h => h.1
    · simp only [readSafe, if_neg fits, Option.some.injEq, Except.ok.injEq]
      constructor
      · intro read
        cases read
      · rintro ⟨rfl, h⟩
        exact absurd h fits

lemma requireDir_eq {α : Type} {n : Option (Except DirFlaw α)} {x : α} :
    requireDir label n = .ok x ↔ n = some (.ok x) := by
  rcases n with _ | (flaw | y)
  · simp [requireDir]
  · cases flaw <;> simp [requireDir]
  · simp [requireDir]

/-- The four files of a directory are readable and hold the given bytes. -/
structure Holding (files : Files) (p : Protocol) : Prop where
  request : files.lookup .request = some (.ok p.request) ∧ readable p.request = true
  signature : files.lookup .signature = some (.ok p.signature) ∧ readable p.signature = true
  csr : files.lookup .csr = some (.ok p.csr) ∧ readable p.csr = true
  key : files.lookup .key = some (.ok p.key) ∧ readable p.key = true

lemma readProtocol_eq {p : Protocol} : readProtocol label files = .ok p ↔ Holding files p := by
  simp only [readProtocol, Fallible.bind_eq_ok, readSafe_eq]
  constructor
  · rintro ⟨request, h, signature, h', csr, h'', key, h''', made⟩
    cases made
    exact ⟨h, h', h'', h'''⟩
  · rintro ⟨h, h', h'', h'''⟩
    exact ⟨_, h, _, h', _, h'', _, h''', rfl⟩

lemma canonicalDecimal_eq {minimum maximum n : ℕ} {value : String} :
    canonicalDecimal label minimum maximum value = .ok n ↔
      decimal value.toList = some n ∧ minimum ≤ n ∧ n ≤ maximum := by
  unfold canonicalDecimal
  cases decimal value.toList with
  | none => simp
  | some m =>
    by_cases outside : m < minimum ∨ m > maximum
    · simp only [if_pos outside, Option.some.injEq]
      constructor
      · intro read
        cases read
      · rintro ⟨rfl, low, high⟩
        omega
    · simp only [if_neg outside, Except.ok.injEq, Option.some.injEq]
      constructor
      · rintro rfl
        omega
      · exact fun h => h.1

/-- What `validate_pending_directory` has found in an accepted directory. -/
structure Accepted (t : Tools) (a : Args) (now : ℕ) (r : String) (files : Files) (p : Protocol)
    (q : Request) (spki : String) : Prop where
  exact : exactNames files = true
  holding : Holding files p
  parsed : parseRequest p.request = .ok q
  identified : q.identified r = true
  lifetime : ∃ created expires, decimal q.createdEpoch.toList = some created ∧
    decimal q.expiresEpoch.toList = some expires ∧ expires ≤ maxEpoch ∧ created ≤ now ∧
    now < expires ∧ expires = created + a.requestTtlSeconds
  bound : q.bound a = true
  csr : q.csrSha256 = t.sha256 p.csr
  profile : validateCsr t a p.key p.csr = .ok spki
  spkiBound : q.csrSpkiSha256 = spki
  verified : t.verify a.target p.request p.signature = true

lemma lifetimeIsCurrent_eq {created expires ttl : ℕ} : lifetimeIsCurrent created expires now ttl = true ↔
    created ≤ now ∧ now < expires ∧ expires = created + ttl := by
  simp only [lifetimeIsCurrent, Bool.and_eq_true, decide_eq_true_eq]
  omega

theorem validatePending_eq {node : Option Node} {result : Result} :
    validatePendingDirectory t a now r node = .ok result ↔ ∃ files p q spki,
      node = some (.ok files) ∧ Accepted t a now r files p q spki ∧
      result = ⟨.existing, r, t.sha256 p.request, t.sha256 p.csr, spki⟩ := by
  simp only [validatePendingDirectory, verifyRequestSignature, Fallible.bind_eq_ok,
    Fallible.ensure_eq_ok, requireDir_eq, readProtocol_eq, canonicalDecimal_eq, lifetimeIsCurrent_eq,
    decide_eq_true_eq]
  constructor
  · rintro ⟨files, there, ⟨⟩, exact, p, holding, q, parsed, ⟨⟩, identified, created, from_, expires,
      until_, ⟨⟩, lifetime, ⟨⟩, bound, ⟨⟩, csr, spki, key, ⟨⟩, spkiBound, ⟨⟩, verified, made⟩
    cases made
    refine ⟨files, p, q, spki, there, ⟨exact, holding, parsed, identified, ?_, bound, csr, key,
      spkiBound, verified⟩, rfl⟩
    exact ⟨created, expires, from_.1, until_.1, until_.2.2, lifetime⟩
  · rintro ⟨files, p, q, spki, there, h, rfl⟩
    obtain ⟨created, expires, from_, until_, fits, lifetime⟩ := h.lifetime
    exact ⟨files, there, (), h.exact, p, h.holding, q, h.parsed, (), h.identified, created,
      ⟨from_, by omega, by omega⟩, expires, ⟨until_, by omega, fits⟩, (), lifetime, (), h.bound, (), h.csr,
      spki, h.profile, (), h.spkiBound, (), h.verified, rfl⟩

lemma ofOption_eq {α : Type} {x : Option α} {e : String} {y : α} : ofOption x e = .ok y ↔ x = some y := by
  cases x <;> simp [ofOption]

/-- An accepted certificate request and its key have one public key. -/
lemma validateCsr_keys {key csr : Data} {spki : String} (h : validateCsr t a key csr = .ok spki) :
    ∃ d, t.keySpki key = some d ∧ t.csrSpki csr = some d ∧ spki = t.sha256 d := by
  obtain ⟨-, -, h⟩ := Fallible.bind_eq_ok.mp h
  split at h
  · simp only [Fallible.bind_eq_ok, ofOption_eq, Fallible.ensure_eq_ok, decide_eq_true_eq] at h
    obtain ⟨der, -, -, -, keySpki, ofKey, csrSpki, ofCsr, -, -, -, rfl, -, -, made⟩ := h
    cases made
    exact ⟨keySpki, ofKey, ofCsr, rfl⟩
  · simp only [Fallible.bind_eq_ok, ofOption_eq, Fallible.ensure_eq_ok, decide_eq_true_eq] at h
    obtain ⟨keySpki, ofKey, csrSpki, ofCsr, -, -, -, rfl, -, -, made⟩ := h
    cases made
    exact ⟨keySpki, ofKey, ofCsr, rfl⟩

lemma validateCsr_hex {key csr : Data} {spki : String} (h : validateCsr t a key csr = .ok spki) :
    matchesHex 64 spki = true := by
  obtain ⟨d, -, -, rfl⟩ := validateCsr_keys h
  exact t.hex d

lemma Args.current (a : Args) : a.currentCertSha256 = noneText ∨ matchesHex 64 a.currentCertSha256 = true := by
  cases op : a.operation with
  | issue => exact .inl (a.issue_ok op).1
  | renew => exact .inr (a.renew_ok op).1

lemma Args.predecessor (a : Args) :
    a.predecessorRequestId = noneText ∨ matchesHex 32 a.predecessorRequestId = true := by
  cases op : a.operation with
  | issue => exact .inl (a.issue_ok op).2
  | renew => exact .inr (a.renew_ok op).2

/-- What the runs on one state root have in common. -/
structure SameBinding (a b : Args) : Prop where
  service : b.service = a.service
  target : b.target = a.target
  profile : b.subject.profile = a.subject.profile
  response : b.responsePrincipal = a.responsePrincipal
  root : b.pendingRoot = a.pendingRoot

lemma hex_ne_none {m : ℕ} {v : String} (h : matchesHex m v = true) (other : m ≠ 4) : v ≠ noneText := by
  rintro rfl
  simp only [matchesHex, Bool.and_eq_true, decide_eq_true_eq] at h
  exact other h.1.symm

/-- The bindings of an accepted record are those of a retained one. -/
lemma Accepted.retained {b : Args} {p : Protocol} {q : Request} {spki : String}
    (h : Accepted t a now r files p q spki) (same : SameBinding b a) : q.retained t b r p.csr = true := by
  have identified := h.identified
  have bound := h.bound
  simp only [Request.identified, Bool.and_eq_true, decide_eq_true_eq] at identified
  simp only [Request.bound, Bool.and_eq_true, decide_eq_true_eq] at bound
  obtain ⟨⟨⟨schema, id⟩, -⟩, nonce⟩ := identified
  obtain ⟨⟨⟨⟨⟨⟨⟨⟨operation, service⟩, target⟩, requester⟩, inventory⟩, current⟩, profile⟩, response⟩,
    predecessor⟩ := bound
  have spki_ : matchesHex 64 q.csrSpkiSha256 = true := by
    rw [h.spkiBound]
    exact validateCsr_hex h.profile
  simp only [Request.retained, schema, id, nonce, operation, service, target, requester, inventory, current,
    profile, response, predecessor, h.csr, spki_, a.inventory_ok, same.service, same.target, same.profile,
    same.response]
  have client := a.client_ok
  rw [same.profile] at client
  cases op : a.operation with
  | issue =>
    obtain ⟨none_, none_'⟩ := a.issue_ok op
    simp [none_, none_', Operation.text]
  | renew =>
    obtain ⟨hex, hex'⟩ := a.renew_ok op
    have server : b.subject.profile ≠ clientProfile := fun is_ => by
      have issue := client is_
      rw [op] at issue
      cases issue
    simp [hex, hex', Operation.text, hex_ne_none hex, hex_ne_none hex', server]

/-- A directory that was accepted as a pending request is accepted as a retained one by every later
run for the same service and target, whatever that run asks for. -/
theorem pending_validates_retained {b : Args} {now' : ℕ} {node : Option Node} {result : Result}
    (valid : validatePendingDirectory t a now r node = .ok result) (same : SameBinding b a)
    (later : now ≤ now' + 300) : validateRetainedPendingDirectory t b now' r node = .ok () := by
  obtain ⟨files, p, q, spki, rfl, h, -⟩ := validatePending_eq.mp valid
  obtain ⟨created, expires, from_, until_, fits, past, -, ttl⟩ := h.lifetime
  obtain ⟨low, high⟩ := a.ttl_ok
  obtain ⟨d, ofKey, ofCsr, digest⟩ := validateCsr_keys h.profile
  have lifetime : retainedLifetime created expires now' = true := by
    simp only [retainedLifetime, Bool.and_eq_true, decide_eq_true_eq]
    omega
  have verified : t.verify b.target p.request p.signature = true := by
    rw [← same.target]
    exact h.verified
  simp only [validateRetainedPendingDirectory, verifyRequestSignature, Fallible.bind_eq_ok,
    Fallible.ensure_eq_ok, requireDir_eq, readProtocol_eq, canonicalDecimal_eq, ofOption_eq]
  refine ⟨files, rfl, (), h.exact, p, h.holding, q, h.parsed, created, ⟨from_, by omega, by omega⟩, expires,
    ⟨until_, by omega, fits⟩, (), ?_, d, ofKey, d, ofCsr, (), ?_, verified⟩
  · rw [lifetime, h.retained same]
    rfl
  · simp [← digest, h.spkiBound]

end Accepted

end PlatformConfig.HostRequest
