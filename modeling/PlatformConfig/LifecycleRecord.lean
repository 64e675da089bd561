import Mathlib.Data.List.AList
import Mathlib.Data.Finset.Sort

/-!
# Records of the certificate lifecycle

The records that the lifecycle helper keeps in the state root of one target, the files of a
pending request and of an immutable version, and the checks on them. A record is the value
that its file is parsed to; its fixed fields (schema, kind, service, target) are the same in
every record of a target and are left out. Signature, certificate and configuration readers
are parameters of the target.
-/
namespace PlatformConfig.Lifecycle

abbrev Data := List UInt8

/-- File names below a pending request and below a version. -/
inductive FileName
  | key | csr | request | requestSig
  | crt | chain | fullchain | response | responseSig | artifact
  | other (name : String)
  deriving DecidableEq

abbrev Files := AList fun _ : FileName => Data

/-- The files that were read under fixed names. -/
abbrev Contents := FileName → Option Data

def pendingNames : List FileName := [.key, .csr, .request, .requestSig]

def responseNames : List FileName := [.artifact, .crt, .chain, .fullchain, .response, .responseSig]

def versionNames : List FileName :=
  [.key, .csr, .crt, .chain, .fullchain, .response, .responseSig, .artifact]

/-- `MAX_SIZE` -/
def maxSize : ℕ := 1048576

def readable (d : Data) : Bool := 0 < d.length && d.length ≤ maxSize

/-- Device and inode of a directory. -/
abbrev Identity := ℕ × ℕ

structure Dir where
  id : Identity
  files : Files

/-- `open_exact_tree`: exactly the given names, each with readable content. -/
def Dir.exact (names : List FileName) (d : Dir) : Bool :=
  (∀ f ∈ d.files.keys, f ∈ names) && names.all fun f => (d.files.lookup f).any readable

/-- The given files of a directory. -/
def Dir.contents (names : List FileName) (d : Dir) : Contents :=
  fun f => if f ∈ names then d.files.lookup f else none

/-- Two sets of files agree on the given names. -/
def agreeOn (names : List FileName) (a b : Contents) : Bool := names.all fun f => a f = b f

inductive Operation
  | issue | renew
  deriving DecidableEq

/-- The fields of a pending request record that the lifecycle reads. -/
structure Request where
  requestId : String
  createdEpoch : ℕ
  expiresEpoch : ℕ
  operation : Operation
  service : String
  target : String
  currentCertSha256 : Option String
  predecessorRequestId : Option String
  deriving DecidableEq

/-- What the response of a request says about its leaf, once every binding, signature and
profile check has passed. -/
structure Leaf where
  spki : String
  intermediateSha256 : String
  notBefore : ℕ
  notAfter : ℕ
  created : ℕ
  authoritiesNotBefore : ℕ
  authoritiesNotAfter : ℕ
  deriving DecidableEq

/-- `active` -/
structure Active where
  requestId : String
  artifactManifestSha256 : String
  responseSha256 : String
  responseSignatureSha256 : String
  certificateSha256 : String
  certificateSpkiSha256 : String
  chainSha256 : String
  fullchainSha256 : String
  versionPath : String
  versionIdentity : Identity
  zotConfigSha256 : String
  activationEpoch : ℕ
  rollbackDeadlineEpoch : ℕ
  deriving DecidableEq

/-- The predecessor fields of a rollback record of kind `host-local`. -/
structure Predecessor where
  requestId : String
  artifactManifestSha256 : String
  certificateSha256 : String
  certificateSpkiSha256 : String
  chainSha256 : String
  fullchainSha256 : String
  versionPath : String
  versionIdentity : Identity
  deriving DecidableEq

/-- `rollback`; no predecessor is the predecessor kind `none`. -/
structure Rollback where
  activatingRequestId : String
  activatingArtifactManifestSha256 : String
  activatingCertificateSha256 : String
  activatingVersionPath : String
  activatingVersionIdentity : Identity
  predecessor : Option Predecessor
  priorZotCertPath : String
  priorZotKeyPath : String
  priorZotConfigSha256 : String
  activationEpoch : ℕ
  rollbackDeadlineEpoch : ℕ
  deriving DecidableEq

inductive Checkpoint
  | prepared | recordsWritten | configWritten | restarted | localValidated
  | notActivated | rolledBack
  deriving DecidableEq

/-- `activation-journal`; the encoded records and configurations with their digests are the
values themselves. -/
structure Journal where
  transactionId : String
  requestId : String
  artifactManifestSha256 : String
  checkpoint : Checkpoint
  targetVersionPath : String
  targetVersionIdentity : Identity
  targetResponseSha256 : String
  targetResponseSignatureSha256 : String
  targetCertificateSha256 : String
  targetCertificateSpkiSha256 : String
  targetChainSha256 : String
  targetFullchainSha256 : String
  priorActive : Option Active
  newActive : Active
  priorRollback : Option Rollback
  newRollback : Rollback
  priorConfig : Data
  targetConfig : Data
  priorServiceActive : Bool
  createdEpoch : ℕ
  rollbackDeadlineEpoch : ℕ
  deriving DecidableEq

inductive TerminalState
  | complete | notActivated | rolledBack
  deriving DecidableEq

/-- The success proof of a complete terminal record. -/
structure Proof where
  servedCertificateSha256 : String
  servedIntermediateSha256 : String
  validationEpoch : ℕ
  deriving DecidableEq

/-- `target-terminal` -/
structure Terminal where
  requestId : String
  state : TerminalState
  artifactManifestSha256 : String
  responseSha256 : String
  responseSignatureSha256 : String
  certificateSha256 : String
  activationEpoch : ℕ
  proof : Option Proof
  deriving DecidableEq

inductive Adapter
  | zot | openbao | client
  deriving DecidableEq

/-- The fixed arguments of one target: its roots, its adapter, and the readers that are given
by cryptography and by the configuration format. `selects` says that a configuration made by
selecting a version is read back as selecting it. -/
structure Target where
  service : String
  target : String
  adapter : Adapter
  versionsRoot : String
  minimumRemainingLifetime : ℕ
  sha256 : Data → String
  readPending : Contents → Option Request
  readResponse : Contents → Contents → Option Leaf
  keySpki : Data → Option String
  leafSpki : Data → Option String
  parseConfig : Data → Option (String × String)
  selectConfig : Data → String → Data
  selectedVersionPaths : String → String × String
  selects : ∀ d r, (parseConfig d).isSome = true →
    parseConfig (selectConfig d r) = some (selectedVersionPaths r)
  baseTlsPaths : String × String
  fits : Journal → Bool

variable (c : Target)

def Target.versionPath (r : String) : String := c.versionsRoot ++ "/" ++ r

/-- `validate_pending`: the record, its files and whether it has expired. -/
structure Pending where
  record : Request
  files : Contents
  expired : Bool

/-- The identity and the lifetime of a pending request. -/
def Request.timely (record : Request) (r : String) (now : ℕ) : Bool :=
  record.requestId = r && record.createdEpoch < record.expiresEpoch &&
    record.expiresEpoch ≤ record.createdEpoch + 604800 && record.createdEpoch ≤ now + 300

def Target.validatePending (d : Dir) (r : String) (now : ℕ) : Option Pending :=
  if d.exact pendingNames then
    ((c.readPending (d.contents pendingNames)).filter fun record => record.timely r now).map
      fun record => ⟨record, d.contents pendingNames, record.expiresEpoch ≤ now⟩
  else none

/-- `require_adapter_operation` -/
def Target.adapterAllows (record : Request) : Bool :=
  match c.adapter with
  | .zot => true
  | .openbao => record.operation = .issue
  | .client => record.operation = .issue && record.currentCertSha256.isNone &&
      record.predecessorRequestId.isNone

/-- What an authenticated candidate is known by. -/
structure Validated where
  artifactSha256 : String
  responseSha256 : String
  responseSignatureSha256 : String
  certificateSha256 : String
  certificateSpkiSha256 : String
  chainSha256 : String
  fullchainSha256 : String
  intermediateSha256 : String
  leaf : Leaf
  deriving DecidableEq

def Target.digest (files : Contents) (f : FileName) : String := c.sha256 ((files f).getD [])

/-- The lifetime checks of `validate_response_files`. -/
def Target.current (leaf : Leaf) (now : ℕ) : Bool :=
  leaf.notBefore ≤ now + 300 && now < leaf.notAfter &&
    now + c.minimumRemainingLifetime ≤ leaf.notAfter &&
    leaf.notBefore ≤ leaf.created + 300 && leaf.created ≤ now + 300 && leaf.created ≤ leaf.notAfter &&
    (c.adapter ≠ .client || leaf.authoritiesNotBefore ≤ now && now < leaf.authoritiesNotAfter)

def Target.validated (files : Contents) (leaf : Leaf) : Validated where
  artifactSha256 := c.digest files .artifact
  responseSha256 := c.digest files .response
  responseSignatureSha256 := c.digest files .responseSig
  certificateSha256 := c.digest files .crt
  certificateSpkiSha256 := leaf.spki
  chainSha256 := c.digest files .chain
  fullchainSha256 := c.digest files .fullchain
  intermediateSha256 := leaf.intermediateSha256
  leaf := leaf

/-- `validate_response_files` -/
def Target.validateResponseFiles (files : Contents) (pending : Pending) (now : ℕ) :
    Option Validated :=
  if c.adapterAllows pending.record then
    ((c.readResponse pending.files files).filter fun leaf => c.current leaf now).map (c.validated files)
  else none

/-- The active record of `activation_records`. -/
def Target.activeRecord (r artifact : String) (v : Validated) (id : Identity) (config : Data)
    (created deadline : ℕ) : Active where
  requestId := r
  artifactManifestSha256 := artifact
  responseSha256 := v.responseSha256
  responseSignatureSha256 := v.responseSignatureSha256
  certificateSha256 := v.certificateSha256
  certificateSpkiSha256 := v.certificateSpkiSha256
  chainSha256 := v.chainSha256
  fullchainSha256 := v.fullchainSha256
  versionPath := c.versionPath r
  versionIdentity := id
  zotConfigSha256 := c.sha256 config
  activationEpoch := created
  rollbackDeadlineEpoch := deadline

def predecessorOf (old : Active) : Predecessor where
  requestId := old.requestId
  artifactManifestSha256 := old.artifactManifestSha256
  certificateSha256 := old.certificateSha256
  certificateSpkiSha256 := old.certificateSpkiSha256
  chainSha256 := old.chainSha256
  fullchainSha256 := old.fullchainSha256
  versionPath := old.versionPath
  versionIdentity := old.versionIdentity

/-- The rollback record of `activation_records`. -/
def Target.rollbackRecord (r artifact : String) (v : Validated) (id : Identity)
    (priorActive : Option Active) (priorConfig : Data) (priorPaths : String × String)
    (created deadline : ℕ) : Rollback where
  activatingRequestId := r
  activatingArtifactManifestSha256 := artifact
  activatingCertificateSha256 := v.certificateSha256
  activatingVersionPath := c.versionPath r
  activatingVersionIdentity := id
  predecessor := priorActive.map predecessorOf
  priorZotCertPath := priorPaths.1
  priorZotKeyPath := priorPaths.2
  priorZotConfigSha256 := c.sha256 priorConfig
  activationEpoch := created
  rollbackDeadlineEpoch := deadline

/-- `require_active_rollback`: both records bind one activation. -/
def Rollback.binds (b : Rollback) (a : Active) : Bool :=
  b.activatingRequestId = a.requestId &&
    b.activatingArtifactManifestSha256 = a.artifactManifestSha256 &&
    b.activatingCertificateSha256 = a.certificateSha256 &&
    b.activatingVersionPath = a.versionPath &&
    b.activatingVersionIdentity = a.versionIdentity &&
    b.activationEpoch = a.activationEpoch &&
    b.rollbackDeadlineEpoch = a.rollbackDeadlineEpoch

/-- `journal_record`: what an accepted journal binds together. -/
def Target.journalBound (j : Journal) : Bool :=
  j.targetVersionPath = c.versionPath j.requestId && j.createdEpoch < j.rollbackDeadlineEpoch &&
    (c.parseConfig j.priorConfig).isSome &&
    c.parseConfig j.targetConfig = some (c.selectedVersionPaths j.requestId) &&
    j.newActive.requestId = j.requestId &&
    j.newActive.artifactManifestSha256 = j.artifactManifestSha256 &&
    j.newActive.versionPath = j.targetVersionPath &&
    j.newActive.versionIdentity = j.targetVersionIdentity &&
    j.newActive.responseSha256 = j.targetResponseSha256 &&
    j.newActive.responseSignatureSha256 = j.targetResponseSignatureSha256 &&
    j.newActive.certificateSha256 = j.targetCertificateSha256 &&
    j.newActive.certificateSpkiSha256 = j.targetCertificateSpkiSha256 &&
    j.newActive.chainSha256 = j.targetChainSha256 &&
    j.newActive.fullchainSha256 = j.targetFullchainSha256 &&
    j.newActive.activationEpoch = j.createdEpoch &&
    j.newActive.rollbackDeadlineEpoch = j.rollbackDeadlineEpoch &&
    j.newRollback.activatingRequestId = j.requestId &&
    j.newRollback.activatingArtifactManifestSha256 = j.artifactManifestSha256 &&
    j.newRollback.activationEpoch = j.createdEpoch &&
    j.newRollback.rollbackDeadlineEpoch = j.rollbackDeadlineEpoch

/-- The journal that `activate_start` writes. -/
def Target.journalOf (tx r artifact : String) (v : Validated) (id : Identity)
    (priorActive : Option Active) (priorRollback : Option Rollback) (priorConfig : Data)
    (priorPaths : String × String) (priorServiceActive : Bool) (created deadline : ℕ) : Journal where
  transactionId := tx
  requestId := r
  artifactManifestSha256 := artifact
  checkpoint := .prepared
  targetVersionPath := c.versionPath r
  targetVersionIdentity := id
  targetResponseSha256 := v.responseSha256
  targetResponseSignatureSha256 := v.responseSignatureSha256
  targetCertificateSha256 := v.certificateSha256
  targetCertificateSpkiSha256 := v.certificateSpkiSha256
  targetChainSha256 := v.chainSha256
  targetFullchainSha256 := v.fullchainSha256
  priorActive := priorActive
  newActive := c.activeRecord r artifact v id (c.selectConfig priorConfig r) created deadline
  priorRollback := priorRollback
  newRollback :=
    c.rollbackRecord r artifact v id priorActive priorConfig priorPaths created deadline
  priorConfig := priorConfig
  targetConfig := c.selectConfig priorConfig r
  priorServiceActive := priorServiceActive
  createdEpoch := created
  rollbackDeadlineEpoch := deadline

/-- `target_terminal_bytes` -/
def targetTerminal (j : Journal) (state : TerminalState) (proof : Option Proof) : Terminal where
  requestId := j.requestId
  state := state
  artifactManifestSha256 := j.artifactManifestSha256
  responseSha256 := j.targetResponseSha256
  responseSignatureSha256 := j.targetResponseSignatureSha256
  certificateSha256 := j.targetCertificateSha256
  activationEpoch := j.createdEpoch
  proof := proof

/-- `parse_target_terminal`: a success proof belongs to a complete record only. -/
def Terminal.wellFormed (t : Terminal) : Bool := t.proof.isSome = (t.state = .complete)

/-- How an activation failed. -/
inductive Failure
  | notActivated | rolledBack
  deriving DecidableEq

def Failure.state : Failure → TerminalState
  | .notActivated => .notActivated
  | .rolledBack => .rolledBack

def Failure.checkpoint : Failure → Checkpoint
  | .notActivated => .notActivated
  | .rolledBack => .rolledBack

/-- What `restore_from_journal` makes of a journal. -/
def Journal.restored (j : Journal) : Failure :=
  if j.newRollback.predecessor.isNone then .notActivated
  else match j.checkpoint with
    | .prepared | .recordsWritten | .notActivated => .notActivated
    | _ => .rolledBack

/-- The failure of a journal that has been restored. -/
def Checkpoint.failure : Checkpoint → Option Failure
  | .notActivated => some .notActivated
  | .rolledBack => some .rolledBack
  | _ => none

/-- The candidate checks of `validate_terminal_candidate`. -/
def Terminal.bindsCandidate (t : Terminal) (v : Validated) : Bool :=
  t.artifactManifestSha256 = v.artifactSha256 && t.responseSha256 = v.responseSha256 &&
    t.responseSignatureSha256 = v.responseSignatureSha256 && t.certificateSha256 = v.certificateSha256

/-- `validate_terminal_activation` -/
def Terminal.agrees (t : Terminal) (active : Option Active) : Bool :=
  (t.state = .complete) = (active.any fun a =>
    a.requestId = t.requestId && a.certificateSha256 = t.certificateSha256 : Bool)

lemma journalOf_bound {tx r artifact : String} {v : Validated} {id : Identity}
    {priorActive : Option Active} {priorRollback : Option Rollback} {priorConfig : Data}
    {priorPaths : String × String} {priorServiceActive : Bool} {created deadline : ℕ}
    (parses : (c.parseConfig priorConfig).isSome = true) (later : created < deadline) :
    c.journalBound (c.journalOf tx r artifact v id priorActive priorRollback priorConfig priorPaths
      priorServiceActive created deadline) = true := by
  simp [Target.journalBound, Target.journalOf, Target.activeRecord, Target.rollbackRecord, parses,
    later, c.selects priorConfig r parses]

lemma journalOf_binds {tx r artifact : String} {v : Validated} {id : Identity}
    {priorActive : Option Active} {priorRollback : Option Rollback} {priorConfig : Data}
    {priorPaths : String × String} {priorServiceActive : Bool} {created deadline : ℕ} :
    (c.journalOf tx r artifact v id priorActive priorRollback priorConfig priorPaths
      priorServiceActive created deadline).newRollback.binds
      (c.journalOf tx r artifact v id priorActive priorRollback priorConfig priorPaths
      priorServiceActive created deadline).newActive = true := by
  simp [Rollback.binds, Target.journalOf, Target.activeRecord, Target.rollbackRecord]

end PlatformConfig.Lifecycle
