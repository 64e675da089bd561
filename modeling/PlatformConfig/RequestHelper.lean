import PlatformConfig.CrashDisk
import PlatformConfig.RequestChecks

/-!
# The request helper

`platform-pki-host-local-request` as a program on the state root and the pending root of one
target, both locked throughout: recovery of an interrupted request, inspection of the pending
requests, and the creation of a new one in a staging directory that is renamed when it validates.
Locks, trust files, the signing key and the current certificate are one inspection each.
-/
namespace PlatformConfig.HostRequest

open CrashProgram CrashDisk Prog
open GuardPlan (matchesHex)

/-! ## The state -/

/-- An entry of the pending root: a published request, the staging directory of one, or any other
name. -/
inductive Entry
  | request (requestId : String)
  | stage (requestId : String)
  | other (name : String)
  deriving DecidableEq

def stagingName (requestId : String) : String := ".stage-" ++ requestId

/-- The state root besides its lock and its trust directory, and the pending root. -/
structure State where
  active : Option File
  rollback : Option File
  terminal : Option File
  history : Option (Except DirFlaw (AList fun _ : String => File))
  journal : Option File
  others : List String
  pending : Option (AList fun _ : Entry => Node)

def State.node (s : State) (e : Entry) : Option Node := s.pending.bind (·.lookup e)

/-- The writes of a run; all files it writes below the pending root are in a staging directory. -/
inductive Write
  | newJournal (d : Data)
  | unlinkJournal
  | mkdirPending
  | mkdirStage (r : String)
  | newFile (r : String) (f : FileName) (d : Data)
  | unlinkFile (r : String) (f : FileName)
  | rmdirStage (r : String)
  | publish (r : String)

def State.put (s : State) (e : Entry) (n : Node) : State :=
  { s with pending := s.pending.map (·.insert e n) }

def State.drop (s : State) (e : Entry) : State := { s with pending := s.pending.map (·.erase e) }

/-- Change the files of a staging directory. -/
def State.change (s : State) (r : String) (change : Files → Option Files) : Option State :=
  match s.node (.stage r) with
  | some (.ok files) => (change files).map fun files => s.put (.stage r) (.ok files)
  | _ => none

/-- Create a file that is not there. -/
def createFile (f : FileName) (d : Data) (files : Files) : Option Files :=
  if f ∈ files then none else some (files.insert f (.ok d))

def removeFile (f : FileName) (files : Files) : Option Files :=
  if f ∈ files then some (files.erase f) else none

def Write.apply : Write → State → Option State
  | .newJournal d, s => if s.journal.isSome then none else some { s with journal := some (.ok d) }
  | .unlinkJournal, s => if s.journal.isSome then some { s with journal := none } else none
  | .mkdirPending, s => if s.pending.isSome then none else some { s with pending := some ∅ }
  | .mkdirStage r, s =>
    if s.pending.isSome && (s.node (.stage r)).isNone then some (s.put (.stage r) (.ok ∅)) else none
  | .newFile r f d, s => s.change r (createFile f d)
  | .unlinkFile r f, s => s.change r (removeFile f)
  | .rmdirStage r, s =>
    match s.node (.stage r) with
    | some (.ok files) => if files.keys = [] then some (s.drop (.stage r)) else none
    | _ => none
  | .publish r, s =>
    match s.node (.stage r) with
    | some n => if (s.node (.request r)).isSome then none else some ((s.drop (.stage r)).put (.request r) n)
    | none => none

/-- A kill inside the writing of a file leaves the beginning of it. -/
inductive Torn : Write → State → State → Prop
  | journal {d p s t} (front : p <+: d) (part : p ≠ d) (applied : (Write.newJournal p).apply s = some t) :
      Torn (.newJournal d) s t
  | file {r f d p s t} (front : p <+: d) (part : p ≠ d)
      (applied : (Write.newFile r f p).apply s = some t) : Torn (.newFile r f d) s t

/-- What a run asks: whether a check of what is not in the state passes, the clock, random hexadecimal
digits, and the files that OpenSSL and `ssh-keygen` make. -/
inductive Ask
  | inspect
  | now
  | requestId
  | nonce
  | key
  | csr (a : Args) (key : Data)
  | sign (a : Args) (request : Data)

abbrev Answer : Ask → Type
  | .inspect => Bool
  | .now => ℕ
  | .requestId => String
  | .nonce => String
  | .key => Option Data
  | .csr _ _ => Option Data
  | .sign _ _ => Option Data

/-- The conditions of a run: whether a check of what is not in the state or a write can fail, whether
the tools can, whether a fresh request ID can be the one of a published request, and the times that
the clock can show. -/
structure Conditions where
  faults : Prop
  toolFaults : Prop
  collides : Prop
  clock : ℕ → Prop

/-- What a tool leaves when it works: a readable file that passes its check. -/
def Delivered (valid : Data → Prop) (y : Option Data) : Prop :=
  ∃ d, y = some d ∧ readable d = true ∧ valid d

def disk (t : Tools) (k : Conditions) : Disk State Write Ask Answer where
  apply := Write.apply
  answers
    | .inspect, _, passed => passed = true ∨ k.faults
    | .now, _, n => k.clock n
    | .requestId, s, r => matchesHex 32 r = true ∧ ((s.node (.request r)).isNone = true ∨ k.collides)
    | .nonce, _, n => matchesHex 64 n = true
    | .key, _, y => Delivered (fun _ => True) y ∨ k.toolFaults
    | .csr a key, _, y => Delivered (fun d => ∃ spki, validateCsr t a key d = .ok spki) y ∨ k.toolFaults
    | .sign a request, _, y => Delivered (fun d => t.verify a.target request d = true) y ∨ k.toolFaults
  fails _ := k.faults
  torn := Torn

abbrev Run := Program State Write Ask Answer String

def inspect (e : String) : Run Unit := (ask Ask.inspect).bind fun passed => require passed e

def ofExcept {α : Type} : Except String α → Run α
  | .ok a => .ret a
  | .error e => .fail e

def deliver (x : Ask) (y : Answer x → Option Data) (e : String) : Run Data :=
  (ask x).bind fun made => match y made with
    | some d => .ret d
    | none => .fail e

variable (t : Tools) (a : Args)

/-! ## The state root -/

/-- The completed request that `target-terminal` records. -/
def completedTerminal (s : State) : Except String (List String) :=
  match s.terminal with
  | none => return []
  | some file => do
    let d ← readSafe terminalLabel (some file)
    let r ← parseTargetTerminal d none
    Fallible.ensure (r.service = a.service && r.target = a.target)
      "target-local terminal record target binding is invalid"
    return [r.requestId]

/-- An entry of the history: a terminal record under its request ID. -/
def completedEntry (e : Sigma fun _ : String => File) : Except String String := do
  Fallible.ensure (matchesHex 32 e.1 && isRegular e.2)
    "target-local terminal history contains an invalid entry"
  let d ← readSafe "target-local terminal history record" (some e.2)
  let r ← parseTargetTerminal d (some e.1)
  Fallible.ensure (r.service = a.service && r.target = a.target)
    "target-local terminal history target binding is invalid"
  return e.1

/-- `completed_target_request_ids` -/
def completedTargetRequestIds (s : State) : Except String (List String) := do
  let current ← completedTerminal a s
  match s.history with
  | none => return current
  | some h => do
    let h ← requireDir "target-local terminal history" (some h)
    let past ← h.entries.mapM (completedEntry a)
    return current ++ past

/-- `active_request_id` -/
def activeRequestId (s : State) : Except String (Option String) :=
  match s.active with
  | none => return none
  | some file => do
    let d ← readSafe "shared lifecycle file active" (some file)
    let requestId ← parseActive a.service a.target d
    return some requestId

/-- `validate_completed_lifecycle_state` for one of its files. -/
def readLifecycleFile (label : String) (file : Option File) : Except String Unit :=
  match file with
  | none => return
  | some file => do
    let _ ← readSafe label (some file)
    return

/-- `inspect_state_root`: the completed requests and the active one. -/
def inspectStateRoot (s : State) : Except String (List String × Option String) := do
  Fallible.ensure (s.others = []) "state root contains unexpected entries"
  readLifecycleFile "shared lifecycle file active" s.active
  readLifecycleFile "shared lifecycle file rollback" s.rollback
  let completed ← completedTargetRequestIds a s
  let active ← activeRequestId a s
  return (completed, active)

/-- What the operation asks of the active request. -/
def admits (active : Option String) : Except String Unit :=
  match a.operation with
  | .issue => Fallible.ensure active.isNone "issue requires no active predecessor"
  | .renew => Fallible.ensure (active = some a.predecessorRequestId)
      "renewal predecessor does not match authenticated active state"

/-! ## Recovery -/

/-- The journal names a request of this pending root. -/
def Journal.bound (j : Journal) : Bool :=
  j.schema = "2" && matchesHex 32 j.requestId && j.stageName = stagingName j.requestId &&
    j.pendingRoot = a.pendingRoot

/-- `remove_journal` of the journal with the bytes `d`. -/
def removeJournal (d : Data) : Run Unit := do
  let s ← look
  require (s.journal = some (.ok d)) "request recovery journal changed during validation"
  write .unlinkJournal "cannot remove request recovery journal"

def unlinkAll (r : String) : List FileName → Run Unit
  | [] => pure ()
  | f :: rest => do
    write (.unlinkFile r f) "cannot remove journal-owned staging file"
    unlinkAll r rest

def isStaged (f : FileName) : Bool := f ∈ FileName.config :: expectedFiles

def recoveryRequired : String := "request recovery is required before check mode can succeed"

/-- The staging directory of the journal is checked and removed. -/
def recoverStage (check : Bool) (r : String) (node : Node) : Run Unit := do
  let files ← ofExcept (requireDir "journal-owned request staging directory" (some node))
  require (files.entries.all fun e => isStaged e.1 && isRegular e.2)
    "journal-owned request staging directory contains unexpected state"
  let _ ← ofExcept (files.entries.mapM fun e =>
    readSafe ("journal-owned staging file " ++ e.1.text) (some e.2))
  require (!check) recoveryRequired
  inspect "pending root changed while locked"
  unlinkAll r files.keys
  write (.rmdirStage r) "cannot remove request staging directory"

/-- `recover_request` -/
def recoverRequest (check : Bool) : Run Unit := do
  let s ← look
  match s.journal with
  | none => pure ()
  | some file => do
    let d ← ofExcept (readSafe journalLabel (some file))
    let j ← ofExcept (parseJournal d)
    require (j.bound a) "request recovery journal identity is invalid"
    inspect "pending root changed while locked"
    match s.node (.stage j.requestId), s.node (.request j.requestId) with
    | some _, some _ => .fail "request recovery found both staging and published state"
    | none, some published => do
      let now ← ask .now
      let _ ← ofExcept (validatePendingDirectory t a now j.requestId (some published))
      require (!check) recoveryRequired
      inspect "pending root changed while locked"
      removeJournal d
    | some stage, none => do
      recoverStage check j.requestId stage
      inspect "pending root changed while locked"
      removeJournal d
    | none, none => do
      require (!check) recoveryRequired
      inspect "pending root changed while locked"
      removeJournal d

/-! ## Pending requests -/

def unexpectedState : String := "pending root contains staging, symlinked, or unexpected state"

/-- The entries of the pending root: completed requests are checked as retained ones, and the others
are returned. -/
def inspectEntries (completed : List String) : List (Sigma fun _ : Entry => Node) → Run (List String)
  | [] => pure []
  | ⟨.request r, node⟩ :: rest => do
    require (matchesHex 32 r && isDirectory node) unexpectedState
    if r ∈ completed then do
      let now ← ask .now
      ofExcept (validateRetainedPendingDirectory t a now r (some node))
      inspectEntries completed rest
    else do
      let candidates ← inspectEntries completed rest
      return r :: candidates
  | _ :: _ => .fail unexpectedState

/-- `inspect_pending_root` -/
def inspectPendingRoot (completed : List String) : Run (Option Result) := do
  let s ← look
  match s.pending with
  | none => return none
  | some tree => do
    match ← inspectEntries t a completed tree.entries with
    | [] => return none
    | [r] => do
      let now ← ask .now
      let result ← ofExcept (validatePendingDirectory t a now r (s.node (.request r)))
      return some result
    | _ => .fail "multiple nonterminal pending request entries exist"

/-! ## Creation -/

/-- The values of a new request record. -/
def newRequest (r nonce : String) (created : ℕ) (csrSha256 csrSpkiSha256 : String) : Request where
  schema := "2"
  requestId := r
  nonce := nonce
  createdEpoch := RecordText.str created
  expiresEpoch := RecordText.str (created + a.requestTtlSeconds)
  operation := a.operation.text
  service := a.service
  target := a.target
  requesterPrincipal := a.target
  inventorySha256 := a.inventorySha256
  csrSha256 := csrSha256
  csrSpkiSha256 := csrSpkiSha256
  currentCertSha256 := a.currentCertSha256
  predecessorRequestId := a.predecessorRequestId
  profile := a.subject.profile
  responsePrincipal := a.responsePrincipal

/-- The four protocol files in the staging directory `r`. -/
def stageRequest (r nonce : String) : Run Unit := do
  write (.newFile r .config a.config) "cannot write staged OpenSSL configuration"
  let key ← deliver .key (fun y => y) "P-384 private key generation failed"
  write (.newFile r .key key) "P-384 private key generation failed"
  inspect "generated private key is unsafe"
  let csr ← deliver (.csr a key) (fun y => y) "SHA-384 CSR generation failed"
  write (.newFile r .csr csr) "SHA-384 CSR generation failed"
  inspect "generated CSR is unsafe"
  let csr ← ofExcept (readSafe "staged CSR" (some (.ok csr)))
  let spki ← ofExcept (validateCsr t a key csr)
  let created ← ask .now
  let request := requestContent (newRequest a r nonce created (t.sha256 csr) spki)
  write (.newFile r .request request) "cannot write staged request"
  let signature ← deliver (.sign a request) (fun y => y) "request signing failed"
  write (.newFile r .signature signature) "request signing failed"
  inspect "generated request signature is unsafe"
  let request ← ofExcept (readSafe "pending request" (some (.ok request)))
  let signature ← ofExcept (readSafe "pending request signature" (some (.ok signature)))
  ofExcept (verifyRequestSignature t a request signature)
  let _ ← ofExcept (readSafe "staged OpenSSL configuration" (some (.ok a.config)))
  write (.unlinkFile r .config) "cannot remove staged OpenSSL configuration"

/-- The pending root holds the completed requests and the staging directory, and nothing else. -/
def State.entriesAre (s : State) (completed : List String) (r : String) : Bool :=
  let names := (s.pending.map AList.keys).getD []
  let expected := Entry.stage r :: completed.map Entry.request
  (∀ e ∈ names, e ∈ expected) && (∀ e ∈ expected, e ∈ names)

/-- The staged files are checked once more and renamed into place. -/
def publishRequest (r : String) (completed : List String) : Run Unit := do
  let s ← look
  let now ← ask .now
  let _ ← ofExcept (validatePendingDirectory t a now r (s.node (.stage r)))
  let s ← look
  require (s.entriesAre completed r) "pending root changed before request publication"
  inspect "pending root changed while locked"
  write (.publish r) "request publication destination already exists"
  inspect "pending root changed while locked"

/-- `create_request` -/
def createRequest (completed : List String) : Run Result := do
  let r ← ask .requestId
  let nonce ← ask .nonce
  require (matchesHex 32 r && matchesHex 64 nonce) "secure random request identity generation failed"
  let journal := journalContent r (stagingName r) a.pendingRoot
  write (.newJournal journal) "cannot write request recovery journal"
  let _ ← ofExcept (readSafe journalLabel (some (.ok journal)))
  inspect "state root changed while locked"
  write (.mkdirStage r) "cannot create protected request staging directory"
  stageRequest t a r nonce
  publishRequest t a r completed
  let s ← look
  let now ← ask .now
  let result ← ofExcept (validatePendingDirectory t a now r (s.node (.request r)))
  inspect "pending root changed while locked"
  removeJournal journal
  return { result with status := .created }

/-! ## Whole runs -/

inductive Outcome
  | pending (result : Result)
  | wouldCreate
  deriving DecidableEq

/-- The pending root is created where it is missing, but not in check mode. -/
def preparePendingRoot (check : Bool) : Run Unit := do
  let s ← look
  if s.pending.isNone && !check then write .mkdirPending "cannot create pending root" else pure ()

/-- `main` behind the argument checks. -/
def request (check : Bool) : Run Outcome := do
  inspect "frozen trust directory contains unexpected entries"
  inspect "request signing key does not match frozen requester trust"
  inspect "current leaf certificate digest mismatch"
  let s ← look
  let (completed, active) ← ofExcept (inspectStateRoot a s)
  ofExcept (admits a active)
  preparePendingRoot check
  inspect "pending root changed while locked"
  recoverRequest t a check
  inspect "pending root changed while locked"
  match ← inspectPendingRoot t a completed with
  | some result => return .pending result
  | none =>
    if check then return .wouldCreate
    else do
      let result ← createRequest t a completed
      return .pending result

end PlatformConfig.HostRequest
