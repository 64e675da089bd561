import PlatformConfig.LifecycleResponse

/-!
# Status and installation

What the helper reports about a target, the next action that it names, and the installation
command, which for a client without an ingress is a report of what is staged.
-/
namespace PlatformConfig.Lifecycle

open CrashProgram CrashDisk Prog

inductive Selected
  | absent | requestPending | requestExpired | responseReady | activating | recoveryRequired
  | failed (failure : Failure)
  | terminal (state : TerminalState)
  | responsePartial | stagedPending | staged
  deriving DecidableEq

inductive Action
  | none | createRequest | resetRequired | awaitResponse | installResponse | activateResponse
  | completeLocalValidation | recover
  deriving DecidableEq

structure Status where
  selected : Selected
  requestId : Option String
  action : Action
  deriving DecidableEq

variable (c : Target)

/-- The status of an activation that has a journal. -/
def Journal.status (j : Journal) : Status :=
  match j.checkpoint with
  | .localValidated => ⟨.activating, some j.requestId, .completeLocalValidation⟩
  | .notActivated => ⟨.failed .notActivated, some j.requestId, .recover⟩
  | .rolledBack => ⟨.failed .rolledBack, some j.requestId, .recover⟩
  | _ => ⟨.recoveryRequired, some j.requestId, .recover⟩

/-- The status of a pending request that can still receive a response. -/
def responseStatus (r : String) (pending : Pending) : Run Status := do
  let s ← look
  match s.versions.lookup (.version r), s.versions.lookup (.ingress r) with
  | some _, _ => do
    let _ ← authenticateTargetCandidate c r
    pure ⟨.responseReady, some r, .activateResponse⟩
  | none, some d => do
    inspect "target response ingress is unsafe"
    require (d.exact responseNames) "target response ingress does not contain the exact fixed file set"
    let _ ← validateResponseFiles c (d.contents responseNames) pending
    pure ⟨.responseReady, some r, .installResponse⟩
  | none, none => pure ⟨.requestPending, some r, .awaitResponse⟩

def pendingStatus (r : String) : Run Status := do
  let pending ← validatePending c r
  require (c.adapterAllows pending.record) "request profile differs from the selected adapter"
  if pending.expired then pure ⟨.requestExpired, none, .resetRequired⟩
  else responseStatus c r pending

/-- The terminal record of a status, authenticated. -/
def statusTerminal (t : Option Terminal) : Run Unit :=
  match t with
  | some t => do
    validateTerminalCandidate c t
    validateTerminalActivation c t
  | none => pure ()

/-- The status behind the terminal record and the selection of requests. -/
def selectStatus (s : State) (t : Option Terminal) (ids : List String) : Run Status := do
  if s.journal.isSome then do
    let j ← readJournal c
    pure j.status
  else match ids, t with
    | r :: _, _ => pendingStatus c r
    | [], some t => pure ⟨.terminal t.state, some t.requestId, .none⟩
    | [], none => pure ⟨.absent, none, .createRequest⟩

/-- `target_status` -/
def targetStatus : Run Status := do
  requireServerAdapter c
  inspect "another lifecycle operation holds the state lock"
  let s ← stateEntries
  inspect "trust is not authentic"
  let t ← readTerminal
  let h ← readHistory
  statusTerminal c t
  let ids ← pendingRequestIds (t.toList.map (·.requestId) ++ h.map (·.requestId))
  require (ids.length ≤ 1) "target-local operation requires at most one nonterminal pending request"
  selectStatus c s t ids

/-- The retained ingress of a client. -/
def clientIngressStatus (r : String) (pending : Pending) (published : Bool) (d : Dir)
    (status : Status) : Run Status := do
  inspect "client response ingress is unsafe"
  require d.partialResponse "client response ingress has unsafe metadata or unexpected entries"
  if responseNames.all (· ∈ d.files) then do
    let _ ← validateResponseFiles c (d.contents responseNames) pending
    pure (if published then status else ⟨.responseReady, some r, .installResponse⟩)
  else do
    require (!published) "published client version has incomplete retained ingress; review required"
    pure ⟨.responsePartial, some r, .awaitResponse⟩

/-- The published version of a client. -/
def clientVersionStatus (r : String) (pending : Pending) (s : State) : Run Status := do
  if .version r ∈ s.versions then do
    let version ← validateVersion r
    let _ ← validateResponseFiles c (version.contents responseNames) pending
    pure (if .ingress r ∈ s.versions then ⟨.stagedPending, some r, .installResponse⟩
      else ⟨.staged, some r, .none⟩)
  else do
    require (!pending.expired) "expired pending client request cannot receive a response"
    pure ⟨.requestPending, some r, .awaitResponse⟩

/-- `authenticated_client_stage_status` -/
def clientStageStatus (requireStaged : Bool) : Run Status := do
  require (c.adapter = .client) "target-stage-status supports client-stage-v1 only"
  commonOpen c
  let r ← pendingRequestId c
  inspect "trust is not authentic"
  let pending ← validatePending c r
  let s ← look
  let status ← clientVersionStatus c r pending s
  let status ← match s.versions.lookup (.ingress r) with
    | some d => clientIngressStatus c r pending (.version r ∈ s.versions) d status
    | none => pure status
  require (!requireStaged || status.selected = .staged)
    "client installation has no authenticated clean staged version"
  pure status

/-- `target_response_install` -/
def targetResponseInstall (check : Bool) : Run Report := do
  let r ← pendingRequestId c
  let s ← look
  if c.adapter = .client ∧ .ingress r ∉ s.versions then do
    let _ ← clientStageStatus c true
    pure .staged
  else do
    let _ ← artifactDigest c (.ingress r)
    responseInstall c check r

/-- The commands on one target. -/
inductive Invocation
  | prepare (check : Bool)
  | importResponse (check : Bool)
  | install (check : Bool)
  | activateStart (check : Bool) (rollbackSeconds : ℕ)
  | activateComplete (check : Bool)
  | recover (check : Bool)

/-- `MIN_ROLLBACK_SECONDS` -/
def minRollbackSeconds : ℕ := 1209600

/-- The program of a command, behind the validation of its arguments. -/
def Invocation.program : Invocation → Run Report
  | .prepare check => targetResponsePrepare c check
  | .importResponse check => targetResponseImport c check
  | .install check => targetResponseInstall c check
  | .activateStart check rollbackSeconds => do
    require (minRollbackSeconds ≤ rollbackSeconds) "rollback seconds must be at least 1209600"
    targetActivateStart c check rollbackSeconds
  | .activateComplete check => targetActivateComplete c check
  | .recover check => targetRecover c check

end PlatformConfig.Lifecycle
