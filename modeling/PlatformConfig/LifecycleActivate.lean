import PlatformConfig.LifecycleState

/-!
# Activation, completion and recovery

The commands that move a target from one version to the next: the journaled activation, its
completion by a terminal record, and the recovery of what an interruption left. Every command
holds the state lock, apart from the selection of the request.
-/
namespace PlatformConfig.Lifecycle

open CrashProgram CrashDisk Prog

variable (c : Target)

/-- `set_journal_checkpoint` -/
def setJournalCheckpoint (j : Journal) (k : Checkpoint) : Run Journal := do
  require (c.journalBound j) "activation journal cross-binding is invalid"
  write (.setJournal { j with checkpoint := k }) "cannot replace activation journal"
  readJournalFile c

/-- `replace_state_bytes` and `replace_config_bytes`: from the prior content to the target. -/
def replaceBytes {β : Type} [DecidableEq β] (read : State → β) (put : β → Write)
    (prior target : β) (e : String) : Run Unit := do
  inspect e
  let s ← look
  if read s = target then pure ()
  else do
    require (read s = prior) e
    write (put target) e

def replaceActive (prior target : Option Active) : Run Unit :=
  replaceBytes State.active .setActive prior target "active record identity no longer matches the journal"

def replaceRollback (prior target : Option Rollback) : Run Unit :=
  replaceBytes State.rollback .setRollback prior target
    "rollback record identity no longer matches the journal"

def replaceConfig (prior target : Data) : Run Unit :=
  replaceBytes State.config .setConfig prior target
    "service configuration identity no longer matches the journal"

/-- The service of a restored target. -/
def restoreService (j : Journal) : Run Unit :=
  if j.priorServiceActive then command .restart
  else if j.newRollback.predecessor.isNone then
    if c.adapter = .zot then do
      command .stop
      command .mask
    else pure ()
  else command .stop

/-- The last step of a restoration: the journal becomes terminal. -/
def finishRestore (j : Journal) : Run Failure := do
  let current ← readJournal c
  require (current = j || current.transactionId = j.transactionId)
    "activation journal changed before recovery completion"
  write (.setJournal { current with checkpoint := j.restored.checkpoint })
    "cannot replace activation journal"
  pure j.restored

/-- What an OpenBao target does before and after its files are restored. -/
def openbaoOnly (p : Run Unit) : Run Unit := if c.adapter = .openbao then p else pure ()

/-- What a restoration requires of the configuration and the records. -/
def requireRestorable (j : Journal) : Run Unit := do
  require (c.journalBound j) "activation journal cross-binding is invalid"
  inspect "cannot read service configuration"
  let s ← look
  require (s.config = j.priorConfig || s.config = j.targetConfig)
    "service configuration identity no longer matches the journal"
  require (s.active = j.priorActive || s.active = some j.newActive)
    "active record identity no longer matches the journal"
  require (s.rollback = j.priorRollback || s.rollback = some j.newRollback)
    "rollback record identity no longer matches the journal"

def restoreFiles (j : Journal) : Run Unit := do
  replaceConfig j.targetConfig j.priorConfig
  replaceActive (some j.newActive) j.priorActive
  replaceRollback (some j.newRollback) j.priorRollback

/-- `restore_from_journal` -/
def restoreFromJournal (j : Journal) : Run Failure := do
  openbaoOnly c stopOpenbao
  requireRestorable c j
  restoreFiles j
  restoreService c j
  openbaoOnly c (requireOpenbao false)
  finishRestore c j

/-- Write a terminal record that is new to the history. -/
def archiveNew (t : Terminal) (h : AList fun _ : String => Content Terminal) : Run Unit :=
  match h.lookup t.requestId with
  | some existing =>
    require (existing.value = some t) "target-local terminal history conflicts with current terminal"
  | none => write (.newHistory t) "cannot create target-local terminal history record"

def makeHistory (s : State) : Run Unit :=
  if s.history.isSome then pure () else write .mkdirHistory "cannot create target-terminal-history"

/-- `archive_target_terminal` -/
def archiveTargetTerminal (t : Terminal) : Run Unit := do
  inspect "cannot read target-terminal-history"
  let s ← look
  makeHistory s
  let s ← look
  let h ← ofOption s.history "cannot read target-terminal-history"
  archiveNew t h

/-- Publication of a terminal record: its file, its archive, and the end of the journal. -/
def publishTerminal (t : Terminal) : Run Unit := do
  write (.newTerminal t) "cannot create target-local terminal record"
  archiveTargetTerminal t
  inspect "activation journal changed"
  write .unlinkJournal "cannot remove activation journal"

/-- `publish_target_failure` -/
def publishTargetFailure (j : Journal) : Run Failure := do
  let failure ← restoreFromJournal c j
  let restored ← readJournal c
  require (restored.checkpoint = failure.checkpoint)
    "restored target-local activation journal is not terminal"
  publishTerminal (targetTerminal restored failure.state none)
  pure failure

/-- `validate_terminal_candidate` -/
def validateTerminalCandidate (t : Terminal) : Run Unit := do
  let v ← authenticateTargetCandidate c t.requestId
  require (t.bindsCandidate v) "target terminal record does not bind the authenticated candidate"

/-- `validate_terminal_activation` -/
def validateTerminalActivation (t : Terminal) : Run Unit := do
  let active ← authenticateActive c
  require (t.agrees active) "target terminal record does not match authenticated active state"

def retireUnlink : Run Unit := do
  inspect "target-local terminal record changed"
  write .unlinkTerminal "cannot remove target-local terminal record"

/-- The retirement of a terminal record of another request. -/
def retireTerminal (check : Bool) (t : Terminal) (archived : Option Terminal) : Run Unit :=
  match archived with
  | none => do
    validateTerminalCandidate c t
    validateTerminalActivation c t
    if check then pure () else do
      archiveTargetTerminal t
      retireUnlink
  | some a => do
    require (a = t) "target-local terminal differs from retained history"
    if check then pure () else retireUnlink

/-- `retire_current_target_terminal` -/
def retireCurrentTargetTerminal (check : Bool) (current : String) : Run Unit := do
  match ← readTerminal with
  | none => pure ()
  | some t => do
    require (t.requestId ≠ current) "target-local request is already terminal"
    let h ← readHistory
    retireTerminal c check t (h.find? fun a => a.requestId = t.requestId)

/-- `strict_local_validation` -/
def strictLocalValidation (certificate intermediate : String) : Run (String × String) := do
  let proof : Option (String × String) ← ask (Ask.validate certificate intermediate)
  ofOption proof "strict local validation failed"

/-- `openbao_validation_cycle` -/
def openbaoValidationCycle (certificate intermediate : String) : Run (String × String) := do
  requireOpenbao false
  command .start
  finally_ (do
    requireOpenbao true
    strictLocalValidation certificate intermediate) stopOpenbao

/-- The local validation of a candidate, for OpenBao within a validation cycle. -/
def localValidation (v : Validated) : Run (String × String) :=
  if c.adapter = .openbao then openbaoValidationCycle v.certificateSha256 v.intermediateSha256
  else strictLocalValidation v.certificateSha256 v.intermediateSha256

/-- What a command reports. -/
inductive Report
  | localValidated | wouldActivate | complete | wouldComplete
  | failed (failure : Failure)
  | notRequired (state : Option TerminalState)
  | installed | existing | prepared | staged
  | wouldInstall | wouldPrepare | wouldImport | imported
  deriving DecidableEq

/-- What `activate_start` has established before its first change. -/
structure Plan where
  journal : Journal
  validated : Validated
  initial : Bool

/-- The predecessor that a request must bind. -/
def bindsPredecessor (record : Request) (operation : Operation) (s : State) : Run Unit :=
  match s.active with
  | some a => do
    let _ ← authenticateActive c
    require (record.currentCertSha256 = some a.certificateSha256 &&
      (operation = .issue || record.predecessorRequestId = some a.requestId))
      "target-local request does not bind the authenticated predecessor"
    require (operation ≠ .issue) "issue activation requires no authenticated active version"
  | none => require s.rollback.isNone "rollback state exists without an authenticated active version"

/-- The service and its dormant material before an activation. -/
def servicePreconditions (record : Request) (operation : Operation) (s : State)
    (paths : String × String) : Run Unit :=
  if c.adapter = .openbao then do
    require (c.adapterAllows record) "openbao-pristine-v1 supports issue only; renewal is forbidden"
    require (s.active.isNone && s.rollback.isNone)
      "OpenBao pristine issue requires no predecessor lifecycle state"
    require (record.currentCertSha256.isNone && record.predecessorRequestId.isNone)
      "OpenBao pristine issue request must not bind a predecessor"
    requireOpenbao false
    require (← ask Ask.dormant) "OpenBao pristine activation requires an absent bootstrap marker"
    require (paths = c.baseTlsPaths) "OpenBao pristine listener does not select the exact base TLS paths"
  else if s.active.isNone && operation = .issue then do
    require (!s.running && s.masked) "predecessor-free issue requires masked and inactive Zot"
    require (← ask Ask.dormant) "predecessor-free issue requires absent dormant TLS material"
  else require s.running "Zot must be active before certificate activation"

/-- `validate_openbao_candidate_config`: a temporary file beside the configuration. -/
def validateCandidateListener : Run Unit := do
  write .newListener "cannot create OpenBao candidate listener"
  finally_ (do require (← ask Ask.listener) "fixed OpenBao candidate configuration validation failed")
    (write .unlinkListener "cannot remove OpenBao candidate listener")

/-- The journal of an activation whose conditions hold. -/
def makePlan (rollbackSeconds : ℕ) (r artifact : String) (operation : Operation) (v : Validated)
    (version : Dir) (s : State) (paths : String × String) : Run Plan := do
  let created ← now
  let tx : String ← ask Ask.transaction
  pure ⟨c.journalOf tx r artifact v version.id s.active s.rollback s.config paths s.running created
    (created + rollbackSeconds), v, s.active.isNone && operation = .issue⟩

/-- `activate_start` up to its journal. -/
def planActivation (rollbackSeconds : ℕ) (r artifact : String) (operation : Operation) :
    Run Plan := do
  let s ← stateEntries
  require (s.journal.isNone && !s.requestJournal && !s.trustJournal)
    "unresolved lifecycle state blocks activation"
  inspect "trust is not authentic"
  let pending ← validatePending c r
  let version ← validateVersion r
  let v ← validateResponseFiles c (version.contents responseNames) pending
  require (pending.record.operation = operation)
    "candidate operation differs from the requested lifecycle operation"
  require (pending.record.service = c.service && pending.record.target = c.target)
    "candidate does not match activation service and target"
  inspect "cannot read service configuration"
  let s ← look
  let paths ← ofOption (c.parseConfig s.config) "service configuration is not canonical"
  bindsPredecessor c pending.record operation s
  inspect "service-state query failed"
  servicePreconditions c pending.record operation s paths
  require (s.active.isSome || operation ≠ .renew) "renew requires an authenticated active version"
  openbaoOnly c validateCandidateListener
  makePlan c rollbackSeconds r artifact operation v version s paths

/-- `enable-start` or `restart` -/
def startZot (initial : Bool) : Run Unit :=
  if initial then do
    command .unmask
    command .start
  else command .restart

/-- The service runs on the new configuration and passes its local validation. -/
def validateStarted (p : Plan) (j : Journal) : Run Journal :=
  if c.adapter = .openbao then do
    command .start
    requireOpenbao true
    let j ← setJournalCheckpoint c j .restarted
    let _ ← finally_ (strictLocalValidation p.validated.certificateSha256
      p.validated.intermediateSha256) stopOpenbao
    pure j
  else do
    startZot p.initial
    let j ← setJournalCheckpoint c j .restarted
    let _ ← strictLocalValidation p.validated.certificateSha256 p.validated.intermediateSha256
    pure j

/-- The journaled changes of `activate_start`. -/
def performActivation (p : Plan) : Run Unit := do
  let j := p.journal
  replaceActive j.priorActive (some j.newActive)
  replaceRollback j.priorRollback (some j.newRollback)
  let j ← setJournalCheckpoint c j .recordsWritten
  replaceConfig j.priorConfig j.targetConfig
  let j ← setJournalCheckpoint c j .configWritten
  let j ← validateStarted c p j
  let t ← now
  require (t ≤ p.journal.createdEpoch + 300) "local validation exceeded the activation ordering window"
  let _ ← authenticateActive c
  let _ ← setJournalCheckpoint c j .localValidated
  pure ()

/-- The restoration after a failed activation; what fails in it is left to recovery. -/
def restoreFailed : Run Unit :=
  Prog.handle (do
    let j ← readJournalFile c
    let _ ← restoreFromJournal c j
    pure ()) fun _ => pure ()

/-- `activate_start` -/
def activateStart (check : Bool) (rollbackSeconds : ℕ) (r artifact : String)
    (operation : Operation) : Run Report := do
  let p ← planActivation c rollbackSeconds r artifact operation
  if check then pure .wouldActivate
  else do
    write (.newJournal p.journal) "cannot create activation journal"
    (performActivation c p).handle fun e => (restoreFailed c).bind fun _ => .fail e
    pure .localValidated

/-- The first locked section of `target_activate_start` for an activation that awaits its
completion. -/
def revalidateActivation (check : Bool) (rollbackSeconds : ℕ) (r artifact : String) :
    Run Report := do
  let j ← readJournal c
  require (j.checkpoint = .localValidated && j.requestId = r && j.artifactManifestSha256 = artifact)
    "unresolved lifecycle state blocks activation"
  let v ← authenticateTargetCandidate c r
  let active ← authenticateActive c
  require (active.any fun a => a.requestId = r && a.artifactManifestSha256 = artifact)
    "authenticated active target candidate is absent"
  require (j.rollbackDeadlineEpoch = j.createdEpoch + rollbackSeconds)
    "activation journal rollback interval differs from the request"
  let t ← now
  if j.rollbackDeadlineEpoch ≤ t then do
    require (!check) "activation rollback deadline expired; recovery is required"
    let failure ← publishTargetFailure c j
    pure (.failed failure)
  else do
    let _ ← localValidation c v
    pure .localValidated

/-- The first locked section of `target_activate_start`: its report, or the operation of the
activation that follows. -/
def activateFirst (check : Bool) (rollbackSeconds : ℕ) (r artifact : String) :
    Run (Report ⊕ Operation) := do
  inspect "trust is not authentic"
  let pending ← validatePending c r
  require (c.adapterAllows pending.record) "request profile differs from the selected adapter"
  let s ← stateEntries
  if s.journal.isSome then do
    let report ← revalidateActivation c check rollbackSeconds r artifact
    pure (.inl report)
  else do
    retireCurrentTargetTerminal c check r
    pure (.inr pending.record.operation)

/-- `target_activate_start`, with its selection before the first section. -/
def targetActivateStart (check : Bool) (rollbackSeconds : ℕ) : Run Report := do
  requireServerAdapter c
  let r ← pendingRequestId c
  let artifact ← artifactDigest c (.version r)
  match ← activateFirst c check rollbackSeconds r artifact with
  | .inl report => pure report
  | .inr operation => activateStart c check rollbackSeconds r artifact operation

/-- The request that a completion is about. -/
def completionRequest (s : State) (t : Option Terminal) : Run String := do
  let excluded ← excludedRequestIds
  let ids ← pendingRequestIds excluded
  if s.journal.isSome then do
    let j ← readJournal c
    pure j.requestId
  else match ids, t with
    | [r], _ => pure r
    | [], some t => pure t.requestId
    | _, _ => .fail "target-local completion requires one exact request"

/-- A completion that finds a terminal record. -/
def resumeCompletion (check : Bool) (s : State) (r : String) (t : Terminal) : Run Report := do
  require (t.requestId = r) "target-local terminal does not match the completion request"
  validateTerminalCandidate c t
  validateTerminalActivation c t
  require (t.state = .complete) "target-local request already has a terminal failure"
  if s.journal.isSome && !check then do
    let j ← readJournal c
    require (j.requestId = t.requestId) "terminal record and activation journal differ"
    inspect "activation journal changed"
    write .unlinkJournal "cannot remove activation journal"
    pure .complete
  else pure .complete

/-- The end of a completion whose validation failed or whose deadline has passed. -/
def failCompletion (check : Bool) (j : Journal) (e : String) : Run Report := do
  require (!check) e
  let failure ← publishTargetFailure c j
  pure (.failed failure)

/-- The end of a completion whose validation succeeded. -/
def succeedCompletion (check : Bool) (j : Journal) (proof : Proof) : Run Report := do
  let t ← now
  if j.rollbackDeadlineEpoch ≤ t then
    failCompletion c check j "activation rollback deadline expired; recovery is required"
  else if check then pure .wouldComplete
  else do
    publishTerminal (targetTerminal j .complete (some proof))
    pure .complete

/-- `validate_target_completion`, with its failure as a value. -/
def validateTargetCompletion (v : Validated) : Run (Except String Proof) :=
  Prog.handle (do
    let served ← localValidation c v
    let t ← now
    pure (.ok ⟨served.1, served.2, t⟩)) fun e => pure (.error e)

/-- A completion that finds no terminal record. -/
def finishCompletion (check : Bool) (r : String) (v : Validated) : Run Report := do
  let j ← readJournal c
  require (j.checkpoint = .localValidated && j.requestId = r &&
    j.artifactManifestSha256 = v.artifactSha256)
    "activation journal is not the exact local-validated target candidate"
  let active ← authenticateActive c
  require (active.any fun a => a.requestId = r) "authenticated active target candidate is absent"
  let t ← now
  if j.rollbackDeadlineEpoch ≤ t then
    failCompletion c check j "activation rollback deadline expired; recovery is required"
  else do
    match ← validateTargetCompletion c v with
    | .ok proof => succeedCompletion c check j proof
    | .error e => failCompletion c check j e

/-- `target_activate_complete` -/
def targetActivateComplete (check : Bool) : Run Report := do
  requireServerAdapter c
  let s ← stateEntries
  require (!s.requestJournal && !s.trustJournal)
    "unrelated unresolved state blocks target-local completion"
  let t ← readTerminal
  let r ← completionRequest c s t
  inspect "trust is not authentic"
  let v ← authenticateTargetCandidate c r
  match t with
  | some t => resumeCompletion c check s r t
  | none => do
    require s.journal.isSome "target-local completion requires a local-validated activation journal"
    finishCompletion c check r v

/-- A recovery that finds a terminal record. -/
def recoverTerminal (check : Bool) (s : State) (t : Terminal) : Run Report := do
  inspect "trust is not authentic"
  validateTerminalCandidate c t
  validateTerminalActivation c t
  archiveTargetTerminal t
  if s.journal.isSome then do
    let j ← readJournal c
    require (j.requestId = t.requestId) "terminal record and activation journal differ"
    require (!check) "target-local terminal cleanup is required"
    inspect "activation journal changed"
    write .unlinkJournal "cannot remove activation journal"
    pure (.notRequired (some t.state))
  else pure (.notRequired (some t.state))

/-- A recovery that finds a journal and no terminal record. -/
def recoverJournal (check : Bool) : Run Report := do
  let j ← readJournal c
  inspect "trust is not authentic"
  let v ← authenticateTargetCandidate c j.requestId
  require (v.artifactSha256 = j.artifactManifestSha256)
    "target-local activation journal differs from the authenticated candidate"
  match j.checkpoint.failure with
  | some failure => do
    require (!check) "target-local terminal failure publication is required"
    publishTerminal (targetTerminal j failure.state none)
    pure (.failed failure)
  | none => do
    require (!check) "target-local activation recovery is required"
    let failure ← publishTargetFailure c j
    pure (.failed failure)

/-- A recovery behind the stop of the service. -/
def recoverState (check : Bool) : Run Report := do
  let s ← stateEntries
  match ← readTerminal with
  | some t => recoverTerminal c check s t
  | none =>
    if s.journal.isSome then recoverJournal c check
    else pure (.notRequired none)

/-- `target_recover` -/
def targetRecover (check : Bool) : Run Report := do
  requireServerAdapter c
  inspect "lifecycle lock changed"
  openbaoOnly c stopOpenbao
  recoverState c check

end PlatformConfig.Lifecycle
