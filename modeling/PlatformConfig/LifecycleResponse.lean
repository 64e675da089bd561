import PlatformConfig.LifecycleActivate

/-!
# Response import and installation

The commands that bring the response of a pending request below the versions root: the
preparation of an ingress directory, the import of the response files into it, and the
publication of an immutable version from the pending request and the ingress.
-/
namespace PlatformConfig.Lifecycle

open CrashProgram CrashDisk Prog

variable (c : Target)

/-- `open_versions_root` -/
def openVersionsRoot : Run Unit := do
  inspect "cannot open versions root"
  let s ← look
  require (s.root = .ready) "versions root has invalid adapter ownership or mode"

/-- `create_versions_root`: an OpenBao root gets its owner after it is made. -/
def createVersionsRoot : Run Unit := do
  if c.adapter = .openbao then do
    write (.tree (.makeRoot .unowned)) "cannot create versions root"
    write (.tree (.makeRoot .ready)) "cannot create versions root"
  else write (.tree (.makeRoot .ready)) "cannot create versions root"
  openVersionsRoot

/-- The names and contents of a response ingress that can still be completed. -/
def Dir.partialResponse (d : Dir) : Bool :=
  (∀ f ∈ d.files.keys, f ∈ responseNames) && d.files.keys.all fun f => (d.files.lookup f).any readable

/-- The files of a version: the key and the request of the pending request, and the response. -/
def publication (pending response : Contents) : Contents :=
  fun f => if f = .key ∨ f = .csr then pending f else response f

/-- The checks of `client_staging_preflight` below the versions root. -/
def clientVersions (r : String) (pending : Pending) (s : State) : Bool :=
  (∀ e ∈ s.versions.keys, e = .version r ∨ e = .ingress r) &&
    ((s.versions.lookup (.version r)).all fun d =>
      d.exact versionNames && agreeOn [.key, .csr] (d.contents versionNames) pending.files) &&
    ((s.versions.lookup (.ingress r)).all fun d => d.partialResponse &&
      (s.versions.lookup (.version r)).all fun v =>
        responseNames.all (· ∈ d.files) &&
          agreeOn responseNames (d.contents responseNames) (v.contents versionNames))

/-- `client_staging_preflight` -/
def clientStagingPreflight : Run Unit := do
  let s ← stateEntries
  require (s.active.isNone && s.rollback.isNone && s.journal.isNone && s.terminal.isNone &&
    s.history.isNone && !s.requestJournal && !s.trustJournal)
    "client staging requires exact trust-only lifecycle state"
  let r ← pendingRequestId c
  inspect "trust is not authentic"
  let pending ← validatePending c r
  require (c.adapterAllows pending.record) "client-stage-v1 supports initial issue only"
  require (pending.record.service = c.service && pending.record.target = c.target)
    "client pending request differs from selected identity"
  let s ← look
  if s.root = .absent then inspect "client versions root is not absent"
  else do
    openVersionsRoot
    inspect "cannot read client versions root"
    require (clientVersions r pending s) "client versions root needs review"

/-- `common_open` -/
def commonOpen : Run Unit := do
  inspect "another lifecycle operation holds the state lock"
  if c.adapter = .client then clientStagingPreflight c else pure ()

/-- The checks of a pending request that is to receive a response. -/
def receivable (r : String) : Run Pending := do
  let pending ← validatePending c r
  require (!pending.expired) "expired pending request cannot receive a response"
  require (c.adapterAllows pending.record) "request profile differs from the selected adapter"
  require (pending.record.service = c.service && pending.record.target = c.target)
    "pending request differs from the response bindings"
  pure pending

/-- The ingress that a preparation leaves. -/
def readIngress (r : String) : Run Unit := do
  inspect "response ingress is unsafe"
  let s ← look
  let d ← ofOption (s.versions.lookup (.ingress r)) "cannot open response ingress"
  require d.partialResponse "response ingress contains unexpected entries"

def prepareIngress (check : Bool) (r : String) (s : State) : Run Report := do
  if .ingress r ∈ s.versions then do
    readIngress r
    pure .existing
  else do
    require (c.adapter ≠ .client || .version r ∉ s.versions)
      "published client version requires authenticated target-stage-status"
    if check then pure .wouldPrepare
    else do
      let id : Identity ← ask Ask.identity
      write (.tree (.mkdir (.ingress r) id)) "cannot create response ingress"
      readIngress r
      pure .prepared

/-- The versions root of a preparation. -/
def preparedRoot (check : Bool) (s : State) : Run Unit := do
  if s.root = .absent then do
    require (!check) "versions root is absent in check mode"
    createVersionsRoot c
  else pure ()
  openVersionsRoot

/-- `response_prepare` -/
def responsePrepare (check : Bool) (r : String) : Run Report := do
  commonOpen c
  let s ← stateEntries
  require s.journal.isNone "lifecycle recovery is required before response preparation"
  preparedRoot c check s
  let s ← look
  if .version r ∈ s.versions ∧ c.adapter ≠ .client then do
    let _ ← validateVersion r
    pure .installed
  else do
    inspect "trust is not authentic"
    let _ ← receivable c r
    prepareIngress c check r s

/-- `target_response_prepare` -/
def targetResponsePrepare (check : Bool) : Run Report := do
  let r ← pendingRequestId c
  responsePrepare c check r

/-- Copy the missing response files into the ingress. -/
def writeMissing (r : String) (source : Contents) : List FileName → Run Unit
  | [] => pure ()
  | f :: rest => do
    inspect "filesystem response source file changed"
    write (.tree (.writeFile (.ingress r) f ((source f).getD [])))
      "cannot create response ingress file"
    writeMissing r source rest

/-- The checks after an import. -/
def recheckImport (r : String) (pending : Pending) (source : Contents) (expected : List FileName) :
    Run Unit := do
  inspect "selected trust changed during response import"
  let repeated ← validatePending c r
  require (!repeated.expired && repeated.record = pending.record)
    "pending request changed during response import"
  let selected ← pendingRequestId c
  require (selected = r) "pending request changed during response import"
  inspect "response ingress changed during filesystem import"
  let s ← look
  let d ← ofOption (s.versions.lookup (.ingress r)) "response ingress changed during filesystem import"
  require ((∀ f ∈ d.files.keys, f ∈ expected) && d.partialResponse && agreeOn expected (d.contents responseNames) source)
    "response ingress changed during filesystem import"

/-- Remove what a failed import has created; what fails in it is ignored. -/
def removeCreated (r : String) : List FileName → Run Unit
  | [] => pure ()
  | f :: rest => do
    let s ← look
    if ((s.versions.lookup (.ingress r)).any fun d => f ∈ d.files) then
      (write (.tree (.unlinkFile (.ingress r) f)) "cannot remove").handle fun _ => pure ()
    else pure ()
    removeCreated r rest

/-- The import into an ingress whose files are part of the source. -/
def importFiles (check : Bool) (r : String) (pending : Pending) (source : Contents) (d : Dir) :
    Run Report := do
  let missing := responseNames.filter fun f => f ∉ d.files
  (do
    if check then pure () else writeMissing r source missing
    recheckImport c r pending source (if check then d.files.keys else responseNames)).handle fun e =>
      (removeCreated r (if check then [] else missing)).bind fun _ => .fail e
  pure (if missing.isEmpty then .existing else if check then .wouldImport else .imported)

/-- `target_response_import` -/
def targetResponseImport (check : Bool) : Run Report := do
  commonOpen c
  let s ← stateEntries
  require (s.journal.isNone && !s.requestJournal && !s.trustJournal)
    "unresolved lifecycle state blocks response import"
  let r ← pendingRequestId c
  inspect "trust is not authentic"
  let pending ← receivable c r
  inspect "exchange root must be disjoint from lifecycle roots"
  openVersionsRoot
  let offered : Option Files ← ask Ask.source
  let files ← ofOption offered "cannot open filesystem response source"
  let offer : Dir := ⟨(0, 0), files⟩
  require (offer.exact responseNames)
    "filesystem response source does not contain the exact fixed file set"
  let source := offer.contents responseNames
  inspect "response ingress directory has unsafe metadata"
  let s ← look
  let d ← ofOption (s.versions.lookup (.ingress r)) "cannot open response ingress"
  require (d.partialResponse && agreeOn d.files.keys (d.contents responseNames) source)
    "existing response ingress conflicts with filesystem source"
  importFiles c check r pending source d

/-- The loop of `remove_exact_tree`. -/
def unlinkAll (e : VersionEntry) : List FileName → Run Unit
  | [] => pure ()
  | f :: rest => do
    inspect "response ingress file changed"
    write (.tree (.unlinkFile e f)) "cannot remove response ingress"
    unlinkAll e rest

/-- `remove_exact_tree` of an ingress -/
def removeExactTree (r : String) : Run Unit := do
  unlinkAll (.ingress r) responseNames
  inspect "response ingress path binding changed"
  write (.tree (.rmdir (.ingress r))) "cannot remove response ingress"

/-- Write the files of a version into its stage. -/
def writeStage (e : VersionEntry) (files : Contents) : List FileName → Run Unit
  | [] => pure ()
  | f :: rest => do
    write (.tree (.writeFile e f ((files f).getD []))) "cannot create version file"
    writeStage e files rest

/-- The publication of a version through a stage. -/
def publishVersion (r : String) (files : Contents) : Run Unit := do
  let tx : String ← ask Ask.transaction
  let id : Identity ← ask Ask.identity
  write (.tree (.mkdir (.stage r tx) id)) "cannot create version stage"
  writeStage (.stage r tx) files versionNames
  inspect "cannot read version stage"
  let s ← look
  let d ← ofOption (s.versions.lookup (.stage r tx)) "cannot read version stage"
  require (d.exact versionNames && agreeOn versionNames (d.contents versionNames) files)
    "staged version bytes changed"
  let _ ← validatePending c r
  inspect "response ingress file changed"
  write (.tree (.publish r tx)) "no-clobber version publication failed"
  inspect "published version identity changed"
  let _ ← validateVersion r
  removeExactTree r

/-- What an installation reports. -/
def installReport (published : Report) : Report :=
  if c.adapter = .client then .staged else published

/-- `response_install` -/
def responseInstall (check : Bool) (r : String) : Run Report := do
  commonOpen c
  let s ← stateEntries
  require (s.journal.isNone && !s.requestJournal && !s.trustJournal)
    "unresolved lifecycle state blocks response installation"
  inspect "trust is not authentic"
  let pending ← receivable c r
  openVersionsRoot
  inspect "pending and versions roots are not on one filesystem"
  let s ← look
  let d ← ofOption (s.versions.lookup (.ingress r)) "cannot open response ingress"
  require (d.exact responseNames) "response ingress does not contain the exact fixed file set"
  let response := d.contents responseNames
  let _ ← validateResponseFiles c response pending
  if .version r ∈ s.versions then do
    let version ← validateVersion r
    require (agreeOn versionNames (version.contents versionNames) (publication pending.files response))
      "existing immutable version conflicts with the exact response"
    if check then pure (if c.adapter = .client then .wouldInstall else .existing)
    else do
      removeExactTree r
      pure (installReport c .existing)
  else if check then pure .wouldInstall
  else do
    publishVersion c r (publication pending.files response)
    pure (installReport c .installed)

end PlatformConfig.Lifecycle
