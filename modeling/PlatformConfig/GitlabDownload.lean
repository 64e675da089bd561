import PlatformConfig.CrashParts
import PlatformConfig.GitlabPackage
import PlatformConfig.LifecycleInstall

/-!
# The response download of the GitLab facade

The facade asks the lifecycle helper for the ingress of the pending request, lets the package client
fill the download directory, copies the response files into the ingress and has the helper install
them. The helper's commands are run as they stand, beside the download directory.
-/
namespace PlatformConfig.HostGitlab

open CrashDisk CrashParts CrashProgram Prog
open Lifecycle (Answer Ask Contents Data Dir FileName Files Identity Report Selected Target VersionEntry Write
  agreeOn readable responseNames)

/-- What one run of the package client leaves of the download directory, and its result. -/
structure Fetch where
  left : Option Files
  result : Option PackageResult

inductive SpoolWrite
  | fetched (left : Option Files)
  | unlink (f : FileName)
  | rmdir

inductive SpoolAsk
  | inspect
  | client

abbrev SpoolAnswer : SpoolAsk → Type
  | .inspect => Bool
  | .client => Fetch

def SpoolWrite.apply : SpoolWrite → Option Files → Option (Option Files)
  | .fetched left, _ => some left
  | .unlink f, some files => if f ∈ files then some (some (files.erase f)) else none
  | .rmdir, some files => if files.keys = [] then some none else none
  | _, none => none

/-- The conditions of a run: those of the helper, and what the package client can do. -/
structure Conditions where
  life : Lifecycle.Conditions
  client : Option Files → Fetch → Prop

/-- The download directory. A kill inside the package client can leave anything in it. -/
def spool (x : Conditions) : Disk (Option Files) SpoolWrite SpoolAsk SpoolAnswer where
  apply := SpoolWrite.apply
  answers
    | .inspect, _, passed => passed = true ∨ x.life.faults
    | .client, d, y => x.client d y
  fails
    | .fetched _ => False
    | _ => x.life.faults
  torn
    | .fetched _, _, _ => True
    | _, _, _ => False

abbrev Station := Lifecycle.State × Option Files

def disk (x : Conditions) : Disk Station (Write ⊕ SpoolWrite) (Ask ⊕ SpoolAsk) (Sum.elim Answer SpoolAnswer) :=
  beside (Lifecycle.freshDisk x.life) (spool x)

abbrev Run := Program Station (Write ⊕ SpoolWrite) (Ask ⊕ SpoolAsk) (Sum.elim Answer SpoolAnswer) String

def failed : String := "operation failed"

/-- A command of the lifecycle helper. -/
def helper {α : Type} (p : Lifecycle.Run α) : Run α := first (fun _ => failed) p

def inspect : Run Unit := (ask (X := Ask ⊕ SpoolAsk) (Sum.inr .inspect)).bind fun passed => require passed failed

/-- One run of the package client. -/
def client : Run Fetch := ask (X := Ask ⊕ SpoolAsk) (Sum.inr .client)

def ofOption {α : Type} (a : Option α) : Run α :=
  match a with
  | some a => .ret a
  | none => .fail failed

variable (c : Target) (g : Config)

/-! ## The download directory -/

/-- `open_exact_files` of the download directory -/
def openDownload : Run Files := do
  inspect
  let s ← look
  let files ← ofOption s.2
  require (Dir.exact downloadNames ⟨(0, 0), files⟩) failed
  pure files

/-- The sorted names of the download directory. -/
def sortedNames : List FileName :=
  [.artifact, .chain, .fullchain, .response, .responseSig, manifestName, .crt]

def unlinkFiles : List FileName → Run Unit
  | [] => pure ()
  | f :: rest => do
    inspect
    write (.inr (.unlink f)) failed
    unlinkFiles rest

/-- `remove_tree` of the download directory -/
def removeDownload : Run Unit := do
  let _ ← openDownload
  unlinkFiles sortedNames
  inspect
  write (.inr .rmdir) failed

/-! ## The commands of the helper -/

/-- The JSON object of `target-response-prepare`. -/
structure Prepared where
  status : Report
  requestId : String
  ingress : Option Identity

def prepareOutput : Lifecycle.Run Prepared := do
  let r ← Lifecycle.pendingRequestId c
  let status ← Lifecycle.responsePrepare c false r
  if status = .installed then pure ⟨status, r, none⟩
  else do
    let s ← look
    let d ← Lifecycle.ofOption (s.versions.lookup (.ingress r)) "cannot open response ingress"
    pure ⟨status, r, some d.id⟩

/-- The digests of a version: of its artifact, its certificate and the key in it. -/
def versionDigests (r : String) : Lifecycle.Run (String × String × Option String) := do
  let s ← look
  let d ← Lifecycle.ofOption (s.versions.lookup (.version r)) "cannot read immutable certificate version"
  let files := d.contents responseNames
  pure (c.digest files .artifact, c.digest files .crt, (files .crt).bind c.leafSpki)

/-- The actions that the facade expects beside each status of a client. -/
def stageAction : Selected → Option Lifecycle.Action
  | .requestPending | .responsePartial => some .awaitResponse
  | .responseReady | .stagedPending => some .installResponse
  | .staged => some .none
  | _ => none

/-- `client_stage_status`: the status and its request. -/
def clientStageStatus : Run (Selected × String) := do
  let o ← helper (Lifecycle.clientStageStatus c false)
  require (stageAction o.selected = some o.action) failed
  let r ← ofOption o.requestId
  pure (o.selected, r)

/-! ## The copy into the ingress -/

/-- The loop of `copy_response`: a file that is there has to be the downloaded one. -/
def copyFiles (r : String) (files : Contents) : List FileName → Run Unit
  | [] => pure ()
  | f :: rest => do
    inspect
    let s ← look
    let d ← ofOption (s.1.versions.lookup (.ingress r))
    match d.files.lookup f with
    | some x => do
      inspect
      require (readable x && files f = some x) failed
      copyFiles r files rest
    | none => do
      write (.inl (.tree (.writeFile (.ingress r) f ((files f).getD [])))) failed
      copyFiles r files rest

/-- `copy_response` -/
def copyResponse (r : String) (id : Identity) (files : Contents) : Run Unit := do
  inspect
  let s ← look
  let d ← ofOption (s.1.versions.lookup (.ingress r))
  require (d.id = id && d.files.keys.all (· ∈ responseNames)) failed
  copyFiles r files responseNames
  inspect
  let s ← look
  let d ← ofOption (s.1.versions.lookup (.ingress r))
  require (d.exact responseNames && agreeOn responseNames (d.contents responseNames) files) failed

/-! ## The download -/

/-- Whether the versions root of a client holds a published version. -/
def published : Run Bool := do
  let s ← look
  if s.1.root = .absent then pure false
  else do
    inspect
    pure (s.1.versions.keys.any fun e => match e with
      | .version _ => true
      | _ => false)

/-- The status of a client that has a published version. -/
def discovered : Run (Option (Selected × String)) := do
  if c.adapter = .client then do
    if ← published then do
      let o ← clientStageStatus c
      pure (some o)
    else pure none
  else pure none

/-- The report that the download goes on with. -/
def preparation (status : Option (Selected × String)) : Run Prepared :=
  match status with
  | some (.staged, r) => pure ⟨.installed, r, none⟩
  | _ => helper (prepareOutput c)

/-- The end of a download whose response is installed already. -/
def finishInstalled (status : Option (Selected × String)) (prepared : Prepared) : Run String := do
  require (prepared.ingress.isNone && (c.adapter ≠ .client || status.any fun o => o.1 = .staged)) failed
  let s ← look
  if s.2.isSome then do
    let files ← openDownload
    require (g.validateManifest prepared.requestId files) failed
    removeDownload
  else pure ()
  pure "existing"

/-- The package client, and the checks of its result. -/
def fetchFiles (r : String) : Run Files := do
  let y ← client
  write (.inr (.fetched y.left)) failed
  let result ← ofOption y.result
  require (g.validatePackageResult r result) failed
  let files ← openDownload
  require (g.resultMatches result files && g.validateManifest r files) failed
  pure files

/-- The installation and the checks of its report. -/
def installResponse (r : String) : Run String := do
  let status ← helper (Lifecycle.targetResponseInstall c false)
  if c.adapter = .client then do
    require (status = .staged) failed
    let installed ← helper (versionDigests c r)
    let verified ← clientStageStatus c
    let there ← helper (versionDigests c r)
    require (verified.1 = .staged && verified.2 = r && there = installed) failed
  else require (status = .installed || status = .existing) failed
  removeDownload
  pure (if status = .installed || status = .staged then "installed" else "existing")

/-- The rest of `download_response` behind the preparation. -/
def receive (status : Option (Selected × String)) (prepared : Prepared) : Run String := do
  if prepared.status = .installed then finishInstalled c g status prepared
  else do
    require (prepared.status = .prepared || prepared.status = .existing) failed
    let id ← ofOption prepared.ingress
    let files ← fetchFiles g prepared.requestId
    copyResponse prepared.requestId id (Dir.contents responseNames ⟨(0, 0), files⟩)
    installResponse c prepared.requestId

/-- `download_response` -/
def downloadResponse : Run String := do
  let status ← discovered c
  let prepared ← preparation c status
  require (status.all fun o => o.2 = prepared.requestId) failed
  receive c g status prepared

end PlatformConfig.HostGitlab
