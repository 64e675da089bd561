import PlatformConfig.CrashDisk
import PlatformConfig.CrashLinks

/-!
# Preparing a host for automation

The account, the directories and the files that `rocky-ansible-host-prepare apply` works on, and
its run: strict checks of what is there, the locked account, its access group, the effective SSH
policy, and only then the authorized key and the sudo policy.
-/
namespace PlatformConfig.HostPrepare

open CrashProgram CrashDisk CrashLinks Prog

abbrev Data := List UInt8

def ascii (s : String) : Data := s.toList.map fun c => UInt8.ofNat c.toNat

def automationComment : String := "Platform Ansible automation account"
def automationHome : String := "/home/rocky"
def automationShell : String := "/bin/bash"
def legacySudoersContent : Data := ascii "rocky ALL=(ALL) NOPASSWD: ALL\n"
def sudoersContent : Data := ascii "Defaults:rocky !requiretty\n" ++ legacySudoersContent
def maxBytes : ℕ := 16384

/-- What lies at the path of a directory. -/
structure Dir where
  directory : Bool
  uid : ℕ
  gid : ℕ
  mode : ℕ
  deriving DecidableEq

structure File where
  regular : Bool
  uid : ℕ
  gid : ℕ
  mode : ℕ
  content : Data
  deriving DecidableEq

/-- The files of the host: those of the automation user's `.ssh`, the entries of the staging
directory, the managed sudo policy and the other entries of its directory. -/
inductive FileName
  | authorizedKeys
  | authorizedKeys2
  | sshEntry (name : String)
  | staged (name : String)
  | sudoers
  | sudoersEntry (name : String)
  deriving DecidableEq

def FileName.isSsh : FileName → Bool
  | .authorizedKeys | .authorizedKeys2 | .sshEntry _ => true
  | _ => false

def FileName.isStaged : FileName → Bool
  | .staged _ => true
  | _ => false

/-- The automation user of the account database; `groups` are its supplementary groups. -/
structure Account where
  uid : ℕ
  gid : ℕ
  comment : String
  home : String
  shell : String
  locked : Bool
  groups : List ℕ
  shared : Bool
  deriving DecidableEq

def Account.allGroups (u : Account) : List ℕ := u.gid :: u.groups

/-- The host's group `access_ssh`, and the user and group that `useradd` would make. -/
structure Host where
  access : ℕ
  newUid : ℕ
  newGid : ℕ
  ordinary : 1000 ≤ newUid

/-- The account as `useradd` makes it: without a usable password. -/
def Host.newAccount (h : Host) : Account :=
  ⟨h.newUid, h.newGid, automationComment, automationHome, automationShell, true, [], false⟩

structure PublicKey where
  content : Data
  fits : content.length ≤ maxBytes

/-- `policy` says whether the effective SSH policy was found right since the preparation lock was
last taken; `group` is the number of the group named like the user. -/
structure State where
  account : Option Account
  group : Option ℕ
  home : Option Dir
  ssh : Option Dir
  staging : Option Dir
  files : Volume FileName File
  policy : Bool

def State.stat (s : State) (n : FileName) : Option (File × ℕ) := s.files.stat n

inductive Write
  | acquireLock
  | useradd
  | lockPassword
  | usermod
  | checkPolicy
  | chownHome (uid gid : ℕ)
  | chmodHome
  | mkdirSsh
  | chownSsh (uid gid : ℕ)
  | chmodSsh
  | mkdirStaging
  | rmdirStaging
  | mkstemp (name : FileName)
  | fchmod (name : FileName) (mode : ℕ)
  | fchown (name : FileName) (uid gid : ℕ)
  | writeAll (name : FileName) (data : Data)
  | link (name destination : FileName)
  | unlink (name : FileName)
  | unlinkMissing (name : FileName)
  | replace (name destination : FileName)
  | restorecon

/-- The three kinds of temporary files. -/
inductive Draft
  | keys | candidate | sudoers
  deriving DecidableEq

def Draft.name : Draft → String → FileName
  | .keys, token => .staged (".authorized_keys." ++ token)
  | .candidate, token => .sudoersEntry (".platform-ansible-rocky." ++ token)
  | .sudoers, token => .sudoersEntry (".90-platform-ansible-rocky." ++ token)

/-- Questions to the host: its base checks, the ancestors of the sudo policy, its directory, a
temporary name, the verdict of `visudo`, and the base checks, `sudo -n true` and labels of a host
that is ready. -/
inductive Ask
  | base
  | ancestors
  | sudoersDirectory
  | mkstemp (draft : Draft)
  | visudo
  | ready

abbrev Answer : Ask → Type
  | .mkstemp _ => String
  | _ => Bool

abbrev Run := Program State Write Ask Answer String

def onFiles (f : Volume FileName File → Option (Volume FileName File)) (s : State) : Option State :=
  (f s.files).map fun files => { s with files }

def rootDir : Dir := ⟨true, 0, 0, 0o700⟩

/-- A temporary file as `mkstemp` makes it. -/
def draftFile : File := ⟨true, 0, 0, 0o600, []⟩

/-- Remove the staging directory, if nothing is left in it. -/
def rmdirStaging (s : State) : Option State :=
  match s.staging with
  | none => none
  | some d =>
    if d.directory && s.files.names.keys.all (fun n => !n.isStaged) then
      some { s with staging := none }
    else none

def perform (h : Host) : Write → State → Option State
  | .acquireLock, s => some { s with policy := false }
  | .useradd, s =>
    if s.account = none ∧ s.group = none then
      some { s with
        account := some h.newAccount
        group := some h.newGid
        home := some (s.home.getD ⟨true, h.newUid, h.newGid, 0o700⟩) }
    else none
  | .lockPassword, s =>
    s.account.map fun u => { s with account := some { u with locked := true } }
  | .usermod, s =>
    s.account.map fun u => { s with account := some { u with groups := h.access :: u.groups } }
  | .checkPolicy, s => some { s with policy := true }
  | .chownHome uid gid, s => s.home.map fun d => { s with home := some { d with uid, gid } }
  | .chmodHome, s => s.home.map fun d => { s with home := some { d with mode := 0o700 } }
  | .mkdirSsh, s => if s.ssh = none then some { s with ssh := some rootDir } else none
  | .chownSsh uid gid, s => s.ssh.map fun d => { s with ssh := some { d with uid, gid } }
  | .chmodSsh, s => s.ssh.map fun d => { s with ssh := some { d with mode := 0o700 } }
  | .mkdirStaging, s => if s.staging = none then some { s with staging := some rootDir } else none
  | .rmdirStaging, s => rmdirStaging s
  | .mkstemp n, s => onFiles (·.create n draftFile) s
  | .fchmod n mode, s => onFiles (·.modify n fun f => { f with mode }) s
  | .fchown n uid gid, s => onFiles (·.modify n fun f => { f with uid, gid }) s
  | .writeAll n data, s => onFiles (·.modify n fun f => { f with content := f.content ++ data }) s
  | .link n destination, s => onFiles (·.link n destination) s
  | .unlink n, s => onFiles (·.unlink n) s
  | .unlinkMissing n, s => if s.stat n = none then some s else onFiles (·.unlink n) s
  | .replace n destination, s => onFiles (·.replace n destination) s
  | .restorecon, s => some s

/-- A kill inside a write of data leaves a part of it. -/
inductive Torn : Write → State → State → Prop
  | writeAll {n data part s u} (part_ : part <+: data)
      (applied : onFiles (·.modify n fun f => { f with content := f.content ++ part }) s = some u) :
      Torn (.writeAll n data) s u

/-- The answers of a host on which nothing goes wrong. -/
def Expected (s : State) : (x : Ask) → Answer x → Prop
  | .mkstemp d, y => s.stat (d.name y) = none
  | .base, y | .ancestors, y | .sudoersDirectory, y | .visudo, y | .ready, y => y = true

/-- The host. When it is `calm`, no command or write fails and every answer is as expected. -/
def host (h : Host) (calm : Prop) : Disk State Write Ask Answer where
  apply := perform h
  answers x s y := calm → Expected s x y
  fails _ := ¬calm
  torn := Torn

/-- Run the cleanup after `p`, whether it fails or not. -/
def finally_ {α : Type} (p : Run α) (cleanup : Run Unit) : Run α := do
  let a ← p.handle fun e => cleanup.bind fun _ => .fail e
  cleanup
  pure a

def checkAccountIdentity (u : Account) (group : Option ℕ) : Run Unit := do
  require (decide (1000 ≤ u.uid)) "automation account UID must be at least 1000"
  require (u.comment == automationComment) "automation account comment is unexpected"
  require (u.home == automationHome) "automation account home is unexpected"
  require (u.shell == automationShell) "automation account shell must be /bin/bash"
  require (group == some u.gid) "automation account primary group must be rocky"
  require (!u.shared) "automation account UID is shared by another account"

def checkDirectory (path : String) (d : Option Dir) (uid gid mode : ℕ) : Run Unit :=
  match d with
  | none => .fail s!"required path is absent: {path}"
  | some d => do
    require d.directory s!"path has unexpected type: {path}"
    require (d.uid == uid && d.gid == gid) s!"path has unexpected ownership: {path}"
    require (d.mode == mode) s!"path has unexpected mode: {path}"

def checkFile (path : String) (f : Option (File × ℕ)) (uid gid mode : ℕ) : Run Unit :=
  match f with
  | none => .fail s!"required path is absent: {path}"
  | some (f, links) => do
    require f.regular s!"path has unexpected type: {path}"
    require (f.uid == uid && f.gid == gid) s!"path has unexpected ownership: {path}"
    require (f.mode == mode) s!"path has unexpected mode: {path}"
    require (links == 1) s!"file must have exactly one link: {path}"

def readManagedFile (path : String) (f : Option (File × ℕ)) : Run Data :=
  match f with
  | none => .fail s!"cannot open regular file {path}"
  | some (f, links) => do
    require f.regular s!"path is not a regular file: {path}"
    require (links == 1) s!"file must have exactly one link: {path}"
    require (f.mode &&& 0o022 == 0) s!"file must not be writable by group or others: {path}"
    require (decide (f.content.length ≤ maxBytes)) s!"file is too large: {path}"
    pure f.content

def authorizedKeysPath : String := "/home/rocky/.ssh/authorized_keys"
def sudoersPath : String := "/etc/sudoers.d/90-platform-ansible-rocky"

/-- Only the two key files may lie in `.ssh`. -/
def State.strayKeys (s : State) : Bool :=
  s.files.names.keys.any fun n => n.isSsh && n != .authorizedKeys && n != .authorizedKeys2

def checkSshDirectoryEntries (s : State) : Run Unit :=
  require (!s.strayKeys) "automation .ssh directory contains unexpected entries"

/-- The `.ssh` of an account that is there already, if it has one. -/
def checkExistingSsh (s : State) (u : Account) : Run Unit :=
  match s.ssh with
  | none => pure ()
  | some d => do
    require d.directory "existing .ssh path is not a directory"
    require (d.uid == u.uid && d.gid == u.gid) "existing .ssh directory has unexpected ownership"
    checkSshDirectoryEntries s

/-- The account that is there, if any, where `apply` may start from it. -/
def ensureAccountStateBeforeApply (h : Host) : Run (Option Account) := do
  let s ← look
  match s.account with
  | none => do
    require s.home.isNone "orphaned home path exists: /home/rocky"
    require (s.stat .sudoers).isNone s!"orphaned sudoers policy exists: {sudoersPath}"
    require s.group.isNone "orphaned primary group exists: rocky"
    pure none
  | some u => do
    checkAccountIdentity u s.group
    require u.locked "refusing to adopt an automation account with an unlocked password"
    require (u.allGroups.all fun g => g == u.gid || g == h.access)
      "refusing an automation account with unexpected supplementary groups"
    checkDirectory "/home/rocky" s.home u.uid u.gid 0o700
    checkExistingSsh s u
    pure (some u)

def preflightSudoers : Run (Option Data) := do
  require (← ask .ancestors) "path ancestor of the sudo policy"
  let s ← look
  match s.stat .sudoers with
  | none => pure none
  | some f => do
    checkFile sudoersPath (some f) 0 0 0o440
    let content ← readManagedFile sudoersPath (some f)
    require (content == legacySudoersContent || content == sudoersContent)
      "refusing to replace a different sudoers policy"
    pure (some content)

def preflightManagedFiles (key : PublicKey) : Run Unit := do
  let s ← look
  require (s.stat .authorizedKeys2).isNone "conflicting key file exists: /home/rocky/.ssh/authorized_keys2"
  match s.stat .authorizedKeys with
  | none => discard preflightSudoers
  | some f => do
    let content ← readManagedFile authorizedKeysPath (some f)
    require (content == key.content) "refusing to replace a different authorized key"
    discard preflightSudoers

/-- Write a draft that `mkstemp` made, give it its final name and take the temporary one away. -/
def fillDraft (path : FileName) (temporary : FileName) (content : Data) (uid gid mode : ℕ) : Run Unit := do
  write (.fchmod temporary mode) "fchmod"
  write (.fchown temporary uid gid) "fchown"
  write (.writeAll temporary content) "write"
  write (.link temporary path) "link"
  write (.unlink temporary) "unlink"

def publishFile (path : FileName) (text : String) (draft : Draft) (parent : Run Unit) (content : Data)
    (uid gid mode : ℕ) : Run Unit := do
  let s ← look
  match s.stat path with
  | some f => do
    checkFile text (some f) uid gid mode
    let found ← readManagedFile text (some f)
    require (found == content) s!"refusing to replace different file content: {text}"
  | none => do
    parent
    let token ← ask (.mkstemp draft)
    write (.mkstemp (draft.name token)) "mkstemp"
    finally_ (fillDraft path (draft.name token) content uid gid mode)
      (write (.unlinkMissing (draft.name token)) "unlink")

/-- The parent of the authorized key: the user's own `.ssh`. -/
def checkSshParent (uid gid : ℕ) : Run Unit := do
  let s ← look
  match s.ssh with
  | none => .fail "No such file or directory"
  | some d => do
    require d.directory "destination parent is not a directory: /home/rocky/.ssh"
    require (d.uid == uid && d.gid == gid) "destination parent has unexpected ownership: /home/rocky/.ssh"
    require (d.mode &&& 0o022 == 0) "destination parent is writable by group or others: /home/rocky/.ssh"

def checkSudoersParent : Run Unit := do
  require (← ask .sudoersDirectory) "destination parent /etc/sudoers.d"

/-- Validate the candidate and put it in place of the policy that was found. -/
def promote (previous : Option Data) (candidate : FileName) : Run Unit := do
  write (.fchmod candidate 0o440) "fchmod"
  write (.fchown candidate 0 0) "fchown"
  write (.writeAll candidate sudoersContent) "write"
  require (← ask .visudo) "visudo failed"
  if previous = some legacySudoersContent then do
    let current ← preflightSudoers
    require (current == previous) "sudoers policy changed during preparation"
    write (.replace candidate .sudoers) "replace"
  else
    publishFile .sudoers sudoersPath .sudoers checkSudoersParent sudoersContent 0 0 0o440

def publishSudoers : Run Unit := do
  let previous ← preflightSudoers
  if previous = some sudoersContent then pure ()
  else do
    let token ← ask (.mkstemp .candidate)
    write (.mkstemp (Draft.candidate.name token)) "mkstemp"
    finally_ (promote previous (Draft.candidate.name token))
      (write (.unlinkMissing (Draft.candidate.name token)) "unlink")

def ensureHomeStagingDirectory : Run Unit := do
  let s ← look
  if s.staging = none then write .mkdirStaging "mkdir"
  let s ← look
  match s.staging with
  | none => .fail "No such file or directory"
  | some d => do
    require d.directory "home publication staging path is not a directory"
    require (d.uid == 0 && d.gid == 0) "home publication staging path is not root-owned"
    require (d.mode == 0o700) "home publication staging path must have mode 0700"

/-- Create the account where there is none. -/
def ensureAccount (user : Option Account) : Run Account :=
  match user with
  | some u => pure u
  | none => do
    write .useradd "useradd failed"
    write .lockPassword "passwd failed"
    let s ← look
    match s.account with
    | none => .fail "automation account is absent: rocky"
    | some u => do
      checkAccountIdentity u s.group
      pure u

def ensureAccess (h : Host) (u : Account) : Run Unit :=
  if h.access ∈ u.allGroups then pure ()
  else do
    let s ← look
    require ((s.stat .authorizedKeys).isNone && (s.stat .sudoers).isNone)
      "refusing to add access group after key or sudo policy exists"
    write .usermod "usermod failed"

def prepareDirectories (u : Account) : Run Unit := do
  write (.chownHome u.uid u.gid) "chown"
  write .chmodHome "chmod"
  let s ← look
  if s.ssh = none then write .mkdirSsh "mkdir"
  write (.chownSsh u.uid u.gid) "chown"
  write .chmodSsh "chmod"

def checkAccount (h : Host) (key : PublicKey) : Run Unit := do
  let s ← look
  match s.account with
  | none => .fail "automation account is absent: rocky"
  | some u => do
    checkAccountIdentity u s.group
    require (decide (h.access ∈ u.allGroups)) "rocky is not a member of access_ssh"
    require (u.allGroups.all fun g => g == u.gid || g == h.access)
      "automation account has unexpected supplementary groups"
    require u.locked "automation account password is not locked"
    checkDirectory "/home/rocky" s.home u.uid u.gid 0o700
    checkDirectory "/home/rocky/.ssh" s.ssh u.uid u.gid 0o700
    checkFile authorizedKeysPath (s.stat .authorizedKeys) u.uid u.gid 0o600
    let content ← readManagedFile authorizedKeysPath (s.stat .authorizedKeys)
    require (content == key.content) "authorized key differs from the supplied per-VM key"
    require (s.stat .authorizedKeys2).isNone "conflicting key file exists: /home/rocky/.ssh/authorized_keys2"
    checkSshDirectoryEntries s
    let policy ← preflightSudoers
    require (policy == some sudoersContent) "managed sudoers policy differs from the required policy"

def checkReady (h : Host) (key : PublicKey) : Run Unit := do
  require (← ask .ready) "readiness"
  checkAccount h key

/-- The publication of the key and of the sudo policy. -/
def publishAccess (key : PublicKey) (u : Account) : Run Unit := do
  ensureHomeStagingDirectory
  publishFile .authorizedKeys authorizedKeysPath .keys (checkSshParent u.uid u.gid) key.content
    u.uid u.gid 0o600
  publishSudoers
  write .restorecon "restorecon failed"

def applyLocked (h : Host) (key : PublicKey) : Run Unit := do
  require (← ask .base) "base checks"
  let user ← ensureAccountStateBeforeApply h
  preflightManagedFiles key
  let u ← ensureAccount user
  ensureAccess h u
  write .checkPolicy "effective SSH policy"
  prepareDirectories u
  publishAccess key u
  checkReady h key

/-- One run of `apply`. -/
def apply (h : Host) (key : PublicKey) : Run Unit := do
  write .acquireLock "another preparation process holds the host lock"
  finally_ (applyLocked h key) ((write .rmdirStaging "rmdir").handle fun _ => .ret ())

end PlatformConfig.HostPrepare
