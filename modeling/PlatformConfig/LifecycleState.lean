import PlatformConfig.CrashDisk
import PlatformConfig.LifecycleRecord

/-!
# The state of one certificate target

The state root, the service configuration, the service, the pending requests and the versions
root, with the writes of the lifecycle helper on them and what it asks its surroundings. The
writing of a file, a rename, an unlink and a `systemctl` command are one step each.
-/
namespace PlatformConfig.Lifecycle

open CrashProgram CrashDisk Prog

/-- A file that was written under its final name: whole, or torn by a kill. -/
inductive Content (α : Type)
  | whole (a : α)
  | torn
  deriving DecidableEq

/-- How the service unit is enabled while it is not masked. -/
inductive Enablement
  | enabled | generated | disabled
  deriving DecidableEq

/-- An entry of the versions root. -/
inductive VersionEntry
  | version (r : String)
  | ingress (r : String)
  | stage (r tx : String)
  deriving DecidableEq

/-- The versions root: absent, made without its owner yet, or ready. -/
inductive VersionsRoot
  | absent | unowned | ready
  deriving DecidableEq

structure State where
  active : Option Active
  rollback : Option Rollback
  config : Data
  journal : Option (Content Journal)
  terminal : Option (Content Terminal)
  history : Option (AList fun _ : String => Content Terminal)
  requestJournal : Bool
  trustJournal : Bool
  leftovers : ℕ
  configLeftovers : ℕ
  running : Bool
  masked : Bool
  enablement : Enablement
  pending : AList fun _ : String => Dir
  root : VersionsRoot
  versions : AList fun _ : VersionEntry => Dir

/-- A `systemctl` command on the service unit. -/
inductive Command
  | restart | start | stop | unmask | mask
  deriving DecidableEq

/-- A change of the versions root or below it. -/
inductive TreeWrite
  | makeRoot (made : VersionsRoot)
  | mkdir (e : VersionEntry) (id : Identity)
  | writeFile (e : VersionEntry) (f : FileName) (d : Data)
  | unlinkFile (e : VersionEntry) (f : FileName)
  | publish (r tx : String)
  | rmdir (e : VersionEntry)

/-- A write. `new…` creates a file that must be absent; `set…` renames a finished temporary file
over the name, or removes it. -/
inductive Write
  | setActive (a : Option Active)
  | setRollback (b : Option Rollback)
  | setConfig (d : Data)
  | newJournal (j : Journal)
  | setJournal (j : Journal)
  | unlinkJournal
  | newTerminal (t : Terminal)
  | unlinkTerminal
  | mkdirHistory
  | newHistory (t : Terminal)
  | service (k : Command)
  | newListener
  | unlinkListener
  | tree (w : TreeWrite)

def State.command (s : State) : Command → State
  | .restart => { s with running := true }
  | .start => { s with running := true }
  | .stop => { s with running := false }
  | .unmask => { s with masked := false }
  | .mask => { s with masked := true }

/-- Change the files of a directory that is there. -/
def State.change (s : State) (e : VersionEntry) (change : Files → Option Files) : Option State := do
  let d ← s.versions.lookup e
  let files ← change d.files
  return { s with versions := s.versions.insert e { d with files := files } }

def TreeWrite.apply : TreeWrite → State → Option State
  | .makeRoot made, s => some { s with root := made }
  | .mkdir e id, s =>
    if e ∈ s.versions then none else some { s with versions := s.versions.insert e ⟨id, ∅⟩ }
  | .writeFile e f d, s => s.change e fun files => if f ∈ files then none else some (files.insert f d)
  | .unlinkFile e f, s => s.change e fun files => if f ∈ files then some (files.erase f) else none
  | .publish r tx, s => do
    let d ← s.versions.lookup (.stage r tx)
    if .version r ∈ s.versions then none
    else return { s with versions := (s.versions.erase (.stage r tx)).insert (.version r) d }
  | .rmdir e, s => do
    let d ← s.versions.lookup e
    if d.files.keys = [] then return { s with versions := s.versions.erase e } else none

def Write.apply : Write → State → Option State
  | .setActive a, s => some { s with active := a }
  | .setRollback b, s => some { s with rollback := b }
  | .setConfig d, s => some { s with config := d }
  | .newJournal j, s => if s.journal.isSome then none else some { s with journal := some (.whole j) }
  | .setJournal j, s => if s.journal.isSome then some { s with journal := some (.whole j) } else none
  | .unlinkJournal, s => if s.journal.isSome then some { s with journal := none } else none
  | .newTerminal t, s => if s.terminal.isSome then none else some { s with terminal := some (.whole t) }
  | .unlinkTerminal, s => if s.terminal.isSome then some { s with terminal := none } else none
  | .mkdirHistory, s => if s.history.isSome then none else some { s with history := some ∅ }
  | .newHistory t, s => do
    let h ← s.history
    if t.requestId ∈ h then none
    else return { s with history := some (h.insert t.requestId (.whole t)) }
  | .service k, s => some (s.command k)
  | .newListener, s => some { s with configLeftovers := s.configLeftovers + 1 }
  | .unlinkListener, s => some { s with configLeftovers := s.configLeftovers - 1 }
  | .tree w, s => w.apply s

/-- What a kill inside a write leaves: a temporary name, or a torn new file. -/
inductive Torn : Write → State → State → Prop
  | active (a s) : Torn (.setActive (some a)) s { s with leftovers := s.leftovers + 1 }
  | rollback (b s) : Torn (.setRollback (some b)) s { s with leftovers := s.leftovers + 1 }
  | config (d s) : Torn (.setConfig d) s { s with configLeftovers := s.configLeftovers + 1 }
  | newJournal {j s} (absent : s.journal = none) :
      Torn (.newJournal j) s { s with journal := some .torn }
  | setJournal (j s) : Torn (.setJournal j) s { s with leftovers := s.leftovers + 1 }
  | terminal {t s} (absent : s.terminal = none) :
      Torn (.newTerminal t) s { s with terminal := some .torn }
  | history {t s h} (there : s.history = some h) (absent : t.requestId ∉ h) :
      Torn (.newHistory t) s { s with history := some (h.insert t.requestId .torn) }
  | listener (s) : Torn .newListener s { s with configLeftovers := s.configLeftovers + 1 }
  | file {e f d p s t} (front : p <+: d) (part : p ≠ d)
      (applied : (TreeWrite.writeFile e f p).apply s = some t) :
      Torn (.tree (.writeFile e f d)) s t

/-- What the helper asks: the clock, whether an inspection of locks, metadata, trust and other
paths passes, whether the dormant material that a first issue must not find is absent, a
transaction name, the identity of a new directory, the result of the strict local validation
of the service, that of the fixed listener validator, and the response files that an exchange
offers. -/
inductive Ask
  | now
  | inspect
  | dormant
  | transaction
  | identity
  | validate (certificate intermediate : String)
  | listener
  | source

abbrev Answer : Ask → Type
  | .now => ℕ
  | .inspect => Bool
  | .dormant => Bool
  | .transaction => String
  | .identity => Identity
  | .validate _ _ => Option (String × String)
  | .listener => Bool
  | .source => Option Files

/-- The conditions of a run: whether inspections and writes can fail, whether a kill can tear a
write, and the times the clock can show. -/
structure Conditions where
  faults : Prop
  tears : Prop
  clock : ℕ → Prop

def disk (k : Conditions) : Disk State Write Ask Answer where
  apply := Write.apply
  answers
    | .now, _, n => k.clock n
    | .inspect, _, passed => passed = true ∨ k.faults
    | .dormant, _, _ => True
    | .transaction, _, _ => True
    | .identity, _, _ => True
    | .validate _ _, _, _ => True
    | .listener, _, _ => True
    | .source, _, _ => True
  fails _ := k.faults
  torn w s t := k.tears ∧ Torn w s t

abbrev Run := Program State Write Ask Answer String

/-- Run `q` after `p`, also where `p` fails. -/
def finally_ {α : Type} (p : Run α) (q : Run Unit) : Run α :=
  ((p.bind fun a => .ret (.ok a)).handle fun e => .ret (.error e) : Run (Except String α)).bind
    fun out => q.bind fun _ => match out with
      | .ok a => .ret a
      | .error e => .fail e

def inspect (e : String) : Run Unit := (ask Ask.inspect).bind fun passed => require passed e

def now : Run ℕ := ask Ask.now

def ofOption {α : Type} (a : Option α) (e : String) : Run α :=
  match a with
  | some a => .ret a
  | none => .fail e

/-- `require_server_adapter` -/
def requireServerAdapter (c : Target) : Run Unit :=
  require (c.adapter ≠ .client) "client-stage-v1 forbids active lifecycle commands"

def command (k : Command) : Run Unit := write (.service k) "systemctl command failed"

/-- The content of a file that is there. -/
def Content.value {α : Type} : Content α → Option α
  | .whole a => some a
  | .torn => none

variable (c : Target)

/-- `state_entries`: no name but those the helper knows. -/
def stateEntries : Run State := do
  inspect "cannot read state root"
  let s ← look
  require (s.leftovers = 0) "state root contains unexpected entries"
  pure s

/-- The journal file as it is, within the read limit. -/
def readJournalFile : Run Journal := do
  inspect "cannot read activation journal"
  let s ← look
  let j ← ofOption (s.journal.bind Content.value) "activation journal is not canonical"
  require (c.fits j) "activation journal exceeds the size limit"
  pure j

def readJournal : Run Journal := do
  let j ← readJournalFile c
  require (c.journalBound j) "activation journal cross-binding is invalid"
  pure j

/-- A terminal record that is whole and well formed. -/
def parseTerminal (t : Content Terminal) : Option Terminal :=
  t.value.filter Terminal.wellFormed

def readTerminal : Run (Option Terminal) := do
  inspect "cannot read target-terminal"
  let s ← look
  match s.terminal with
  | none => pure none
  | some t => do
    let t ← ofOption (parseTerminal t) "target-local terminal record identity is invalid"
    pure (some t)

/-- An entry of the history that holds the terminal record of its name. -/
def historyEntry (e : Sigma fun _ : String => Content Terminal) : Option Terminal :=
  (parseTerminal e.2).filter fun t => t.requestId = e.1

/-- `target_terminal_history` -/
def readHistory : Run (List Terminal) := do
  inspect "cannot read target-terminal-history"
  let s ← look
  match s.history with
  | none => pure []
  | some h => do
    require (h.entries.all fun e => (historyEntry e).isSome) "target-local terminal history is invalid"
    pure (h.entries.filterMap historyEntry)

/-- `target_excluded_request_ids` -/
def excludedRequestIds : Run (List String) := do
  let h ← readHistory
  let t ← readTerminal
  pure (t.toList.map (·.requestId) ++ h.map (·.requestId))

/-- `target_pending_request_ids` -/
def pendingRequestIds (excluded : List String) : Run (List String) := do
  inspect "target-local pending request entry is invalid"
  let s ← look
  pure (s.pending.keys.filter fun r => r ∉ excluded)

/-- The requests that a selection leaves out: none for a client. -/
def selectionExcluded : Run (List String) :=
  if c.adapter = .client then pure [] else excludedRequestIds

/-- `target_pending_request_id` -/
def pendingRequestId : Run String := do
  let excluded ← selectionExcluded c
  match ← pendingRequestIds excluded with
  | [r] => pure r
  | _ => .fail "target-local operation requires exactly one nonterminal pending request"

/-- `target_artifact_digest` of the immutable version. -/
def artifactDigest (e : VersionEntry) : Run String := do
  inspect "cannot read target-local artifact"
  let s ← look
  let d ← ofOption (s.versions.lookup e) "cannot read target-local artifact"
  let artifact ← ofOption (d.files.lookup .artifact) "cannot read target-local artifact"
  require (readable artifact) "cannot read target-local artifact"
  pure (c.sha256 artifact)

def validatePending (r : String) : Run Pending := do
  inspect "cannot read pending request"
  let s ← look
  let t ← now
  ofOption ((s.pending.lookup r).bind fun d => c.validatePending d r t) "pending request is invalid"

/-- `validate_version` of a published version. -/
def validateVersion (r : String) : Run Dir := do
  inspect "cannot read immutable certificate version"
  let s ← look
  let d ← ofOption (s.versions.lookup (.version r)) "cannot read immutable certificate version"
  require (d.exact versionNames)
    "immutable certificate version does not contain the exact fixed file set"
  pure d

def validateResponseFiles (files : Contents) (pending : Pending) : Run Validated := do
  let t ← now
  ofOption (c.validateResponseFiles files pending t) "response files are invalid"

/-- `authenticate_target_candidate` -/
def authenticateTargetCandidate (r : String) : Run Validated := do
  let pending ← validatePending c r
  let version ← validateVersion r
  validateResponseFiles c (version.contents responseNames) pending

/-- The checks of `authenticate_active` on the version directory. -/
def Target.versionAuthentic (a : Active) (d : Dir) : Bool :=
  let files := d.contents versionNames
  d.exact versionNames && d.id = a.versionIdentity &&
    a.artifactManifestSha256 = c.digest files .artifact &&
    a.responseSha256 = c.digest files .response &&
    a.responseSignatureSha256 = c.digest files .responseSig &&
    a.certificateSha256 = c.digest files .crt &&
    c.keySpki ((files .key).getD []) = some a.certificateSpkiSha256 &&
    a.chainSha256 = c.digest files .chain &&
    a.fullchainSha256 = c.digest files .fullchain &&
    c.leafSpki ((files .crt).getD []) = some a.certificateSpkiSha256

/-- The configuration selects the version of an active record and has its digest. -/
def Target.configSelects (a : Active) (config : Data) : Bool :=
  c.parseConfig config = some (c.selectedVersionPaths a.requestId) &&
    c.sha256 config = a.zotConfigSha256

/-- `authenticate_active` -/
def Target.activeAuthentic (s : State) (a : Active) : Bool :=
  a.versionPath = c.versionPath a.requestId &&
    (s.versions.lookup (.version a.requestId)).any (c.versionAuthentic a) &&
    c.configSelects a s.config

def authenticateActive : Run (Option Active) := do
  inspect "cannot read active record"
  let s ← look
  match s.active with
  | none => pure none
  | some a => do
    require (c.activeAuthentic s a) "active record is not authentic"
    pure (some a)

/-- `require_openbao_inactive_disabled` and `require_openbao_active_disabled` -/
def requireOpenbao (running : Bool) : Run Unit := do
  inspect "OpenBao service-state query failed"
  let s ← look
  require (s.running = running && !s.masked &&
    (s.enablement = .disabled || s.enablement = .generated))
    "OpenBao must be unmasked and without persistent enablement"

def stopOpenbao : Run Unit := do
  command .stop
  requireOpenbao false

end PlatformConfig.Lifecycle
