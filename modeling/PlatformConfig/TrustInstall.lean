import PlatformConfig.CrashDisk
import PlatformConfig.TrustTree

/-!
# Installation of a trust tree

`install` with its two recoveries, as a program on the state root. It holds the state lock
throughout. Owner, mode and time stamp checks of files and directories are taken to pass.
-/
namespace PlatformConfig.TrustInstall

open GuardPlan CrashProgram CrashDisk TrustTree Prog

/-- A transaction: 32 random hexadecimal digits. -/
abbrev Transaction := {s : String // matchesHex 32 s = true}

/-- Device and inode of a directory. -/
abbrev Identity := ℕ × ℕ

/-- An entry of the trust root. Trust IDs do not begin with a dot, so the names differ. -/
inductive Entry
  | ingress
  | stage (tx : Transaction)
  | target
  | other (name : String)
  deriving DecidableEq

structure Dir where
  id : Identity
  files : Files

/-- The installation journal, with the fields that are not names made from others. -/
structure Journal where
  trustId : String
  transaction : Transaction
  ingress : Identity
  stage : Identity
  digests : List (TrustName × String)
  deriving DecidableEq

/-- The state root besides `lock` and `trust`, and the trust root. -/
structure State where
  journal : Option Journal
  others : List String
  trust : AList fun _ : Entry => Dir

/-- The writes of an installation; the writing of one file is one step. -/
inductive Write
  | mkdirStage (tx : Transaction) (id : Identity)
  | writeJournal (j : Journal)
  | writeFile (e : Entry) (f : FileName) (d : Data)
  | publishFile (e : Entry) (f g : FileName)
  | publishTree (tx : Transaction)
  | unlinkFile (e : Entry) (f : FileName)
  | rmdir (e : Entry)
  | unlinkJournal

/-- What an installation draws: a random transaction, the identity of a new directory. -/
inductive Draw
  | transaction
  | identity

abbrev Drawn : Draw → Type
  | .transaction => Transaction
  | .identity => Identity

/-- Create a file that is not there. -/
def createFile (f : FileName) (d : Data) (files : Files) : Option Files :=
  if f ∈ files then none else some (files.insert f d)

/-- Rename a file without replacing another. -/
def renameFile (f g : FileName) (files : Files) : Option Files := do
  let d ← files.lookup f
  if g ∈ files then none else return (files.erase f).insert g d

def removeFile (f : FileName) (files : Files) : Option Files :=
  if f ∈ files then some (files.erase f) else none

def State.put (s : State) (e : Entry) (d : Dir) : State := { s with trust := s.trust.insert e d }

def State.drop (s : State) (e : Entry) : State := { s with trust := s.trust.erase e }

/-- Change the files of an entry. -/
def State.change (s : State) (e : Entry) (change : Files → Option Files) : Option State := do
  let d ← s.trust.lookup e
  let files ← change d.files
  return s.put e ⟨d.id, files⟩

def Write.apply : Write → State → Option State
  | .mkdirStage tx id, s => if .stage tx ∈ s.trust then none else some (s.put (.stage tx) ⟨id, ∅⟩)
  | .writeJournal j, s => if s.journal.isSome then none else some { s with journal := some j }
  | .writeFile e f d, s => s.change e (createFile f d)
  | .publishFile e f g, s => s.change e (renameFile f g)
  | .publishTree tx, s => do
    let d ← s.trust.lookup (.stage tx)
    if .target ∈ s.trust then none else return (s.drop (.stage tx)).put .target d
  | .unlinkFile e f, s => s.change e (removeFile f)
  | .rmdir e, s => do
    let d ← s.trust.lookup e
    if d.files.keys = [] then return s.drop e else none
  | .unlinkJournal, s => if s.journal.isSome then some { s with journal := none } else none

/-- The state root, with kills between two steps only. -/
def disk : Disk State Write Draw Drawn where
  apply := Write.apply
  answers _ _ _ := True
  fails _ := False
  torn _ _ _ := False

/-- The outcome of a run that did not fail. -/
inductive Status
  | installed | existing | wouldInstall
  deriving DecidableEq

abbrev Run := Program State Write Draw Drawn String

/-- `journal_values` -/
def journalValues (a : Args) (tx : Transaction) (ingress stage : Identity) : Journal :=
  ⟨a.trustId, tx, ingress, stage, a.bindings⟩

/-- The trust root holds exactly the given names. -/
def State.entriesAre (s : State) (names : List Entry) : Bool :=
  (∀ e ∈ s.trust.keys, e ∈ names) && (∀ e ∈ names, e ∈ s.trust.keys)

def State.stages (s : State) : List Transaction :=
  s.trust.keys.filterMap fun e => match e with
    | .stage tx => some tx
    | _ => none

def unlinkAll (e : Entry) : List FileName → Run Unit
  | [] => pure ()
  | f :: rest => do
    write (.unlinkFile e f) "cannot remove file"
    unlinkAll e rest

/-- `remove_tree_at`: the files in the order of their names, then the directory. -/
def removeTree (e : Entry) (files : Files) : Run Unit := do
  unlinkAll e (files.keys.mergeSort fun f g => f.text ≤ g.text)
  write (.rmdir e) "cannot remove directory"

/-- `remove_journal`, which reads the journal again before it removes it. -/
def removeJournal (j : Journal) : Run Unit := do
  let s ← look
  require (s.journal = some j) "trust installation journal path binding changed"
  write .unlinkJournal "cannot remove trust installation journal"

/-- A stage holds trust files and partial files of its transaction, each bounded. -/
def stageSnapshots (files : Files) : Bool :=
  files.entries.all fun f => (match f.1 with
    | .other _ => false
    | _ => true) && f.2.length ≤ maxTrustSize

/-- A partly removed ingress holds trust files, each bounded and nonempty. -/
def partialIngressSnapshots (files : Files) : Bool :=
  files.entries.all fun f => (match f.1 with
    | .trust _ => true
    | _ => false) && 0 < f.2.length && f.2.length ≤ maxTrustSize

def recoverEmptyUnjournaledStage (s : State) : Run Unit :=
  match s.stages with
  | [] => pure ()
  | [tx] => do
    require (s.entriesAre [.ingress, .stage tx])
      "ambiguous unjournaled trust stage state requires manual recovery"
    require ((s.trust.lookup (.stage tx)).any fun d => d.files.keys = [])
      "nonempty unjournaled trust stage requires manual recovery"
    write (.rmdir (.stage tx)) "cannot recover unjournaled empty trust stage"
  | _ => .fail "multiple unjournaled trust stages require manual recovery"

variable (sha256 : Data → String)

/-- Remove what is left of the ingress of a published target. -/
def removeIngress (j : Journal) (s : State) : Run Unit :=
  match s.trust.lookup .ingress with
  | none => pure ()
  | some ingress => do
    require (ingress.id = j.ingress) "journal-bound trust ingress identity changed"
    require (partialIngressSnapshots ingress.files)
      "journal-bound partial trust ingress contains unexpected state"
    removeTree .ingress ingress.files

/-- The branch of `recover` for a published target. -/
def recoverPublished (a : Args) (j : Journal) (s : State) (target : Dir) : Run Bool := do
  require (∀ e ∈ s.trust.keys, e = .target ∨ e = .ingress)
    "published trust recovery found unexpected trust-root state"
  require (target.id = j.stage)
    "recovered installed trust tree does not match journaled stage identity"
  require (validateTree sha256 a target.files).isSome "recovered installed trust tree is not valid"
  removeIngress j s
  removeJournal j
  return true

/-- The branch of `recover` for a stage that was not published. -/
def recoverUnpublished (j : Journal) (s : State) : Run Bool :=
  match s.trust.lookup .ingress with
  | none => .fail "cannot open journal-bound trust ingress"
  | some ingress => do
    require (ingress.id = j.ingress) "journal-bound trust ingress identity changed"
    match s.trust.lookup (.stage j.transaction) with
    | none => .fail "trust recovery cannot find the exact journaled stage or published target"
    | some stage => do
      require (stage.id = j.stage)
        "journal-owned trust stage identity changed; replacement is retained"
      require (stageSnapshots stage.files) "journal-owned trust stage contains unexpected state"
      removeTree (.stage j.transaction) stage.files
      removeJournal j
      return false

def recover (a : Args) (check : Bool) : Run Bool := do
  let s ← look
  match s.journal with
  | none => return false
  | some j => do
    require (!check) "trust installation recovery is required before check mode can succeed"
    require (s.others = []) "trust recovery found unexpected state-root entries"
    require (j = journalValues a j.transaction j.ingress j.stage)
      "trust installation journal does not match the requested frozen trust identity"
    require (¬(.stage j.transaction ∈ s.trust ∧ .target ∈ s.trust))
      "trust recovery found both staged and published state"
    match s.trust.lookup .target with
    | some target => recoverPublished sha256 a j s target
    | none => recoverUnpublished j s

/-- `populate_stage`: each file is written under a partial name and then published. -/
def populateStage (tx : Transaction) : ℕ → List (TrustName × Data) → Run Unit
  | _, [] => pure ()
  | i, (n, d) :: rest => do
    write (.writeFile (.stage tx) (.staging i) d) "cannot write partial staged trust file"
    write (.publishFile (.stage tx) (.staging i) (.trust n))
      "no-clobber staged trust file publication failed"
    populateStage tx (i + 1) rest

def finalNames : List String := ["active", "rollback", "target-terminal", "target-terminal-history"]

/-- `validate_final_state` -/
def validateFinalState (a : Args) : Run Unit := do
  let s ← look
  require (s.journal.isNone && s.others.all finalNames.contains)
    "state root contains unexpected or unresolved lifecycle state"
  require (s.entriesAre [.target]) "state trust root contains another trust ID or unexpected state"
  require ((s.trust.lookup .target).any fun d => (validateTree sha256 a d.files).isSome)
    "installed trust tree is not valid"

/-- The bindings that are checked again before and after publication. -/
def recheck (j : Journal) (e : Entry) : Run Unit := do
  let s ← look
  require ((s.trust.lookup .ingress).map Dir.id = some j.ingress)
    "target trust ingress path binding changed"
  require ((s.trust.lookup e).map Dir.id = some j.stage) "trust tree path binding changed"
  require (s.journal = some j) "trust installation journal path binding changed"

/-- The staging and publication of a validated ingress. -/
def publish (a : Args) (ingress : Dir) (contents : List (TrustName × Data)) : Run Status := do
  let tx ← ask .transaction
  let id ← ask .identity
  write (.mkdirStage tx id) "cannot create trust staging directory"
  let j := journalValues a tx ingress.id id
  write (.writeJournal j) "cannot write trust installation journal"
  recheck j (.stage tx)
  populateStage tx 0 contents
  let s ← look
  require ((s.trust.lookup (.stage tx)).any fun d => (validateTree sha256 a d.files).isSome)
    "staged trust tree is not valid"
  recheck j (.stage tx)
  require (.target ∉ s.trust) "trust publication destination appeared; rotation is prohibited"
  write (.publishTree tx) "no-clobber complete trust tree publication failed"
  let t ← look
  require ((t.trust.lookup .target).any fun d => (validateTree sha256 a d.files).isSome)
    "installed trust tree is not valid"
  recheck j .target
  removeTree .ingress ingress.files
  removeJournal j
  validateFinalState sha256 a
  return .installed

/-- `install` after its recoveries found nothing to finish. -/
def installInitial (a : Args) (check : Bool) : Run Status := do
  let s ← look
  if .target ∈ s.trust then do
    validateFinalState sha256 a
    return .existing
  else do
    require (s.entriesAre [.ingress] && s.journal.isNone && s.others = [])
      "initial trust install found another trust ID, missing ingress, or unexpected state"
    match s.trust.lookup .ingress with
    | none => .fail "cannot open target trust ingress"
    | some ingress =>
      match validateTree sha256 a ingress.files with
      | none => .fail "target trust ingress is not valid"
      | some contents =>
        if check then return .wouldInstall else publish sha256 a ingress contents

/-- The recovery of a stage that was created without a journal. -/
def recoverOrphan : Run Unit := do
  let s ← look
  if s.journal.isSome then pure () else recoverEmptyUnjournaledStage s

def install (a : Args) (check : Bool) : Run Status := do
  recoverOrphan
  let recovered ← recover sha256 a check
  if recovered then do
    validateFinalState sha256 a
    return .existing
  else installInitial sha256 a check

end PlatformConfig.TrustInstall
