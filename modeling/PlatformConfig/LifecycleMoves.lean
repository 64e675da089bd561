import PlatformConfig.LifecycleReads

/-!
# What one step of the lifecycle can do

Every change of a target's state is one of a few moves, each with the facts that the program
has established before it. The commands are shown once to take such moves only; every invariant
is then a case analysis over the moves.
-/
namespace PlatformConfig.Lifecycle

open CrashProgram CrashDisk Prog

variable {α β : Type}

/-- How far the records and the configuration have moved between those before an activation
and the new ones. -/
inductive Phase
  | prior | active | records | config | restoring
  deriving DecidableEq

/-- The active record, the rollback record and the configuration. -/
def State.triple (s : State) : Option Active × Option Rollback × Data :=
  (s.active, s.rollback, s.config)

def State.put (s : State) (x : Option Active × Option Rollback × Data) : State :=
  { s with active := x.1, rollback := x.2.1, config := x.2.2 }

def Journal.at (j : Journal) : Phase → Option Active × Option Rollback × Data
  | .prior => (j.priorActive, j.priorRollback, j.priorConfig)
  | .active => (some j.newActive, j.priorRollback, j.priorConfig)
  | .records => (some j.newActive, some j.newRollback, j.priorConfig)
  | .config => (some j.newActive, some j.newRollback, j.targetConfig)
  | .restoring => (j.priorActive, some j.newRollback, j.priorConfig)

def Phase.next : Phase → Option Phase
  | .prior => some .active
  | .active => some .records
  | .records => some .config
  | _ => none

/-- The digests of a journal are those of a version. -/
def Target.journalNames (c : Target) (j : Journal) (d : Dir) : Prop :=
  ∀ leaf, (targetTerminal j .complete none).bindsCandidate
    (c.validated (d.contents responseNames) leaf) = true

/-- What an activation has established when it writes its journal. -/
structure Begins (c : Target) (s : State) (j : Journal) : Prop where
  free : s.journal = none
  prepared : j.checkpoint = .prepared
  bound : c.journalBound j = true
  binds : j.newRollback.binds j.newActive = true
  prior : s.triple = j.at .prior
  predecessor : j.newRollback.predecessor = j.priorActive.map predecessorOf
  valid : s.activeValid c
  paired : s.active = none → s.rollback = none
  idle : c.adapter = .openbao → j.priorServiceActive = false
  version : ∃ d, s.versionAt j.requestId = some d ∧ d.id = j.targetVersionIdentity ∧
    c.journalNames j d

/-- The published version of a request is made of its pending request and of a response that
authenticates for it. -/
def Publishes (c : Target) (s : State) (r : String) (d : Dir) : Prop :=
  ∃ p response n m v, s.pendingAt c r n = some p ∧
    c.validateResponseFiles response p m = some v ∧ d.exact versionNames = true ∧
    agreeOn versionNames (d.contents versionNames) (publication p.files response) = true

/-- The kinds of moves. -/
inductive Label
  | begins (r : String)
  | forward | restore | success | failure | archive | close | resume | retire
  | service | listener | tree

/-- The moves. -/
inductive Move (c : Target) : Label → State → State → Prop
  | begins {s j} (h : Begins c s j) :
      Move c (.begins j.requestId) s { s with journal := some (.whole j) }
  | advance {s j p q} (held : s.holds j) (live : j.checkpoint.failure = none)
      (first : p = .records ∨ j.checkpoint = .prepared) (at_ : s.triple = j.at p)
      (next : p.next = some q) : Move c .forward s (s.put (j.at q))
  | checkpoint {s j p} (held : s.holds j) (live : j.checkpoint.failure = none)
      (past : s.triple = j.at .records ∨ s.triple = j.at .config) (next : p.failure = none) :
      Move c .forward s { s with journal := some (.whole { j with checkpoint := p }) }
  | restoreConfig {s j} (held : s.holds j) (at_ : s.config = j.targetConfig) :
      Move c .restore s { s with config := j.priorConfig }
  | restoreActive {s j} (held : s.holds j) (config : s.config = j.priorConfig)
      (at_ : s.active = some j.newActive) : Move c .restore s { s with active := j.priorActive }
  | restoreRollback {s j} (held : s.holds j) (config : s.config = j.priorConfig)
      (active : s.active = j.priorActive) (at_ : s.rollback = some j.newRollback) :
      Move c .restore s { s with rollback := j.priorRollback }
  | restored {s j} (held : s.holds j) (at_ : s.triple = j.at .prior) :
      Move c .restore s
        { s with journal := some (.whole { j with checkpoint := j.restored.checkpoint }) }
  | fail {s j failure} (held : s.holds j) (ended : j.checkpoint.failure = some failure)
      (absent : s.terminal = none) :
      Move c .failure s { s with terminal := some (.whole (targetTerminal j failure.state none)) }
  | complete {s j a proof} (held : s.holds j) (done : j.checkpoint = .localValidated)
      (active : s.active = some a) (same : a.requestId = j.requestId)
      (authentic : c.activeAuthentic s a = true) (absent : s.terminal = none) :
      Move c .success s
        { s with terminal := some (.whole (targetTerminal j .complete (some proof))) }
  | history {s} (absent : s.history = none) : Move c .archive s { s with history := some ∅ }
  | archive {s t h} (terminal : s.terminal = some (.whole t)) (valid : t.wellFormed = true)
      (history : s.history = some h) (absent : t.requestId ∉ h) :
      Move c .archive s { s with history := some (h.insert t.requestId (.whole t)) }
  | close {s j t} (held : s.holds j) (terminal : s.terminal = some (.whole t))
      (same : t.requestId = j.requestId) (archived : s.archived t.requestId = some (.whole t)) :
      Move c .close s { s with journal := none }
  | resume {s j t} (held : s.holds j) (terminal : s.terminal = some (.whole t))
      (same : t.requestId = j.requestId) (done : t.state = .complete) :
      Move c .resume s { s with journal := none }
  | retire {s t} (free : s.journal = none) (terminal : s.terminal = some (.whole t))
      (archived : s.archived t.requestId = some (.whole t)) :
      Move c .retire s { s with terminal := none }
  | service {s} (o : Command) : Move c .service s (s.command o)
  | listener {s} (n : ℕ) : Move c .listener s { s with configLeftovers := n }
  | root {s} (made : VersionsRoot) : Move c .tree s { s with root := made }
  | files {s v} (kept : ∀ r, v.lookup (.version r) = s.versions.lookup (.version r)) :
      Move c .tree s { s with versions := v }
  | publish {s r tx d} (stage : s.versions.lookup (.stage r tx) = some d)
      (absent : .version r ∉ s.versions) (made : Publishes c s r d) :
      Move c .tree s
        { s with versions := (s.versions.erase (.stage r tx)).insert (.version r) d }

/-- A step: nothing changes, a move is made that is allowed where it is made, or a kill tears a
write. -/
def Step (c : Target) (k : Conditions) (A : Label → State → Prop) (s t : State) : Prop :=
  s = t ∨ (∃ l, A l s ∧ Move c l s t) ∨ (k.tears ∧ ∃ w, Torn w s t)

variable {c : Target} {k : Conditions} {s t : State} {j : Journal}

lemma Step.quiet {A : Label → State → Prop} : Step c k A s s := .inl rfl

lemma Step.move {A : Label → State → Prop} {l : Label} (may : A l s) (h : Move c l s t) :
    Step c k A s t := .inr (.inl ⟨l, may, h⟩)

/-- Every step of a program from `s` is a step of the lifecycle, and it ends as `Q` says. -/
abbrev Does (c : Target) (k : Conditions) (A : Label → State → Prop) (p : Run α)
    (Q : Except String α → State → Prop) (s : State) : Prop :=
  wp (disk k).semantics (fun _ s t => Step c k A s t) p Q s

variable {A : Label → State → Prop} {Q : Except String β → State → Prop}

lemma does_reads {p : Run α} {f : α → Run β} {R : α → Prop} {F : Prop} (h : Reads (disk k) s p R F)
    (failed : ∀ e, F → Q (.error e) s) (rest : ∀ a, R a → Does c k A (f a) Q s) :
    Does c k A (p.bind f) Q s :=
  wp_reads (fun _ => .quiet) h failed rest

lemma does_look {f : State → Run β} (rest : Does c k A (f s) Q s) :
    Does c k A (look.bind f) Q s := by
  have here : Reads (disk k) s (look.bind .ret : Run State) (fun r => r = s) False :=
    reads_look (reads_ret rfl)
  rw [bind_ret_right] at here
  refine does_reads here (fun _ => False.elim) fun a same => ?_
  rw [same]
  exact rest

lemma does_check {b : Bool} {e : String} {f : Unit → Run β} (refused : b = false → Q (.error e) s)
    (passed : b = true → Does c k A (f ()) Q s) : Does c k A ((require b e).bind f) Q s := by
  unfold Does
  rw [bind_require]
  exact wp_check refused passed

/-- A write: torn, refused, or applied as a move. -/
lemma does_write {w : Write} {e : String} {f : Unit → Run β}
    (refused : w.apply s = none ∨ k.faults → Q (.error e) s)
    (applied : ∀ u, w.apply s = some u → Step c k A s u ∧ Does c k A (f ()) Q u) :
    Does c k A ((write w e).bind f) Q s := by
  change wp (disk k).semantics _ (.call (.write w) fun done => (require done e).bind f) Q s
  refine ⟨fun u cut => ?_, fun r u done => ?_⟩
  · cases cut with
    | torn h => exact .inr (.inr ⟨h.1, w, h.2⟩)
  · cases done with
    | wrote h => exact applied u h
    | refused h => exact ⟨.quiet, refused h⟩

/-- A write that is always applied where it does not fail. -/
lemma does_wrote {w : Write} {e : String} {f : Unit → Run β} {l : Label}
    (applied : w.apply s = some t) (move : Move c l s t) (may : A l s)
    (failed : k.faults → Q (.error e) s) (rest : Does c k A (f ()) Q t) :
    Does c k A ((write w e).bind f) Q s := by
  refine does_write (fun refused => ?_) fun u h => ?_
  · rcases refused with none_ | faults
    · rw [applied] at none_
      cases none_
    · exact failed faults
  · rw [applied] at h
    cases h
    exact ⟨.move may move, rest⟩

lemma does_command {o : Command} {f : Unit → Run β} (may : A .service s)
    (failed : ∀ e, k.faults → Q (.error e) s) (rest : Does c k A (f ()) Q (s.command o)) :
    Does c k A ((command o).bind f) Q s :=
  does_wrote rfl (.service o) may (failed _) rest

end PlatformConfig.Lifecycle
