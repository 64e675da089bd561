import PlatformConfig.LifecycleRuns

/-!
# The active record and its rollback record

Without a journal, both records are absent or both bind one authentic activation, which the
configuration selects. Beside a journal the records and the configuration are in one phase
between those before the activation and the new ones, and the pair before the activation can be
put back; a terminal record is only written over a pair.
-/
namespace PlatformConfig.Lifecycle

open CrashProgram CrashDisk Prog

variable {c : Target} {k : Conditions} {s t : State} {j : Journal}

/-- Both records are absent, or both bind one activation that authenticates. -/
inductive Paired (c : Target) (s : State) : Prop
  | absent (active : s.active = none) (rollback : s.rollback = none) : Paired c s
  | present {a : Active} {b : Rollback} (active : s.active = some a) (rollback : s.rollback = some b)
      (binds : b.binds a = true) (authentic : c.activeAuthentic s a = true) : Paired c s

/-- The moves of commands that run one at a time. -/
def Sequential : Label → State → Prop
  | .begins r, s => s.terminal = none ∧ ¬s.recorded r
  | .forward, s => s.terminal = none
  | .restore, s => s.terminal = none
  | _, _ => True

/-- Every published version is still there. -/
def Retains (s t : State) : Prop :=
  ∀ r d, s.versions.lookup (.version r) = some d → t.versions.lookup (.version r) = some d

lemma move_retains {l : Label} (move : Move c l s t) : Retains s t := by
  intro r d there
  rcases move_versions move with same | ⟨r', d', absent, -, now_⟩
  · rwa [same]
  · have other : r ≠ r' := by
      rintro rfl
      rw [AList.lookup_eq_none.mpr absent] at there
      cases there
    rwa [now_, if_neg other]

lemma activeAuthentic_mono {a : Active} (retains : Retains s t) (config : t.config = s.config)
    (h : c.activeAuthentic s a = true) : c.activeAuthentic t a = true := by
  unfold Target.activeAuthentic at h ⊢
  simp only [Bool.and_eq_true] at h ⊢
  obtain ⟨⟨path, version⟩, selects⟩ := h
  obtain ⟨d, there, authentic⟩ := Option.any_eq_true _ _ |>.mp version
  refine ⟨⟨path, ?_⟩, by rwa [config]⟩
  rw [retains _ _ there]
  exact authentic

lemma Paired.mono (h : Paired c s) (triple : t.triple = s.triple) (retains : Retains s t) :
    Paired c t := by
  simp only [State.triple, Prod.mk.injEq] at triple
  obtain ⟨active, rollback, config⟩ := triple
  cases h with
  | absent none_ none_' => exact .absent (active.trans none_) (rollback.trans none_')
  | present active' rollback' binds authentic =>
    exact .present (active.trans active') (rollback.trans rollback') binds
      (activeAuthentic_mono retains config authentic)

lemma Paired.activeValid (h : Paired c s) : s.activeValid c := by
  intro a at_
  cases h with
  | absent active _ =>
    rw [active] at at_
    cases at_
  | present active _ _ authentic =>
    rw [active] at at_
    cases at_
    exact authentic

/-- What holds beside a journal. -/
structure Held (c : Target) (s : State) (j : Journal) : Prop where
  held : s.holds j
  same : j.newActive.requestId = j.requestId
  binds : j.newRollback.binds j.newActive = true
  prior : Paired c (s.put (j.at .prior))
  phase : ∃ p, s.triple = j.at p ∧ (p = .active → j.checkpoint = .prepared)
  ended : ∀ failure, j.checkpoint.failure = some failure → s.triple = j.at .prior
  fresh : s.terminal = none → ¬s.recorded j.requestId
  known : ∀ a, j.priorActive = some a → s.recorded a.requestId
  terminal : ∀ x, s.terminal = some x →
    ∃ o, x = .whole o ∧ o.requestId = j.requestId ∧ Paired c s

/-- What holds in every state of a run. -/
structure Coherent (c : Target) (s : State) : Prop where
  paired : s.journal = none → Paired c s
  known : s.journal = none → ∀ a, s.active = some a → s.recorded a.requestId
  held : ∀ x, s.journal = some x → ∃ j, Held c s j

lemma Coherent.of_held (h : Held c s j) : Coherent c s := by
  have journal : s.journal ≠ none := by
    rw [h.held]
    rintro ⟨⟩
  exact ⟨fun free => absurd free journal, fun free => absurd free journal, fun _ _ => ⟨j, h⟩⟩

lemma Coherent.of_journal (h : Coherent c s) (held : s.holds j) : Held c s j := by
  obtain ⟨j', h'⟩ := h.held _ held
  rwa [held.unique h'.held]

/-- A move that changes neither the records, the configuration nor the journal. -/
lemma Coherent.still (h : Coherent c s) (triple : t.triple = s.triple) (journal : t.journal = s.journal)
    (terminal : t.terminal = s.terminal) (grows : ∀ r, s.recorded r → t.recorded r)
    (fresh : t.terminal = none → ∀ r, t.recorded r → s.recorded r) (retains : Retains s t) :
    Coherent c t := by
  have active : t.active = s.active := congrArg Prod.fst triple
  refine ⟨fun free => ?_, fun free a at_ => ?_, fun x at_ => ?_⟩
  · exact (h.paired (journal ▸ free)).mono triple retains
  · exact grows _ (h.known (journal ▸ free) a (active ▸ at_))
  · obtain ⟨j, held⟩ := h.held x (journal ▸ at_)
    refine ⟨j, ?_, held.same, held.binds, ?_, ?_, ?_, fun free recorded => ?_, ?_, ?_⟩
    · exact journal.trans held.held
    · exact held.prior.mono rfl retains
    · rw [triple]
      exact held.phase
    · rw [triple]
      exact held.ended
    · exact held.fresh (terminal ▸ free) (fresh free _ recorded)
    · exact fun a at_ => grows _ (held.known a at_)
    · intro x there
      obtain ⟨o, whole, same, paired⟩ := held.terminal x (terminal ▸ there)
      exact ⟨o, whole, same, paired.mono triple retains⟩

lemma recorded_of_kept (h : Kept s t) (r : String) : t.recorded r ↔ s.recorded r := by
  rw [State.recorded, State.recorded, State.archived, State.archived, h.terminal, h.history]

lemma Coherent.quiet (h : Coherent c s) (triple : t.triple = s.triple)
    (journal : t.journal = s.journal) (kept : Kept s t) (retains : Retains s t) : Coherent c t :=
  h.still triple journal kept.terminal (fun r => (recorded_of_kept kept r).mpr)
    (fun _ r => (recorded_of_kept kept r).mp) retains

/-- A change of the records or of the journal's checkpoint, without a terminal record. -/
lemma Held.change {x : Option Active × Option Rollback × Data} {p : Checkpoint} (h : Held c s j)
    (free : s.terminal = none) (phase : ∃ q, x = j.at q ∧ (q = .active → p = .prepared))
    (ended : ∀ failure, p.failure = some failure → x = j.at .prior) :
    Held c { s.put x with journal := some (.whole { j with checkpoint := p }) }
      { j with checkpoint := p } := by
  refine ⟨rfl, h.same, h.binds, ?_, phase, ended, h.fresh, h.known, fun x there => ?_⟩
  · exact h.prior.mono rfl fun _ _ there => there
  · have there : s.terminal = some x := there
    rw [free] at there
    cases there

/-- A change of the records alone. -/
lemma Held.put {x : Option Active × Option Rollback × Data} (h : Held c s j)
    (free : s.terminal = none) (phase : ∃ q, x = j.at q ∧ (q = .active → j.checkpoint = .prepared))
    (ended : ∀ failure, j.checkpoint.failure = some failure → x = j.at .prior) :
    Held c (s.put x) j := by
  have changed := h.change free phase ended
  have same : { s.put x with journal := some (.whole j) } = s.put x := by
    have held : s.journal = some (.whole j) := h.held
    rw [← held]
    rfl
  rwa [← same]

/-- The active record is that before the activation or the new one. -/
lemma Held.active (h : Held c s j) : s.active = j.priorActive ∨ s.active = some j.newActive := by
  obtain ⟨p, at_, -⟩ := h.phase
  have active : s.active = (j.at p).1 := congrArg Prod.fst at_
  cases p with
  | prior | restoring => exact .inl active
  | active | records | config => exact .inr active

/-- The terminal record beside a journal is that of its request. -/
lemma Held.ends (h : Held c s j) {o : Terminal} (there : s.terminal = some (.whole o)) :
    o.requestId = j.requestId ∧ Paired c s := by
  obtain ⟨o', whole, ends⟩ := h.terminal _ there
  cases whole
  exact ends

lemma Held.recorded (h : Held c s j) {o : Terminal} (there : s.terminal = some (.whole o)) (a : Active)
    (at_ : s.active = some a) : s.recorded a.requestId := by
  rcases h.active with prior | new
  · exact h.known a (prior.symm.trans at_)
  · rw [at_] at new
    cases new
    exact .inl ⟨o, there, (h.ends there).1.trans h.same.symm⟩

/-- An active record of the activated request is the new one, beside the new rollback record. -/
lemma Held.completes (h : Held c s j) (free : s.terminal = none) {a : Active}
    (active : s.active = some a) (same : a.requestId = j.requestId)
    (done : j.checkpoint ≠ .prepared) : a = j.newActive ∧ s.rollback = some j.newRollback := by
  have other : j.priorActive ≠ some a := fun prior =>
    h.fresh free (same ▸ h.known a prior)
  obtain ⟨p, at_, first⟩ := h.phase
  have active' : s.active = (j.at p).1 := congrArg Prod.fst at_
  have rollback : s.rollback = (j.at p).2.1 := congrArg (·.2.1) at_
  rw [active] at active'
  cases p with
  | prior | restoring => exact absurd active'.symm other
  | active => exact absurd (first rfl) done
  | records | config =>
    cases active'
    exact ⟨rfl, rollback⟩

lemma journalBound_same (h : c.journalBound j = true) : j.newActive.requestId = j.requestId := by
  simp only [Target.journalBound, Bool.and_eq_true, decide_eq_true_eq] at h
  tauto

lemma Held.begun (h : Coherent c s) (begins : Begins c s j) (free : s.terminal = none)
    (fresh : ¬s.recorded j.requestId) : Held c { s with journal := some (.whole j) } j := by
  have active : s.active = j.priorActive := congrArg Prod.fst begins.prior
  refine ⟨rfl, journalBound_same begins.bound, begins.binds, ?_, ⟨.prior, begins.prior, ?_⟩,
    fun _ _ => begins.prior, fun _ => fresh, fun a at_ => ?_, fun x there => ?_⟩
  · rw [← begins.prior]
    exact (h.paired begins.free).mono rfl fun _ _ there => there
  · rintro ⟨⟩
  · exact h.known begins.free a (active.trans at_)
  · have there : s.terminal = some x := there
    rw [free] at there
    cases there

/-- The configuration before the activation is put back. -/
lemma Held.restoreConfig (h : Held c s j) (free : s.terminal = none) :
    Held c { s with config := j.priorConfig } j := by
  obtain ⟨p, at_, first⟩ := h.phase
  refine h.put (x := (s.active, s.rollback, j.priorConfig)) free ?_ fun failure ended => ?_
  · have active : s.active = (j.at p).1 := congrArg Prod.fst at_
    have rollback : s.rollback = (j.at p).2.1 := congrArg (·.2.1) at_
    rw [active, rollback]
    cases p with
    | config => exact ⟨.records, rfl, by rintro ⟨⟩⟩
    | prior => exact ⟨.prior, rfl, first⟩
    | active => exact ⟨.active, rfl, first⟩
    | records => exact ⟨.records, rfl, first⟩
    | restoring => exact ⟨.restoring, rfl, first⟩
  · have prior := h.ended failure ended
    simp only [State.triple, Journal.at, Prod.mk.injEq] at prior
    simp [Journal.at, prior]

/-- The active record before the activation is put back. -/
lemma Held.restoreActive (h : Held c s j) (free : s.terminal = none)
    (config : s.config = j.priorConfig) : Held c { s with active := j.priorActive } j := by
  obtain ⟨p, at_, -⟩ := h.phase
  refine h.put (x := (j.priorActive, s.rollback, s.config)) free ?_ fun failure ended => ?_
  · have rollback : s.rollback = (j.at p).2.1 := congrArg (·.2.1) at_
    rw [rollback, config]
    cases p with
    | prior | active => exact ⟨.prior, rfl, by rintro ⟨⟩⟩
    | records | config | restoring => exact ⟨.restoring, rfl, by rintro ⟨⟩⟩
  · have prior := h.ended failure ended
    simp only [State.triple, Journal.at, Prod.mk.injEq] at prior
    simp [Journal.at, prior]

/-- The rollback record before the activation is put back. -/
lemma Held.restoreRollback (h : Held c s j) (free : s.terminal = none)
    (config : s.config = j.priorConfig) (active : s.active = j.priorActive) :
    Held c { s with rollback := j.priorRollback } j := by
  have prior : (s.active, j.priorRollback, s.config) = j.at .prior := by
    rw [config, active]
    rfl
  exact h.put free ⟨.prior, prior, by rintro ⟨⟩⟩ fun _ _ => prior

/-- A failure is published over the pair before the activation. -/
lemma Held.failed (h : Held c s j) {failure : Failure} (ended : j.checkpoint.failure = some failure) :
    Paired c s := by
  have prior : s.put (j.at .prior) = s := by
    rw [← h.ended failure ended]
    rfl
  have paired := h.prior
  rwa [prior] at paired

/-- A terminal record is written over a pair. -/
lemma Held.publish (h : Held c s j) {o : Terminal} (same : o.requestId = j.requestId)
    (paired : Paired c s) : Held c { s with terminal := some (.whole o) } j := by
  refine ⟨h.held, h.same, h.binds, h.prior.mono rfl fun _ _ there => there, h.phase, h.ended, ?_,
    fun a at_ => ?_, fun x there => ?_⟩
  · rintro ⟨⟩
  · rcases h.known a at_ with ⟨o', there, same'⟩ | archived
    · -- a record in the slot is that of the activated request itself
      exact .inl ⟨o, rfl, same.trans ((h.ends there).1.symm.trans same')⟩
    · exact .inr archived
  · cases there
    exact ⟨o, rfl, same, paired.mono rfl fun _ _ there => there⟩

lemma Coherent.freed (h : Held c s j) {o : Terminal} (there : s.terminal = some (.whole o)) :
    Coherent c { s with journal := none } := by
  refine ⟨fun _ => (h.ends there).2.mono rfl fun _ _ there => there, fun _ => ?_, ?_⟩
  · exact h.recorded there
  · rintro x ⟨⟩

/-- Every move that is allowed keeps the records coherent. -/
theorem move_coherent {l : Label} (move : Move c l s t) (may : Sequential l s) (h : Coherent c s) :
    Coherent c t := by
  have grows := fun r => (move_grows move).recorded (r := r)
  have retains := move_retains move
  cases move with
  | begins begins => exact .of_held (.begun h begins may.1 may.2)
  | @advance _ j p q held live first at_ next =>
    refine .of_held ((h.of_journal held).put may ⟨q, rfl, ?_⟩ ?_)
    · rintro rfl
      cases p with
      | prior => exact first.resolve_left (by rintro ⟨⟩)
      | active | records | config | restoring => cases next
    · intro failure ended
      rw [live] at ended
      cases ended
  | @checkpoint _ j p held live past next =>
    refine .of_held ((h.of_journal held).change (x := s.triple) may ?_ ?_)
    · rcases past with records | config
      · exact ⟨.records, records, by rintro ⟨⟩⟩
      · exact ⟨.config, config, by rintro ⟨⟩⟩
    · intro failure ended
      rw [next] at ended
      cases ended
  | restoreConfig held at_ => exact .of_held ((h.of_journal held).restoreConfig may)
  | restoreActive held config at_ => exact .of_held ((h.of_journal held).restoreActive may config)
  | restoreRollback held config active at_ =>
    exact .of_held ((h.of_journal held).restoreRollback may config active)
  | @restored _ j held at_ =>
    exact .of_held ((h.of_journal held).change (x := s.triple) may ⟨.prior, at_, by rintro ⟨⟩⟩
      fun _ _ => at_)
  | fail held ended absent =>
    have held := h.of_journal held
    exact .of_held (held.publish rfl (held.failed ended))
  | complete held done active same authentic absent =>
    have held := h.of_journal held
    obtain ⟨rfl, rollback⟩ := held.completes absent active same (by rw [done]; rintro ⟨⟩)
    exact .of_held (held.publish rfl (.present active rollback held.binds authentic))
  | history absent =>
    refine h.still rfl rfl rfl grows (fun _ r recorded => ?_) retains
    rcases recorded with terminal | archived
    · exact .inl terminal
    · simp [State.archived] at archived
  | archive terminal valid history absent =>
    refine h.still rfl rfl rfl grows (fun free => ?_) retains
    have free : s.terminal = none := free
    rw [terminal] at free
    cases free
  | close held terminal same archived => exact .freed (h.of_journal held) terminal
  | resume held terminal same done => exact .freed (h.of_journal held) terminal
  | retire free terminal archived =>
    refine ⟨fun _ => (h.paired free).mono rfl retains, fun _ a at_ => ?_, fun x at_ => ?_⟩
    · exact grows _ (h.known free a at_)
    · have at_ : s.journal = some x := at_
      rw [free] at at_
      cases at_
  | service o =>
    obtain ⟨r, m, same⟩ := served_command s o
    rw [same] at retains ⊢
    exact h.quiet rfl rfl ⟨rfl, rfl⟩ retains
  | listener | root | files | publish => exact h.quiet rfl rfl ⟨rfl, rfl⟩ retains

/-- A command takes moves of one command at a time from a coherent state. -/
lemma does_sequential {o : Invocation} (h : Coherent c s) :
    Does c k Sequential (o.program c) Any s := by
  have drives : ∀ t, t.terminal = none → Drives Sequential t := fun t free =>
    ⟨fun _ kept => kept.terminal.trans free, fun _ kept => kept.terminal.trans free, fun _ => trivial⟩
  have moves : ∀ t, t.terminal = none → Moves Sequential t := fun t free =>
    ⟨fun _ kept => kept.terminal.trans free, fun _ => trivial, fun _ => trivial, fun _ => trivial,
      fun _ => trivial⟩
  refine does_invocation (fun check => ?_) (fun j held fresh => ?_) (fun check _ => ?_)
    (fun _ _ => trivial) (fun check => ?_) fun _ => trivial
  · exact ⟨fun _ _ => trivial, fun _ _ => trivial, fun _ => drives, fun _ _ _ free fresh => ⟨free, fresh⟩,
      fun _ => ⟨fun _ => trivial, fun _ => trivial⟩⟩
  · -- a terminal record beside the journal would be that of its request
    refine moves s (Option.eq_none_iff_forall_not_mem.mpr fun x there => fresh ?_)
    obtain ⟨o, rfl, same, -⟩ := (h.of_journal held).terminal x there
    exact .inl ⟨o, there, same⟩
  · exact ⟨fun _ _ => trivial, fun _ => moves s, fun _ _ _ => trivial, fun _ _ _ => trivial⟩
  · exact ⟨fun _ => trivial, fun _ => moves, fun _ _ => trivial⟩

theorem reaches_coherent (whole : ¬k.tears) (start : Coherent c s) (run : Reaches c k Always s t) :
    Coherent c t := by
  induction run with
  | refl => exact start
  | elsewhere _ other ih =>
    obtain ⟨p, q, r, m, n, e, rfl⟩ := other
    exact ih.quiet rfl rfl ⟨rfl, rfl⟩ fun _ _ there => there
  | command _ _ run ih =>
    refine wp_killed (wp_invariant (fun _ s t hs step => ?_) ih (does_sequential ih)) ih run
    rcases step with rfl | ⟨l, may, move⟩ | ⟨tears, -⟩
    · exact hs
    · exact move_coherent move may hs
    · exact absurd tears whole

/-- A state root without lifecycle records. -/
structure Fresh (s : State) : Prop where
  active : s.active = none
  rollback : s.rollback = none
  journal : s.journal = none

lemma Fresh.coherent (h : Fresh s) : Coherent c s := by
  refine ⟨fun _ => .absent h.active h.rollback, fun _ a at_ => ?_, fun x at_ => ?_⟩
  · rw [h.active] at at_
    cases at_
  · rw [h.journal] at at_
    cases at_

/-- In every journal-free state that is reached from a state root without records, the active and
the rollback record are both absent or bind one authentic activation. -/
theorem active_rollback_paired (whole : ¬k.tears) (start : Fresh s) (run : Reaches c k Always s t)
    (free : t.journal = none) : Paired c t :=
  (reaches_coherent whole start.coherent run).paired free

theorem active_rollback_paired_completed :
    Paired registry (ran (.activateComplete false) validated) := by
  have reached : Reaches registry untorn Always unissued (ran (.activateComplete false) validated) :=
    .ran trivial (validated_reached fun _ _ _ => trivial) trivial
  exact active_rollback_paired (fun h => h) ⟨rfl, rfl, rfl⟩ reached (by decide +kernel)

end PlatformConfig.Lifecycle
