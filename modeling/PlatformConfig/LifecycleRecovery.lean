import PlatformConfig.LifecyclePair

/-!
# Recovery of an interrupted activation

An activation that is killed anywhere, in its start, its completion or a recovery of it, leaves a
state that the next uninterrupted recovery brings to one of two ends: the new records and the new
configuration under a complete terminal record, or those before the activation.
-/
namespace PlatformConfig.Lifecycle

open CrashProgram CrashDisk Prog

variable {c : Target} {k : Conditions} {s t u : State} {j : Journal}

/-! ## Terminal records account for the state -/

/-- The digests of a terminal record are those of the version of its request. -/
def State.supports (s : State) (c : Target) (o : Terminal) : Prop :=
  ∃ d, s.versions.lookup (.version o.requestId) = some d ∧
    ∀ leaf, o.bindsCandidate (c.validated (d.contents responseNames) leaf) = true

/-- A terminal record that accounts for the active record, the history and the version. -/
structure Recorded (c : Target) (s : State) (o : Terminal) : Prop where
  valid : o.wellFormed = true
  agrees : o.agrees s.active = true
  settled : ¬s.conflicts o
  supports : s.supports c o

structure Accounted (c : Target) (s : State) : Prop where
  terminal : ∀ x, s.terminal = some x → ∃ o, x = .whole o ∧ Recorded c s o
  bound : ∀ j, s.holds j → c.journalBound j = true
  names : ∀ j, s.holds j → ∃ d, s.versions.lookup (.version j.requestId) = some d ∧ c.journalNames j d

/-- The terminal slot and the records that it is checked against are the same. -/
lemma Recorded.mono {o : Terminal} (h : Recorded c s o) (active : t.active = s.active)
    (archived : ∀ x, t.archived o.requestId = some x → s.archived o.requestId = some x ∨ x = .whole o)
    (retains : Retains s t) : Recorded c t o := by
  refine ⟨h.valid, by rw [active]; exact h.agrees, ?_, ?_⟩
  · rintro ⟨x, there, other⟩
    rcases archived x there with old | same
    · exact h.settled ⟨x, old, other⟩
    · exact other same
  · obtain ⟨d, there, binds⟩ := h.supports
    exact ⟨d, retains _ _ there, binds⟩

lemma Accounted.still (h : Accounted c s) (active : t.active = s.active)
    (terminal : t.terminal = s.terminal) (journal : ∀ j, t.holds j → s.holds j)
    (archived : ∀ o, s.terminal = some (.whole o) → ∀ x, t.archived o.requestId = some x →
      s.archived o.requestId = some x ∨ x = .whole o)
    (retains : Retains s t) : Accounted c t := by
  refine ⟨fun x at_ => ?_, fun j held => h.bound j (journal j held), fun j held => ?_⟩
  · rw [terminal] at at_
    obtain ⟨o, rfl, recorded⟩ := h.terminal x at_
    exact ⟨o, rfl, recorded.mono active (archived o at_) retains⟩
  · obtain ⟨d, there, names⟩ := h.names j (journal j held)
    exact ⟨d, retains _ _ there, names⟩

/-- A state without a terminal record. -/
lemma Accounted.open (h : Accounted c s) (free : t.terminal = none) (retains : Retains s t)
    (journal : ∀ j, t.holds j → ∃ p, s.holds { j with checkpoint := p }) : Accounted c t := by
  refine ⟨fun x at_ => ?_, fun j held => ?_, fun j held => ?_⟩
  · rw [free] at at_
    cases at_
  · obtain ⟨p, held⟩ := journal j held
    have bound := h.bound _ held
    exact bound
  · obtain ⟨p, held⟩ := journal j held
    obtain ⟨d, there, names⟩ := h.names _ held
    exact ⟨d, retains _ _ there, names⟩

/-- A terminal record is written for the activation of the journal. -/
lemma Accounted.publish {o : Terminal} (h : Accounted c s) (coherent : Coherent c s)
    (held : s.holds j) (free : s.terminal = none) {state : TerminalState} {proof : Option Proof}
    (made : o = targetTerminal j state proof) (valid : o.wellFormed = true)
    (agrees : o.agrees s.active = true) : Accounted c { s with terminal := some (.whole o) } := by
  subst made
  refine ⟨fun x at_ => ?_, h.bound, h.names⟩
  cases at_
  refine ⟨_, rfl, valid, agrees, ?_, h.names j held⟩
  rintro ⟨x, there, -⟩
  refine (coherent.of_journal held).fresh free (.inr ?_)
  have there : s.archived j.requestId = some x := there
  rw [there]
  rfl

/-- The active record before an activation is not that of its request. -/
lemma Held.prior_ne (h : Held c s j) (free : s.terminal = none) {a : Active}
    (at_ : j.priorActive = some a) : a.requestId ≠ j.requestId := by
  intro same
  exact h.fresh free (same ▸ h.known a at_)

lemma journalBound_certificate (h : c.journalBound j = true) :
    j.newActive.certificateSha256 = j.targetCertificateSha256 := by
  simp only [Target.journalBound, Bool.and_eq_true, decide_eq_true_eq] at h
  tauto

theorem move_accounted {l : Label} (move : Move c l s t) (may : Sequential l s)
    (coherent : Coherent c s) (h : Accounted c s) : Accounted c t := by
  have retains := move_retains move
  have same : ∀ o : Terminal, s.terminal = some (.whole o) → ∀ x, s.archived o.requestId = some x →
      s.archived o.requestId = some x ∨ x = .whole o := fun _ _ _ there => .inl there
  cases move with
  | @begins _ j begins =>
    refine ⟨fun x at_ => ?_, fun j' held => ?_, fun j' held => ?_⟩
    · have at_ : s.terminal = some x := at_
      rw [may.1] at at_
      cases at_
    · obtain rfl : j' = j := State.holds.unique held rfl
      exact begins.bound
    · obtain rfl : j' = j := State.holds.unique held rfl
      obtain ⟨d, there, -, names⟩ := begins.version
      exact ⟨d, (Option.filter_eq_some_iff.mp there).1, names⟩
  | advance held | restoreConfig held | restoreActive held | restoreRollback held =>
    exact h.open may retains fun j held => ⟨j.checkpoint, held⟩
  | @checkpoint _ j p held live past next =>
    refine h.open may retains fun j' held' => ⟨j.checkpoint, ?_⟩
    obtain rfl : j' = { j with checkpoint := p } := State.holds.unique held' rfl
    exact held
  | @restored _ j held at_ =>
    refine h.open may retains fun j' held' => ⟨j.checkpoint, ?_⟩
    obtain rfl : j' = { j with checkpoint := j.restored.checkpoint } := State.holds.unique held' rfl
    exact held
  | @fail _ j failure held ended absent =>
    have held_ := coherent.of_journal held
    refine h.publish coherent held absent rfl (by cases failure <;> rfl) ?_
    have active : s.active = j.priorActive := congrArg Prod.fst (held_.ended failure ended)
    have other : failure.state ≠ .complete := by cases failure <;> rintro ⟨⟩
    cases at_ : j.priorActive with
    | none => simp [Terminal.agrees, active, at_, targetTerminal, other]
    | some a => simp [Terminal.agrees, active, at_, targetTerminal, other, held_.prior_ne absent at_]
  | @complete _ j a proof held done active same' authentic absent =>
    have held_ := coherent.of_journal held
    obtain ⟨rfl, -⟩ := held_.completes absent active same' (by rw [done]; rintro ⟨⟩)
    refine h.publish coherent held absent rfl rfl ?_
    simp [Terminal.agrees, active, targetTerminal, same', journalBound_certificate (h.bound j held)]
  | history absent =>
    refine h.still rfl rfl (fun _ held => held) (fun o there x at_ => ?_) retains
    simp [State.archived] at at_
  | @archive _ o h' terminal valid history absent =>
    refine h.still rfl rfl (fun _ held => held) (fun o' there x at_ => .inr ?_) retains
    rw [terminal] at there
    cases there
    have at_ : (h'.insert o.requestId (.whole o)).lookup o.requestId = some x := at_
    rw [AList.lookup_insert] at at_
    cases at_
    rfl
  | close | resume => exact h.still rfl rfl (by rintro j ⟨⟩) same retains
  | retire => exact h.open rfl retains fun j held => ⟨j.checkpoint, held⟩
  | service o =>
    obtain ⟨r, m, same'⟩ := served_command s o
    rw [same'] at retains ⊢
    exact h.still rfl rfl (fun _ held => held) same retains
  | listener | root | files | publish =>
    exact h.still rfl rfl (fun _ held => held) same retains

theorem reaches_accounted (whole : ¬k.tears) (coherent : Coherent c s) (accounted : Accounted c s)
    (run : Reaches c k Always s t) : Accounted c t := by
  suffices both : Coherent c t ∧ Accounted c t from both.2
  induction run with
  | refl => exact ⟨coherent, accounted⟩
  | elsewhere _ other ih =>
    obtain ⟨p, q, r, m, n, e, rfl⟩ := other
    exact ⟨ih.1.quiet rfl rfl ⟨rfl, rfl⟩ fun _ _ there => there,
      ih.2.still rfl rfl (fun _ held => held) (fun _ _ _ there => .inl there) fun _ _ there => there⟩
  | command _ _ run ih =>
    refine wp_killed (C := fun t => Coherent c t ∧ Accounted c t)
      (wp_invariant (fun _ s t hs step => ?_) ih (does_sequential ih.1)) ih run
    rcases step with rfl | ⟨l, may, move⟩ | ⟨tears, -⟩
    · exact hs
    · exact ⟨move_coherent move may hs.1, move_accounted move may hs.1 hs.2⟩
    · exact absurd tears whole

/-! ## The transaction of one activation -/

/-- A state between the start of an activation from `s` and the end of its journal. -/
structure Transaction (c : Target) (s t : State) (j : Journal) : Prop where
  held : t.holds j
  begun : ∃ v, Begins c v { j with checkpoint := .prepared }
  prior : j.at .prior = s.triple
  new : ¬s.recorded j.requestId
  complete : ∀ o, t.terminal = some (.whole o) → o.state = .complete → t.triple = j.at .config
  failed : ∀ o, t.terminal = some (.whole o) → o.state ≠ .complete → t.triple = s.triple

/-- The ends of an activation from `s`: it never began, it is complete with the new records and the
new configuration, or it failed with those before it. -/
inductive Settled (c : Target) (s t : State) : Prop
  | unbegun (triple : t.triple = s.triple) (records : ∀ r, t.recorded r ↔ s.recorded r) : Settled c s t
  | complete {j : Journal} {o : Terminal} (begun : ∃ v, Begins c v { j with checkpoint := .prepared })
      (prior : j.at .prior = s.triple) (new : ¬s.recorded j.requestId)
      (terminal : t.terminal = some (.whole o)) (same : o.requestId = j.requestId)
      (state : o.state = .complete) (triple : t.triple = j.at .config) : Settled c s t
  | failed {j : Journal} {o : Terminal} (begun : ∃ v, Begins c v { j with checkpoint := .prepared })
      (prior : j.at .prior = s.triple) (new : ¬s.recorded j.requestId)
      (terminal : t.terminal = some (.whole o)) (same : o.requestId = j.requestId)
      (state : o.state ≠ .complete) (triple : t.triple = s.triple) : Settled c s t

/-- The moves of an activation that starts without a journal. -/
def Starts : Label → State → Prop
  | .begins r, s => s.terminal = none ∧ ¬s.recorded r
  | .forward, s => s.terminal = none
  | .restore, s => s.terminal = none
  | .service, _ => True
  | .listener, _ => True
  | .archive, _ => True
  | .retire, _ => True
  | _, _ => False

/-- The moves of a completion of an activation, and of a recovery. -/
def Ends : Label → State → Prop
  | .restore, s => s.terminal = none
  | .success, s => ∀ j, s.holds j → s.triple = j.at .config
  | .failure, _ => True
  | .close, _ => True
  | .service, _ => True
  | .archive, _ => True
  | _, _ => False

lemma Starts.sequential {l : Label} (h : Starts l s) : Sequential l s := by
  cases l with
  | begins | forward | restore => exact h
  | _ => trivial

lemma Ends.sequential {l : Label} (h : Ends l s) : Sequential l s := by
  cases l with
  | begins | forward => exact h.elim
  | restore => exact h
  | _ => trivial

/-- A transaction goes on under every move, until its journal is removed. -/
theorem move_transaction {l : Label} (move : Move c l t u) (may : Sequential l t)
    (exact_ : l = .success → t.triple = j.at .config) (coherent : Coherent c t)
    (h : Transaction c s t j) : (∃ j', Transaction c s u j') ∨
      (u.journal = none ∧ Settled c s u ∧ (l = .close ∨ l = .resume)) := by
  have still : u.triple = t.triple → u.journal = t.journal → u.terminal = t.terminal →
      Transaction c s u j := by
    intro triple journal terminal
    refine ⟨journal.trans h.held, h.begun, h.prior, h.new, fun o there => ?_, fun o there => ?_⟩
    · rw [triple]
      exact h.complete o (terminal ▸ there)
    · rw [triple]
      exact h.failed o (terminal ▸ there)
  -- without a terminal record, nothing has to be shown of the records
  have open_ : ∀ p, u.journal = some (.whole { j with checkpoint := p }) → u.terminal = none →
      ∃ j', Transaction c s u j' := by
    intro p journal free
    have absent : ∀ o : Terminal, u.terminal ≠ some (.whole o) := by
      intro o there
      rw [free] at there
      cases there
    exact ⟨_, journal, h.begun, h.prior, h.new, fun o there => absurd there (absent o),
      fun o there => absurd there (absent o)⟩
  have held_ := coherent.of_journal h.held
  have freed : ∀ o, t.terminal = some (.whole o) → u = { t with journal := none } →
      Settled c s u := by
    rintro o there rfl
    by_cases complete : o.state = .complete
    · exact .complete h.begun h.prior h.new there (held_.ends there).1 complete (h.complete o there complete)
    · exact .failed h.begun h.prior h.new there (held_.ends there).1 complete (h.failed o there complete)
  cases move with
  | begins begins =>
    have held := h.held
    rw [State.holds, begins.free] at held
    cases held
  | advance held | restoreConfig held | restoreActive held | restoreRollback held =>
    exact .inl (open_ j.checkpoint h.held may)
  | checkpoint held | restored held =>
    obtain rfl := held.unique h.held
    exact .inl (open_ _ rfl may)
  | @fail _ j' failure held ended absent =>
    obtain rfl := held.unique h.held
    have prior := (held_.ended failure ended).trans h.prior
    refine .inl ⟨j', h.held, h.begun, h.prior, h.new, fun o there complete => ?_, fun _ _ _ => prior⟩
    cases there
    cases failure <;> cases complete
  | @complete _ j' a proof held done active same authentic absent =>
    obtain rfl := held.unique h.held
    refine .inl ⟨j', h.held, h.begun, h.prior, h.new, fun _ _ _ => exact_ rfl, fun o there failed => ?_⟩
    cases there
    exact absurd rfl failed
  | history | archive | listener | root | files | publish => exact .inl ⟨j, still rfl rfl rfl⟩
  | service o =>
    obtain ⟨r, m, same⟩ := served_command t o
    rw [same] at still ⊢
    exact .inl ⟨j, still rfl rfl rfl⟩
  | close held terminal =>
    exact .inr ⟨rfl, freed _ terminal rfl, .inl rfl⟩
  | resume held terminal =>
    exact .inr ⟨rfl, freed _ terminal rfl, .inr rfl⟩
  | retire free =>
    have held := h.held
    rw [State.holds, free] at held
    cases held

/-- What holds throughout an activation from `s`, where `F` holds as long as there is no journal. -/
structure Through (c : Target) (s : State) (F : State → Prop) (t : State) : Prop where
  coherent : Coherent c t
  accounted : Accounted c t
  clean : t.leftovers = 0
  free : t.journal = none → F t
  transaction : ∀ x, t.journal = some x → ∃ j, Transaction c s t j

lemma move_clean {l : Label} (move : Move c l s t) : t.leftovers = s.leftovers := by
  cases move with
  | service o =>
    obtain ⟨r, m, same⟩ := served_command s o
    rw [same]
  | _ => rfl

/-- The activation from `s` has not begun. -/
def Untouched (s t : State) : Prop := t.triple = s.triple ∧ ∀ r, t.recorded r ↔ s.recorded r

lemma archive_recorded (move : Move c .archive s t) (r : String) (h : t.recorded r) : s.recorded r := by
  cases move with
  | history absent =>
    rcases h with terminal | archived
    · exact .inl terminal
    · simp [State.archived] at archived
  | @archive _ o h' terminal valid history absent =>
    rcases h with there | archived
    · exact .inl there
    · by_cases same : r = o.requestId
      · exact .inl ⟨o, terminal, same.symm⟩
      · refine .inr ?_
        have archived : ((h'.insert o.requestId (.whole o)).lookup r).isSome := archived
        rw [AList.lookup_insert_ne same] at archived
        simpa [State.archived, history] using archived

lemma archive_terminal (move : Move c .archive s t) : t.terminal = s.terminal := by
  cases move <;> rfl

lemma retire_recorded (move : Move c .retire s t) (r : String) (h : t.recorded r) : s.recorded r := by
  cases move with
  | retire free terminal archived =>
    rcases h with ⟨o, there, -⟩ | archived
    · cases there
    · exact .inr archived

/-- Without a journal, a move begins an activation or leaves the records as they are. -/
lemma move_free {l : Label} (move : Move c l t u) (free : t.journal = none) :
    (∃ j, Begins c t j ∧ l = .begins j.requestId ∧ u = { t with journal := some (.whole j) }) ∨
      (u.journal = none ∧ u.triple = t.triple ∧ (Kept t u ∨ l = .archive ∨ l = .retire)) := by
  have unheld : ∀ {j}, t.holds j → False := by
    intro j held
    rw [State.holds, free] at held
    cases held
  cases move with
  | begins begins => exact .inl ⟨_, begins, rfl, rfl⟩
  | advance held | checkpoint held | restoreConfig held | restoreActive held | restoreRollback held
  | restored held | fail held | complete held | close held | resume held => exact (unheld held).elim
  | history | archive => exact .inr ⟨free, rfl, .inr (.inl rfl)⟩
  | retire => exact .inr ⟨free, rfl, .inr (.inr rfl)⟩
  | service o =>
    have served := served_command t o
    obtain ⟨r, m, same⟩ := served
    rw [same]
    exact .inr ⟨free, rfl, .inl ⟨rfl, rfl⟩⟩
  | listener | root | files | publish => exact .inr ⟨free, rfl, .inl ⟨rfl, rfl⟩⟩

/-- The part of a step that is common to the start of an activation and to its end. -/
lemma Through.step {F G : State → Prop} {l : Label} (move : Move c l t u) (may : Sequential l t)
    (h : Through c s F t) (free : u.journal = none → G u)
    (transaction : ∀ x, u.journal = some x → ∃ j, Transaction c s u j) : Through c s G u :=
  ⟨move_coherent move may h.coherent, move_accounted move may h.coherent h.accounted,
    (move_clean move).trans h.clean, free, transaction⟩

lemma Transaction.some (h : Transaction c s t j) (free : t.journal = none) : False := by
  have held := h.held
  rw [State.holds, free] at held
  cases held

theorem move_starts {l : Label} (move : Move c l t u) (may : Starts l t)
    (h : Through c s (Untouched s) t) : Through c s (Untouched s) u := by
  cases journal : t.journal with
  | some x =>
    obtain ⟨j, transaction⟩ := h.transaction x journal
    have next := move_transaction move may.sequential (by rintro rfl; exact may.elim) h.coherent transaction
    rcases next with ⟨j', next⟩ | ⟨-, -, rfl | rfl⟩
    · exact h.step move may.sequential (fun free => (next.some free).elim) fun _ _ => ⟨j', next⟩
    · exact may.elim
    · exact may.elim
  | none =>
    obtain ⟨triple, records⟩ := h.free journal
    rcases move_free move journal with ⟨j, begins, rfl, rfl⟩ | ⟨free, same, kept⟩
    · -- the transaction begins
      have absent : ∀ o : Terminal, t.terminal ≠ some (.whole o) := by
        intro o there
        rw [may.1] at there
        cases there
      refine h.step move may.sequential (by rintro ⟨⟩) fun _ _ => ⟨j, rfl, ⟨t, ?_⟩, ?_, ?_, ?_, ?_⟩
      · have prepared : { j with checkpoint := .prepared } = j := by rw [← begins.prepared]
        rwa [prepared]
      · exact begins.prior.symm.trans triple
      · exact fun recorded => may.2 ((records _).mpr recorded)
      · exact fun o there => absurd there (absent o)
      · exact fun o there => absurd there (absent o)
    · refine h.step move may.sequential (fun _ => ⟨same.trans triple, fun r => ?_⟩) fun x there => ?_
      · rw [← records r]
        refine ⟨fun recorded => ?_, (move_grows move).recorded⟩
        rcases kept with kept | rfl | rfl
        · exact (recorded_of_kept kept r).mp recorded
        · exact archive_recorded move r recorded
        · exact retire_recorded move r recorded
      · rw [free] at there
        cases there

/-- What ends an activation stays when terminal records are archived. -/
lemma Settled.still (h : Settled c s t) (triple : u.triple = t.triple)
    (terminal : u.terminal = t.terminal) (records : ∀ r, u.recorded r ↔ t.recorded r) :
    Settled c s u := by
  cases h with
  | unbegun triple' records' =>
    exact .unbegun (triple.trans triple') fun r => (records r).trans (records' r)
  | complete begun prior new there same state triple' =>
    exact .complete begun prior new (terminal.trans there) same state (triple.trans triple')
  | failed begun prior new there same state triple' =>
    exact .failed begun prior new (terminal.trans there) same state (triple.trans triple')

theorem move_ends {l : Label} (move : Move c l t u) (may : Ends l t)
    (h : Through c s (Settled c s) t) : Through c s (Settled c s) u := by
  cases journal : t.journal with
  | some x =>
    obtain ⟨j, transaction⟩ := h.transaction x journal
    have next := move_transaction move may.sequential (by rintro rfl; exact may j transaction.held)
      h.coherent transaction
    rcases next with ⟨j', next⟩ | ⟨free, settled, -⟩
    · exact h.step move may.sequential (fun free => (next.some free).elim) fun _ _ => ⟨j', next⟩
    · refine h.step move may.sequential (fun _ => settled) fun x there => ?_
      rw [free] at there
      cases there
  | none =>
    rcases move_free move journal with ⟨j, begins, rfl, rfl⟩ | ⟨free, same, kept⟩
    · exact may.elim
    · refine h.step move may.sequential (fun _ => (h.free journal).still same ?_ fun r => ?_)
        fun x there => ?_
      · rcases kept with kept | rfl | rfl
        · exact kept.terminal
        · exact archive_terminal move
        · exact may.elim
      · refine ⟨fun recorded => ?_, (move_grows move).recorded⟩
        rcases kept with kept | rfl | rfl
        · exact (recorded_of_kept kept r).mp recorded
        · exact archive_recorded move r recorded
        · exact may.elim
      · rw [free] at there
        cases there

/-! ## Runs of one activation -/

/-- The states of one activation from `s`: its start, killed anywhere or ended; behind a start that
has reached its local validation, its completion; and recoveries that are killed or end. -/
inductive Activation (c : Target) (k : Conditions) (rollbackSeconds : ℕ) (s : State) : State → Prop
  | start {t : State}
      (run : Killed (disk k).semantics ((Invocation.activateStart false rollbackSeconds).program c) s t) :
      Activation c k rollbackSeconds s t
  | complete {t u : State}
      (started : Exec (disk k).semantics ((Invocation.activateStart false rollbackSeconds).program c) s
        (.ok .localValidated) t)
      (run : Killed (disk k).semantics ((Invocation.activateComplete false).program c) t u) :
      Activation c k rollbackSeconds s u
  | recover {t u : State} (prior : Activation c k rollbackSeconds s t)
      (run : Killed (disk k).semantics ((Invocation.recover false).program c) t u) :
      Activation c k rollbackSeconds s u

/-- A journal-free state whose records are authentic. -/
structure Authentic (c : Target) (s : State) : Prop where
  free : s.journal = none
  clean : s.leftovers = 0
  coherent : Coherent c s
  accounted : Accounted c s

variable {rollbackSeconds : ℕ}

lemma does_starts (free : s.journal = none) :
    Does c k Starts ((Invocation.activateStart false rollbackSeconds).program c)
      (fun out t => out = .ok .localValidated →
        t.terminal = none ∧ ∃ j, t.holds j ∧ t.triple = j.at .config) s := by
  refine does_check (fun _ => by rintro ⟨⟩) fun long => ?_
  have positive : 0 < rollbackSeconds := by
    have long := of_decide_eq_true long
    unfold minRollbackSeconds at long
    omega
  refine does_targetActivateStart positive ?_ (fun _ j held => ?_) (fun _ _ => by rintro ⟨⟩)
    (fun there => ?_) (fun _ => by rintro ⟨⟩) fun j u activated _ => ?_
  · exact ⟨fun _ _ => trivial, fun _ _ => trivial,
      fun _ t free => ⟨fun _ kept => kept.terminal.trans free, fun _ kept => kept.terminal.trans free,
        fun _ => trivial⟩,
      fun _ _ _ free fresh => ⟨free, fresh⟩, fun _ => ⟨fun _ => trivial, fun _ => trivial⟩⟩
  · rw [State.holds, free] at held
    cases held
  · rw [free] at there
    cases there
  · exact ⟨activated.terminal, _, activated.held, activated.triple⟩

lemma ends_moves (free : t.terminal = none) : Moves Ends t :=
  ⟨fun _ kept => kept.terminal.trans free, fun _ => trivial, fun _ => trivial, fun _ => trivial,
    fun _ => trivial⟩

lemma does_completes (terminal : t.terminal = none) (held : t.holds j)
    (config : t.triple = j.at .config) :
    Does c k Ends ((Invocation.activateComplete false).program c) Any t := by
  refine does_targetActivateComplete ⟨fun _ _ => trivial, fun _ => ends_moves, fun _ u served => ?_,
    fun _ o there => ?_⟩ (fun _ _ => trivial) fun _ _ => trivial
  · intro j' held'
    obtain rfl := held'.unique (served.holds held)
    exact served.triple.trans config
  · rw [terminal] at there
    cases there

lemma may_recover {check : Bool} : MayRecover Ends check :=
  ⟨fun _ => trivial, fun _ _ => ends_moves, fun _ _ => trivial⟩

lemma Through.settle (h : Through c s (Untouched s) t) : Through c s (Settled c s) t :=
  ⟨h.coherent, h.accounted, h.clean, fun free => .unbegun (h.free free).1 (h.free free).2, h.transaction⟩

lemma step_invariant {I : State → Prop} {A : Label → State → Prop} (whole : ¬k.tears)
    (keeps : ∀ l s t, I s → A l s → Move c l s t → I t) (s t : State) (hs : I s)
    (step : Step c k A s t) : I t := by
  rcases step with rfl | ⟨l, may, move⟩ | ⟨tears, -⟩
  · exact hs
  · exact keeps l s t hs may move
  · exact absurd tears whole

lemma Authentic.through (h : Authentic c s) : Through c s (Untouched s) s := by
  refine ⟨h.coherent, h.accounted, h.clean, fun _ => ⟨rfl, fun _ => Iff.rfl⟩, fun x at_ => ?_⟩
  rw [h.free] at at_
  cases at_

theorem activation_through (whole : ¬k.tears) (start : Authentic c s)
    (run : Activation c k rollbackSeconds s u) : Through c s (Settled c s) u := by
  have starts := wp_invariant (fun _ => step_invariant whole fun _ _ _ h may move => move_starts move may h)
    start.through (@does_starts c k _ rollbackSeconds start.free)
  induction run with
  | start run => exact (wp_killed starts start.through run).settle
  | complete started run =>
    obtain ⟨ended, through⟩ := wp_exec starts started
    obtain ⟨terminal, j, held, config⟩ := ended rfl
    exact killed_invariant whole (fun _ _ _ h may move => move_ends move may h)
      (does_completes terminal held config) through.settle run
  | recover _ run ih =>
    refine killed_invariant whole (fun _ _ _ h may move => move_ends move may h) ?_ ih run
    exact does_targetRecover (fun _ _ => trivial) may_recover (fun _ _ _ => trivial) fun _ _ _ _ => trivial

/-! ## The recovery that is not interrupted -/

/-- A host on which nothing fails, at the times of its clock. -/
def calm (clock : ℕ → Prop) : Conditions := ⟨False, False, clock⟩

/-- The requests whose candidate a recovery has to authenticate. -/
def State.concerns (s : State) (r : String) : Prop :=
  (∃ j, s.holds j ∧ j.requestId = r) ∨ ∃ o, s.terminal = some (.whole o) ∧ o.requestId = r

/-- The candidates of a recovery authenticate at every time of its clock. -/
def Authenticates (c : Target) (clock : ℕ → Prop) (s : State) : Prop :=
  ∀ r n m, s.concerns r → clock n → clock m → (s.candidateAt c r n m).isSome = true

variable {clock : ℕ → Prop}

lemma candidateAt_validated {r : String} {n m : ℕ} {v : Validated}
    (h : s.candidateAt c r n m = some v) : ∃ d leaf, s.versions.lookup (.version r) = some d ∧
      v = c.validated (d.contents responseNames) leaf := by
  obtain ⟨p, -, h⟩ := Option.bind_eq_some_iff.mp h
  obtain ⟨d, there, h⟩ := Option.bind_eq_some_iff.mp h
  obtain ⟨leaf, rfl⟩ := validateResponseFiles_validated h
  exact ⟨d, leaf, (Option.filter_eq_some_iff.mp there).1, rfl⟩

lemma Authenticates.supports {o : Terminal} (still : Authenticates c clock s)
    (there : s.terminal = some (.whole o)) (supports : s.supports c o) :
    Supports c (calm clock) s o := by
  intro n m at_ at'
  obtain ⟨v, found⟩ := Option.isSome_iff_exists.mp (still _ n m (.inr ⟨o, there, rfl⟩) at_ at')
  obtain ⟨d, leaf, version, rfl⟩ := candidateAt_validated found
  obtain ⟨d', version', binds⟩ := supports
  rw [version] at version'
  cases version'
  exact ⟨_, found, binds leaf⟩

lemma Authenticates.journal (still : Authenticates c clock s) (held : s.holds j) {d : Dir}
    (version : s.versions.lookup (.version j.requestId) = some d) (names : c.journalNames j d) :
    ∀ n m, clock n → clock m → ∃ v, s.candidateAt c j.requestId n m = some v ∧
      v.artifactSha256 = j.artifactManifestSha256 := by
  intro n m at_ at'
  obtain ⟨v, found⟩ := Option.isSome_iff_exists.mp (still _ n m (.inl ⟨j, held, rfl⟩) at_ at')
  obtain ⟨d', leaf, version', rfl⟩ := candidateAt_validated found
  rw [version] at version'
  cases version'
  refine ⟨_, found, ?_⟩
  have binds := names leaf
  simp only [Terminal.bindsCandidate, targetTerminal, Bool.and_eq_true] at binds
  exact (of_decide_eq_true binds.1.1.1).symm

lemma Held.mixed (h : Held c s j) : Mixed s j := by
  obtain ⟨p, at_, -⟩ := h.phase
  have rollback : s.rollback = (j.at p).2.1 := congrArg (·.2.1) at_
  have config : s.config = (j.at p).2.2 := congrArg (·.2.2) at_
  refine ⟨?_, h.active, ?_⟩
  · cases p with
    | config => exact .inr config
    | _ => exact .inl config
  · cases p with
    | prior | active => exact .inl rollback
    | _ => exact .inr rollback

/-- A state of an activation can be brought to its end. -/
theorem Through.recoverable (h : Through c s (Settled c s) u)
    (manual : c.adapter = .openbao → u.manual)
    (fits : ∀ j p, u.holds j → c.fits { j with checkpoint := p } = true)
    (still : Authenticates c clock u) : Recoverable c (calm clock) u := by
  have accepted : ∀ j, u.holds j → Accepted c u j := fun j held =>
    ⟨held, fits j j.checkpoint held, h.accounted.bound j held⟩
  have journaled : ∀ x, u.journal = some x → ∃ j, Transaction c s u j := h.transaction
  refine ⟨h.clean, fun x there => ?_, fun o there => ?_, fun free x at_ => ?_⟩
  · obtain ⟨o, rfl, recorded⟩ := h.accounted.terminal x there
    exact ⟨o, rfl, recorded.valid⟩
  · obtain ⟨o', whole, recorded⟩ := h.accounted.terminal _ there
    cases whole
    refine ⟨still.supports there recorded.supports, ?_, recorded.agrees, recorded.settled, fun x at_ => ?_⟩
    · cases at_ : u.journal with
      | none => exact (h.coherent.paired at_).activeValid
      | some x =>
        obtain ⟨j, transaction⟩ := journaled x at_
        exact ((h.coherent.of_journal transaction.held).ends there).2.activeValid
    · obtain ⟨j, transaction⟩ := journaled x at_
      exact ⟨j, accepted j transaction.held,
        ((h.coherent.of_journal transaction.held).ends there).1.symm⟩
  · obtain ⟨j, transaction⟩ := journaled x at_
    have held := h.coherent.of_journal transaction.held
    obtain ⟨d, version, names⟩ := h.accounted.names j transaction.held
    -- the request has no record yet
    have settled : ∀ state proof, ¬u.conflicts (targetTerminal j state proof) := by
      rintro state proof ⟨y, there, -⟩
      have there : u.archived j.requestId = some y := there
      refine held.fresh free (.inr ?_)
      rw [there]
      rfl
    refine ⟨j, accepted j transaction.held, still.journal transaction.held version names,
      fun _ _ => settled _ _, fun _ => ⟨⟨accepted j transaction.held, held.mixed, fun openbao => ?_⟩,
        fits j _ transaction.held, settled _ _⟩⟩
    obtain ⟨v, begins⟩ := transaction.begun
    exact ⟨manual openbao, begins.idle openbao⟩

lemma calm_answers {n : ℕ} (at_ : clock n) (x : Ask) (s : State) :
    ∃ y, (disk (calm clock)).answers x s y := by
  cases x with
  | now => exact ⟨n, at_⟩
  | inspect => exact ⟨true, .inl rfl⟩
  | dormant => exact ⟨true, trivial⟩
  | transaction => exact ⟨"tx", trivial⟩
  | identity => exact ⟨(0, 0), trivial⟩
  | validate => exact ⟨none, trivial⟩
  | listener => exact ⟨true, trivial⟩
  | source => exact ⟨none, trivial⟩

/-- An activation from an authentic state, interrupted anywhere and recovered any number of times:
the next recovery on a host where nothing fails ends without a journal, under a complete terminal
record with the new records and configuration, or with those before the activation. -/
theorem activation_recovers {n : ℕ} (whole : ¬k.tears) (server : c.adapter ≠ .client)
    (start : Authentic c s) (run : Activation c k rollbackSeconds s u)
    (manual : c.adapter = .openbao → u.manual)
    (fits : ∀ j p, u.holds j → c.fits { j with checkpoint := p } = true)
    (at_ : clock n) (still : Authenticates c clock u) :
    (∃ out w, Exec (disk (calm clock)).semantics ((Invocation.recover false).program c) u out w) ∧
    ∀ out w, Exec (disk (calm clock)).semantics ((Invocation.recover false).program c) u out w →
      (∃ report, out = .ok report) ∧ w.journal = none ∧ Settled c s w := by
  refine ⟨exec_exists (calm_answers at_) _ u, fun out w recover => ?_⟩
  have through := activation_through whole start run
  have does : Does c (calm clock) Ends ((Invocation.recover false).program c)
      (fun out t => (∃ report, out = .ok report) ∧ t.journal = none) u := by
    refine does_targetRecover (fun _ _ => trivial) may_recover (fun e t fails => ?_) fun report t gone _ =>
      ⟨⟨report, rfl⟩, gone rfl⟩
    rcases fails with faults | checked | bad
    · exact faults.elim
    · cases checked
    · exact absurd ⟨server, manual, through.recoverable manual fits still⟩ bad
  have ended := wp_exec (wp_invariant
    (fun _ => step_invariant (fun tears => tears) fun _ _ _ h may move => move_ends move may h) through does)
    recover
  exact ⟨ended.1.1, ended.1.2, ended.2.free ended.1.2⟩

/-- The registry with an installed version, before its activation. -/
def installed : State := ran (.install false) (ran (.importResponse false) (ran (.prepare false) unissued))

/-- The registry killed in the middle of its first activation. -/
def halted : State :=
  after (undisturbed 1000 none) 40 ((Invocation.activateStart false 1209600).program registry) installed

theorem activation_recovers_halted :
    (∃ out w, Exec (disk (calm (· = 1000))).semantics ((Invocation.recover false).program registry)
      halted out w) ∧
    ∀ out w, Exec (disk (calm (· = 1000))).semantics ((Invocation.recover false).program registry)
      halted out w → (∃ report, out = .ok report) ∧ w.journal = none ∧ Settled registry installed w := by
  have reached : Reaches registry untorn Always unissued installed :=
    .ran trivial (.ran trivial (.ran trivial (.refl _) trivial) trivial) trivial
  have coherent : Coherent registry unissued :=
    ⟨fun _ => .absent rfl rfl, by rintro - a ⟨⟩, by rintro x ⟨⟩⟩
  have accounted : Accounted registry unissued := ⟨by rintro x ⟨⟩, by rintro j ⟨⟩, by rintro j ⟨⟩⟩
  have authentic : Authentic registry installed :=
    ⟨by decide +kernel, by decide +kernel, reaches_coherent (fun h => h) coherent reached,
      reaches_accounted (fun h => h) coherent accounted reached⟩
  have run : Activation registry untorn 1209600 installed halted :=
    .start ((undisturbed_within (k := untorn) (n := 1000) trivial).killed 40 _ _)
  have journal : (halted.journal.bind Content.value).map Journal.requestId = some "r" := by
    decide +kernel
  have terminal : halted.terminal = none := by decide +kernel
  have candidate : (halted.candidateAt registry "r" 1000 1000).isSome = true := by decide +kernel
  refine activation_recovers (fun h => h) (by decide) authentic run (by rintro ⟨⟩) (fun _ _ _ => rfl)
    (n := 1000) rfl ?_
  rintro r n m (⟨j, held, rfl⟩ | ⟨o, there, rfl⟩) rfl rfl
  · have same : some j.requestId = some "r" := by
      rw [← journal, held]
      rfl
    rw [Option.some.inj same]
    exact candidate
  · rw [terminal] at there
    cases there

end PlatformConfig.Lifecycle
