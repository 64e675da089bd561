import PlatformConfig.TrustRecovery

/-!
# Check mode of the trust installation

`install --check` reads only, except for the recovery of a stage without a journal, which removes
the stage before the check flag is asked. What check mode accepts, apply mode completes.
-/
namespace PlatformConfig.TrustInstall

open CrashProgram CrashDisk TrustTree TrustRecovery Prog

variable {sha256 : Data → String} {a : Args} {s t : State}

/-- An empty stage beside the ingress, without a journal: what a kill between the creation of the
stage and the writing of the journal leaves. -/
def Orphaned (s : State) : Prop :=
  s.journal = none ∧ ∃ tx, s.stages = [tx] ∧ s.entriesAre [.ingress, .stage tx] = true ∧
    (s.trust.lookup (.stage tx)).any (fun d => d.files.keys = []) = true

/-- A tree that is installed already, beside records of the lifecycle. -/
structure Finished (sha256 : Data → String) (a : Args) (s : State) : Prop where
  journal : s.journal = none
  others : s.others.all finalNames.contains = true
  entries : s.entriesAre [.target] = true
  target : (s.trust.lookup .target).any (fun d => (validateTree sha256 a d.files).isSome) = true

lemma Finished.there (h : Finished sha256 a s) : .target ∈ s.trust :=
  (entriesAre_iff.mp h.entries _).mpr (List.mem_singleton.mpr rfl)

/-- What check mode accepts. -/
def Ready (sha256 : Data → String) (a : Args) (s : State) : Prop :=
  (∃ i, Prepared sha256 a i s) ∨ Finished sha256 a s

lemma Ready.journal (h : Ready sha256 a s) : s.journal = none := by
  rcases h with ⟨i, prepared⟩ | finished
  · exact prepared.journal
  · exact finished.journal

section Orphan
variable {I : State → Prop}

/-- Where no stage is orphaned, the recovery of one changes nothing, and it goes on if there is
no stage to look at. -/
lemma recoverOrphan_reads (kept : ¬Orphaned s) (here : I s) :
    Holds disk I recoverOrphan
      (fun out t => t = s ∧ (out = .ok () ↔ s.journal.isSome = true ∨ s.stages = [])) s := by
  simp only [recoverOrphan, bind_eq, pure_eq]
  refine holds_look here ?_
  cases journal : s.journal with
  | some j => exact ⟨rfl, by simp⟩
  | none =>
    simp only [Option.isSome_none, Bool.false_eq_true, if_false, false_or,
      recoverEmptyUnjournaledStage, bind_eq, pure_eq]
    split
    · next bare => exact ⟨rfl, by simp [bare]⟩
    · next tx one =>
      refine holds_check (fun _ => ⟨rfl, by simp [one]⟩) fun entries => ?_
      refine holds_check (fun _ => ⟨rfl, by simp [one]⟩) fun empty => ?_
      exact absurd ⟨journal, tx, one, entries, empty⟩ kept
    · next bare _ => exact ⟨rfl, by simpa using bare⟩

/-- An orphaned stage is removed. -/
lemma recoverOrphan_removes (orphaned : Orphaned s) :
    ∃ tx, .stage tx ∈ s.trust ∧ Holds disk (fun t => t = s ∨ t = s.drop (.stage tx)) recoverOrphan
      (fun out t => out = .ok () ∧ t = s.drop (.stage tx)) s := by
  obtain ⟨journal, tx, one, entries, empty⟩ := orphaned
  have there : .stage tx ∈ s.trust := (entriesAre_iff.mp entries _).mpr (by simp)
  refine ⟨tx, there, ?_⟩
  simp only [recoverOrphan, recoverEmptyUnjournaledStage, bind_eq, pure_eq]
  refine holds_look (.inl rfl) ?_
  simp only [journal, one, Option.isSome_none, Bool.false_eq_true, if_false]
  refine holds_checked entries (holds_checked empty (wp_tail ?_))
  cases found : s.trust.lookup (.stage tx) with
  | none => simp [found] at empty
  | some d =>
    simp only [found, Option.any_some, decide_eq_true_eq] at empty
    exact holds_step (by simp [Write.apply, found, empty]) (.inr rfl) ⟨rfl, rfl⟩

end Orphan

/-- What follows the recovery of an orphaned stage. -/
def installAfter (sha256 : Data → String) (a : Args) (check : Bool) : Run Status :=
  (recover sha256 a check).bind fun recovered =>
    if recovered then (validateFinalState sha256 a).bind fun _ => .ret .existing
    else installInitial sha256 a check

lemma install_eq (check : Bool) :
    install sha256 a check = recoverOrphan.bind fun _ => installAfter sha256 a check := rfl

variable {I : State → Prop}

lemma validateFinalState_reads (here : I s) :
    Holds disk I (validateFinalState sha256 a) (fun out t => t = s ∧ (out = .ok () ↔
      (s.journal.isNone && s.others.all finalNames.contains) = true ∧ s.entriesAre [.target] = true ∧
      (s.trust.lookup .target).any (fun d => (validateTree sha256 a d.files).isSome) = true)) s := by
  simp only [validateFinalState, bind_eq]
  refine holds_look here ?_
  refine holds_check (fun refused => ⟨rfl, by simp [refused]⟩) fun state => ?_
  refine holds_check (fun refused => ⟨rfl, by simp [refused]⟩) fun entries => ?_
  refine wp_tail (holds_check (fun refused => ⟨rfl, by simp [refused]⟩) fun target => ?_)
  exact ⟨rfl, fun _ => ⟨state, entries, target⟩, fun _ => rfl⟩

/-- Check mode reads only, and it accepts what is ready. -/
lemma installInitial_checks (here : I s) (journal : s.journal = none) :
    Holds disk I (installInitial sha256 a true)
      (fun out t => t = s ∧ ∀ status, out = .ok status → Ready sha256 a s) s := by
  simp only [installInitial, bind_eq, pure_eq]
  refine holds_look here ?_
  by_cases there : .target ∈ s.trust
  · rw [if_pos there]
    refine wp_bind.mpr (wp_mono (validateFinalState_reads here) (fun _ _ _ h => h) ?_)
    rintro (e | ⟨⟩) t ⟨rfl, final⟩
    · exact ⟨rfl, fun status ok => by cases ok⟩
    · obtain ⟨state, entries, target⟩ := final.mp rfl
      simp only [Bool.and_eq_true] at state
      exact ⟨rfl, fun _ _ => .inr ⟨journal, state.2, entries, target⟩⟩
  · rw [if_neg there]
    refine holds_check (fun _ => ⟨rfl, fun status ok => by cases ok⟩) fun bare => ?_
    simp only [Bool.and_eq_true, decide_eq_true_eq] at bare
    cases found : s.trust.lookup .ingress with
    | none => exact ⟨rfl, fun status ok => by cases ok⟩
    | some i =>
      simp only
      cases checked : validateTree sha256 a i.files with
      | none => exact ⟨rfl, fun status ok => by cases ok⟩
      | some contents =>
        refine ⟨rfl, fun _ _ => .inl ⟨i, bare.2, journal, entriesAre_iff.mp bare.1.1, found, ?_⟩⟩
        rw [Valid, checked]
        rfl

lemma installAfter_checks (here : I s) :
    Holds disk I (installAfter sha256 a true)
      (fun out t => t = s ∧ ∀ status, out = .ok status → Ready sha256 a s) s := by
  simp only [installAfter, recover, bind_eq, pure_eq]
  rw [Prog.bind_assoc]
  refine holds_look here ?_
  cases journal : s.journal with
  | none => exact installInitial_checks here journal
  | some j => exact ⟨rfl, fun status ok => by cases ok⟩

/-- Apply mode completes what is ready. -/
lemma installAfter_applies (ready : Ready sha256 a s) :
    Holds disk (fun _ => True) (installAfter sha256 a false) (fun out _ => ∃ status, out = .ok status) s := by
  simp only [installAfter, recover, bind_eq, pure_eq]
  rw [Prog.bind_assoc]
  refine holds_look trivial ?_
  simp only [ready.journal]
  rcases ready with ⟨i, prepared⟩ | finished
  · refine wp_mono (@installInitial_holds _ _ _ false (.inl ⟨i, prepared⟩))
      (fun _ _ _ _ => trivial) fun out t ended => (ended rfl).1
  · change Holds disk (fun _ => True) (installInitial sha256 a false) _ s
    simp only [installInitial, bind_eq, pure_eq]
    refine holds_look trivial ?_
    rw [if_pos finished.there]
    refine wp_bind.mpr (wp_mono (validateFinalState_reads trivial) (fun _ _ _ h => h) ?_)
    rintro out t ⟨rfl, final⟩
    have ok := final.mpr ⟨by simp [finished.journal, finished.others], finished.entries, finished.target⟩
    subst ok
    exact ⟨_, rfl⟩

/-- Without an orphaned stage check mode reads only. -/
lemma install_checks (kept : ¬Orphaned s) :
    Holds disk (fun t => t = s) (install sha256 a true) (fun out t => t = s ∧ ∀ status, out = .ok status →
      (s.journal.isSome = true ∨ s.stages = []) ∧ Ready sha256 a s) s := by
  rw [install_eq]
  refine wp_bind.mpr (wp_mono (recoverOrphan_reads (I := fun t => t = s) kept rfl)
    (fun _ _ _ h => h) ?_)
  rintro (e | ⟨⟩) t ⟨same, free⟩
  · exact ⟨same, fun status ok => by cases ok⟩
  · subst same
    refine wp_mono (installAfter_checks (I := fun u => u = t) rfl) (fun _ _ _ h => h) fun out u h => ?_
    exact ⟨h.1, fun status ok => ⟨free.mp rfl, h.2 status ok⟩⟩

/-- What check mode accepted, apply mode completes. -/
lemma install_applies (kept : ¬Orphaned s) (free : s.journal.isSome = true ∨ s.stages = [])
    (ready : Ready sha256 a s) :
    Holds disk (fun _ => True) (install sha256 a false) (fun out _ => ∃ status, out = .ok status) s := by
  rw [install_eq]
  refine wp_bind.mpr (wp_mono (recoverOrphan_reads kept trivial) (fun _ _ _ h => h) ?_)
  rintro out t ⟨rfl, goes_on⟩
  rw [goes_on.mpr free]
  exact installAfter_applies ready

/-- Check mode removes an orphaned stage. -/
lemma orphan_removed (sha256 : Data → String) (a : Args) (orphaned : Orphaned s) :
    ∃ t, Killed disk.semantics (install sha256 a true) s t ∧ t ≠ s := by
  obtain ⟨tx, there, removed⟩ := recoverOrphan_removes orphaned
  have answered (x : Draw) (s : State) : ∃ y, disk.answers x s y := disk_answers x s
  obtain ⟨out, t, ran⟩ := exec_exists answered recoverOrphan s
  obtain ⟨rfl, rfl⟩ := wp_exec removed ran
  obtain ⟨out', t', ran'⟩ := exec_exists answered (installAfter sha256 a true) (s.drop (.stage tx))
  have gone : .stage tx ∉ (s.drop (.stage tx)).trust := by simp [State.drop]
  have kept : t' = s.drop (.stage tx) := (wp_exec (installAfter_checks (I := fun _ => True) trivial) ran').1
  refine ⟨t', (ran.bind ran').killed, fun same => gone ?_⟩
  rw [← kept, same]
  exact there

/-- Check mode leaves the state root as it is at every step, and what it accepts an installation
of the unchanged state completes, if and only if there is no orphaned stage. -/
theorem check_predicts_iff (sha256 : Data → String) (a : Args) (s : State) :
    ((∀ t, Killed disk.semantics (install sha256 a true) s t → t = s) ∧
      ∀ status t, Exec disk.semantics (install sha256 a true) s (.ok status) t →
        ∀ out u, Exec disk.semantics (install sha256 a false) s out u →
          ∃ status', out = .ok status') ↔ ¬Orphaned s := by
  constructor
  · rintro ⟨read_only, -⟩ orphaned
    obtain ⟨t, killed, changed⟩ := orphan_removed sha256 a orphaned
    exact changed (read_only t killed)
  · intro kept
    refine ⟨fun t killed => wp_killed (C := fun t => t = s) (install_checks kept) rfl killed, ?_⟩
    intro status t checked out u applied
    obtain ⟨free, ready⟩ := (wp_exec (install_checks kept) checked).2 status rfl
    exact wp_exec (install_applies kept free ready) applied

section Kills
variable {β : Type} {u : State}

lemma killed_look {f : State → Run β} (rest : Killed disk.semantics (f s) s u) :
    Killed disk.semantics (look.bind f) s u :=
  .later (.look s) rest

lemma killed_ask {x : Draw} {f : Drawn x → Run β} (y : Drawn x)
    (rest : Killed disk.semantics (f y) s u) : Killed disk.semantics ((ask x).bind f) s u :=
  .later (.ask trivial) rest

lemma killed_write {w : Write} {e : String} {f : Unit → Run β} (applied : w.apply s = some u) :
    Killed disk.semantics ((write w e).bind f) s u :=
  .later (.wrote applied) (.here _ _)

end Kills

/-- An installation that is killed right after it created its stage. -/
lemma installs_stage {i : Dir} (prepared : Prepared sha256 a i s) (tx : Transaction)
    (id : Identity) :
    Killed disk.semantics (install sha256 a false) s (s.put (.stage tx) ⟨id, ∅⟩) := by
  have no_target : .target ∉ s.trust := fun there => by simpa using (prepared.entries _).mp there
  have no_stage : .stage tx ∉ s.trust := fun there => by simpa using (prepared.entries _).mp there
  have bare : s.stages = [] := stages_nil.mpr fun tx there => by
    simpa using (prepared.entries _).mp there
  have entries : s.entriesAre [.ingress] = true := entriesAre_iff.mpr prepared.entries
  obtain ⟨contents, checked⟩ := Option.isSome_iff_exists.mp prepared.reviewed
  have made : (Write.mkdirStage tx id).apply s = some (s.put (.stage tx) ⟨id, ∅⟩) := if_neg no_stage
  simp only [install, recoverOrphan, recover, bind_eq, pure_eq]
  rw [Prog.bind_assoc]
  refine killed_look ?_
  simp only [prepared.journal, recoverEmptyUnjournaledStage, bare, Option.isSome_none,
    Bool.false_eq_true, if_false, bind_ret, pure_eq]
  rw [Prog.bind_assoc]
  refine killed_look ?_
  simp only [prepared.journal, bind_ret, installInitial, bind_eq, pure_eq, Bool.false_eq_true, if_false]
  refine killed_look ?_
  simp only [no_target, entries, prepared.journal, prepared.others, prepared.ingress, checked, publish]
  exact killed_ask tx (killed_ask id (killed_write made))

/-- The stage of a killed installation is orphaned. -/
lemma orphaned_put {i : Dir} (prepared : Prepared sha256 a i s) (tx : Transaction)
    (id : Identity) : Orphaned (s.put (.stage tx) ⟨id, ∅⟩) := by
  have no_stage (tx' : Transaction) : .stage tx' ∉ s.trust := fun there => by
    simpa using (prepared.entries _).mp there
  have bare : s.stages = [] := stages_nil.mpr no_stage
  refine ⟨prepared.journal, tx, ?_, entriesAre_iff.mpr fun e => ?_, ?_⟩
  · have fresh : Entry.stage tx ∉ s.trust.keys := fun there => no_stage tx (AList.mem_keys.mpr there)
    simp only [State.stages, State.put, AList.keys_insert, List.filterMap_cons,
      List.erase_of_not_mem fresh]
    exact congrArg _ bare
  · simp only [State.put, AList.mem_insert, prepared.entries e, List.mem_cons, List.not_mem_nil]
    tauto
  · simp [State.put, AList.lookup_insert]

/-- The check of a sample installation whose predecessor was killed between the creation of its
stage and the writing of its journal. -/
theorem check_removes_stage : ¬∀ (i : Dir) (s₀ s t : State),
    Prepared (fun _ => "digest") sampleArgs i s₀ →
    Runs disk.semantics (Installs (fun _ => "digest") sampleArgs) s₀ s →
    Killed disk.semantics (install (fun _ => "digest") sampleArgs true) s t → t = s := by
  intro read_only
  have runs : Runs disk.semantics (Installs (fun _ => "digest") sampleArgs) sampleState
      (sampleState.put (.stage sampleTransaction) ⟨(1, 3), ∅⟩) :=
    (Runs.refl _).step ⟨false, rfl⟩ (installs_stage sample_prepared sampleTransaction (1, 3))
  obtain ⟨t, killed, changed⟩ := orphan_removed _ _
    (orphaned_put sample_prepared sampleTransaction (1, 3))
  exact changed (read_only _ _ _ t sample_prepared runs killed)

end PlatformConfig.TrustInstall
