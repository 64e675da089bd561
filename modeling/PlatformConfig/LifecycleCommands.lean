import PlatformConfig.LifecycleSteps

/-!
# The steps of whole commands

Each command takes lifecycle steps only, whatever fails in it. What a command may do is given
as the moves that are allowed to it; what it reports is said about the state it ends in.
-/
namespace PlatformConfig.Lifecycle

open CrashProgram CrashDisk Prog

variable {c : Target} {k : Conditions} {s t : State} {α β : Type} {A : Label → State → Prop}
  {Q : Except String Report → State → Prop}

/-- The moves of an activation that starts where the terminal slot is empty. -/
structure MayStart (c : Target) (A : Label → State → Prop) (check : Bool) : Prop where
  listen : c.adapter = .openbao → ∀ t, A .listener t
  serve : c.adapter = .openbao → ∀ t, A .service t
  drives : check = false → ∀ t, t.terminal = none → Drives A t
  begins : check = false → ∀ t r, t.terminal = none → ¬t.recorded r → A (.begins r) t
  retire : check = false → (∀ t, A .archive t) ∧ ∀ t, A .retire t

/-- The state of an activation that has been locally validated, from the state before it. -/
structure Activated (c : Target) (s : State) (j : Journal) (u : State) : Prop where
  begins : ∃ t, Begins c t j
  held : u.holds { j with checkpoint := .localValidated }
  triple : u.triple = j.at .config
  prior : j.at .prior = s.triple
  terminal : u.terminal = none
  recorded : ∀ x, u.recorded x → s.recorded x
  fresh : ¬s.recorded j.requestId
  versions : u.versions = s.versions
  valid : u.activeValid c

theorem does_targetActivateStart {check : Bool} {rollbackSeconds : ℕ} (positive : 0 < rollbackSeconds)
    (may : MayStart c A check)
    (revalidate : check = false → ∀ j, s.holds j → ¬s.recorded j.requestId → Moves A s) (failed : ∀ e t, Q (.error e) t)
    (reported : s.journal.isSome = true → ∀ report t, Q (.ok report) t)
    (checked : ∀ t, Q (.ok .wouldActivate) t)
    (done : ∀ j u, Activated c s j u → Q (.ok .localValidated) u) :
    Does c k A (targetActivateStart c check rollbackSeconds) Q s := by
  simp only [targetActivateStart, bind_eq]
  refine does_reads (reads_requireServerAdapter (F := True) fun _ => trivial) (fun e _ => failed e s)
    fun _ server => ?_
  refine does_reads reads_pendingRequestId (fun e _ => failed e s) fun r selected => ?_
  have fresh := selected.fresh server
  refine does_reads reads_artifactDigest (fun e _ => failed e s) fun artifact pin => ?_
  refine does_activateFirst may.serve (fun unchecked j held same => ?_) may.retire failed reported ?_
  · -- the selected request has no terminal record
    exact revalidate unchecked j held (by rwa [same])
  · intro o t cleared gone
    have fresh_t : ¬t.recorded r := fun recorded => fresh (cleared.recorded r recorded)
    have pin_t : t.pins c (.version r) artifact := by
      obtain ⟨o, h, rfl⟩ := cleared.same
      exact pin
    refine does_activateStart positive may.listen pin_t (fun unchecked u listened => ?_)
      (fun unchecked => may.drives unchecked t (gone unchecked)) (fun e u _ => failed e u)
      (fun u _ => checked u) ?_
    · obtain ⟨n, rfl⟩ := listened
      exact may.begins unchecked _ r (gone unchecked) fresh_t
    · rintro unchecked u p v ⟨n, rfl⟩ planned stage valid
      have kept := stage.kept
      obtain ⟨o, h, rfl⟩ := cleared.same
      obtain ⟨begins, rfl⟩ := planned
      refine done p.journal v ⟨⟨_, begins⟩, stage.holds, stage.triple, ?_, ?_, ?_, fresh, ?_, valid⟩
      · exact begins.prior.symm
      · exact kept.terminal.trans (gone unchecked)
      · intro x recorded
        refine cleared.recorded x ?_
        rwa [State.recorded, State.archived, kept.terminal, kept.history] at recorded
      · obtain ⟨r, m, rfl⟩ := stage
        rfl

lemma reads_completionRequest {o : Option Terminal} : Reads (disk k) s (completionRequest c s o)
    (fun r => s.legible ∧ ∀ j, s.holds j → r = j.requestId)
    (k.faults ∨ ¬(s.legible ∧ ∃ j, Accepted c s j)) := by
  simp only [completionRequest, bind_eq]
  refine reads_excludedRequestIds.bind (fun fails => fails.imp_right fun bad fine => bad fine.1)
    fun ids legible => ?_
  refine reads_pendingRequestIds.bind .inl fun l _ => ?_
  by_cases there : s.journal.isSome = true
  · rw [if_pos there]
    refine reads_readJournal.bind (fun fails => fails.imp_right fun bad fine => bad fine.2) fun j read => ?_
    exact reads_ret ⟨legible.1, fun j' held => by rw [read.held.unique held]⟩
  · rw [if_neg there]
    have unheld : ∀ j, ¬s.holds j := by
      intro j held
      rw [held] at there
      exact there rfl
    have free : ∀ r : String, s.legible ∧ ∀ j, s.holds j → r = j.requestId :=
      fun r => ⟨legible.1, fun j held => absurd held (unheld j)⟩
    have none_ : k.faults ∨ ¬(s.legible ∧ ∃ j, Accepted c s j) := by
      refine .inr ?_
      rintro ⟨-, j, accepted⟩
      exact unheld j accepted.held
    rcases l with _ | ⟨r, _ | ⟨r', l⟩⟩
    · cases o with
      | none => exact reads_fail none_
      | some t => exact reads_ret (free _)
    · exact reads_ret (free _)
    · exact reads_fail none_

/-- The moves of a completion. -/
structure MayComplete (c : Target) (A : Label → State → Prop) (s : State) (check : Bool) : Prop where
  serve : c.adapter = .openbao → ∀ t, A .service t
  moves : check = false → s.terminal = none → Moves A s
  success : check = false → ∀ t, Served s t → A .success t
  resume : check = false → ∀ t, s.terminal = some (.whole t) → A .resume s

lemma does_resumeCompletion {check : Bool} {r : String} {o : Terminal}
    (may : MayComplete c A s check) (there : s.terminal = some (.whole o))
    (failed : ∀ e t, Q (.error e) t) (ended : ∀ report t, Q (.ok report) t) :
    Does c k A (resumeCompletion c check s r o) Q s := by
  simp only [resumeCompletion, bind_eq]
  refine does_check (fun _ => failed _ s) fun _ => ?_
  refine does_reads reads_validateTerminalCandidate (fun e _ => failed e s) fun _ _ => ?_
  refine does_reads reads_validateTerminalActivation (fun e _ => failed e s) fun _ _ => ?_
  refine does_check (fun _ => failed _ s) fun complete => ?_
  by_cases unlink : (s.journal.isSome && !check) = true
  · rw [if_pos unlink]
    simp only [Bool.and_eq_true, Bool.not_eq_true'] at unlink
    refine does_reads reads_readJournal (fun e _ => failed e s) fun j read => ?_
    refine does_check (fun _ => failed _ s) fun same => ?_
    refine does_reads reads_inspect (fun e _ => failed e s) fun _ _ => ?_
    have applied : Write.unlinkJournal.apply s = some { s with journal := none } := by
      simp [Write.apply, unlink.1]
    exact does_wrote applied (.resume read.held there (of_decide_eq_true same).symm
      (of_decide_eq_true complete)) (may.resume unlink.2 o there) (fun _ => failed _ s) (ended _ _)
  · rw [if_neg unlink]
    exact ended _ s

/-- A completion that fails restores the prior state and publishes the failure. -/
lemma does_failCompletion {check : Bool} {j : Journal} {e : String} (held : s.holds j)
    (may : check = false → Moves A s) (failed : ∀ e t, Q (.error e) t)
    (ended : ∀ report t, Q (.ok report) t) : Does c k A (failCompletion c check j e) Q s := by
  simp only [failCompletion, bind_eq]
  refine does_check (fun _ => failed _ s) fun unchecked => ?_
  have may := may (by simpa using unchecked)
  exact does_publishTargetFailure held may.restore may.service may.failure may.archive may.close
    (fun e t _ => failed e t) fun t _ => ended _ t

/-- What has been read of the activation that a completion ends. -/
structure Completing (c : Target) (s : State) (j : Journal) : Prop where
  held : s.holds j
  done : j.checkpoint = .localValidated
  active : ∃ a, s.active = some a ∧ a.requestId = j.requestId ∧ c.activeAuthentic s a = true

lemma Completing.served {j : Journal} (h : Completing c s j) (served : Served s t) :
    Completing c t j := by
  obtain ⟨r, m, rfl⟩ := served
  exact ⟨h.held, h.done, h.active⟩

lemma does_succeedCompletion {check : Bool} {j : Journal} {proof : Proof} (h : Completing c s j)
    (may : check = false → Moves A s) (success : check = false → A .success s)
    (failed : ∀ e t, Q (.error e) t) (ended : ∀ report t, Q (.ok report) t) :
    Does c k A (succeedCompletion c check j proof) Q s := by
  simp only [succeedCompletion, bind_eq]
  refine does_reads (reads_now (F := False)) (fun _ => False.elim) fun n _ => ?_
  by_cases expired : j.rollbackDeadlineEpoch ≤ n
  · rw [if_pos expired]
    exact does_failCompletion h.held may failed ended
  · rw [if_neg expired]
    cases check with
    | true => exact ended _ s
    | false =>
      obtain ⟨a, active, same, authentic⟩ := h.active
      have may := may rfl
      exact does_publishTerminal h.held rfl rfl (.complete h.held h.done active same authentic)
        (success rfl) may.archive may.close (fun e t _ => failed e t) fun _ _ => ended _ _

lemma does_finishCompletion {check : Bool} {r : String} {v : Validated}
    (may : MayComplete c A s check) (free : s.terminal = none) (failed : ∀ e t, Q (.error e) t)
    (ended : ∀ report t, Q (.ok report) t) : Does c k A (finishCompletion c check r v) Q s := by
  simp only [finishCompletion, bind_eq]
  refine does_reads reads_readJournal (fun e _ => failed e s) fun j read => ?_
  refine does_check (fun _ => failed _ s) fun bound => ?_
  simp only [Bool.and_eq_true, decide_eq_true_eq] at bound
  refine does_reads reads_authenticateActive (fun e _ => failed e s) ?_
  rintro a ⟨rfl, valid⟩
  refine does_check (fun _ => failed _ s) fun active => ?_
  obtain ⟨a, at_, same⟩ := Option.any_eq_true _ _ |>.mp active
  have h : Completing c s j := by
    refine ⟨read.held, bound.1.1, a, at_, ?_, valid a at_⟩
    exact (of_decide_eq_true same).trans bound.1.2.symm
  refine does_reads (reads_now (F := False)) (fun _ => False.elim) fun n _ => ?_
  by_cases expired : j.rollbackDeadlineEpoch ≤ n
  · rw [if_pos expired]
    exact does_failCompletion read.held (fun unchecked => may.moves unchecked free) failed ended
  · rw [if_neg expired]
    have moves : ∀ {t}, Served s t → check = false → Moves A t := fun served unchecked =>
      (may.moves unchecked free).kept served.kept
    -- the validation may fail; its failure is a value, and the service is all that it changes
    simp only [validateTargetCompletion]
    refine wp_bind.mpr (wp_handle.mpr ?_)
    simp only [bind_eq]
    refine does_localValidation may.serve (fun e t served => ?_) fun served_ t served => ?_
    · exact does_failCompletion (served.holds read.held) (moves served) failed ended
    · refine does_reads (reads_now (F := False)) (fun _ => False.elim) fun m _ => ?_
      exact does_succeedCompletion (h.served served) (moves served)
        (fun unchecked => may.success unchecked t served) failed ended

theorem does_targetActivateComplete {check : Bool} (may : MayComplete c A s check)
    (failed : ∀ e t, Q (.error e) t) (ended : ∀ report t, Q (.ok report) t) :
    Does c k A (targetActivateComplete c check) Q s := by
  simp only [targetActivateComplete, bind_eq]
  refine does_reads (reads_requireServerAdapter (F := True) fun _ => trivial) (fun e _ => failed e s)
    fun _ _ => ?_
  refine does_reads reads_stateEntries (fun e _ => failed e s) ?_
  rintro s ⟨rfl, -⟩
  refine does_check (fun _ => failed _ s) fun _ => ?_
  refine does_reads reads_readTerminal (fun e _ => failed e s) fun o found => ?_
  refine does_reads reads_completionRequest (fun e _ => failed e s) fun r _ => ?_
  refine does_reads reads_inspect (fun e _ => failed e s) fun _ _ => ?_
  refine does_reads reads_authenticateTargetCandidate (fun e _ => failed e s) fun v _ => ?_
  cases o with
  | some o => exact does_resumeCompletion may found.at_ failed ended
  | none =>
    refine does_check (fun _ => failed _ s) fun _ => ?_
    exact does_finishCompletion may found.at_ failed ended

/-- The moves of a recovery. -/
structure MayRecover (A : Label → State → Prop) (check : Bool) : Prop where
  archive : ∀ t, A .archive t
  moves : check = false → ∀ t, t.terminal = none → Moves A t
  close : check = false → ∀ t, A .close t

/-- A terminal record that a recovery accepts. -/
structure Sustained (c : Target) (k : Conditions) (s : State) (t : Terminal) : Prop where
  supports : Supports c k s t
  valid : s.activeValid c
  agrees : t.agrees s.active = true
  settled : ¬s.conflicts t
  journal : ∀ x, s.journal = some x → ∃ j, Accepted c s j ∧ j.requestId = t.requestId

/-- A journal that a recovery can bring to its end. -/
structure Revocable (c : Target) (k : Conditions) (s : State) (j : Journal) : Prop where
  accepted : Accepted c s j
  candidate : ∀ n m, k.clock n → k.clock m →
    ∃ v, s.candidateAt c j.requestId n m = some v ∧ v.artifactSha256 = j.artifactManifestSha256
  ended : ∀ failure, j.checkpoint.failure = some failure →
    ¬s.conflicts (targetTerminal j failure.state none)
  live : j.checkpoint.failure = none → Restorable c s j ∧ c.fits j.ended = true ∧
    ¬s.conflicts (targetTerminal j j.restored.state none)

/-- A state that a recovery without `check` brings to its end. -/
structure Recoverable (c : Target) (k : Conditions) (s : State) : Prop where
  clean : s.leftovers = 0
  legible : s.terminalLegible
  terminal : ∀ t, s.terminal = some (.whole t) → Sustained c k s t
  journal : s.terminal = none → ∀ x, s.journal = some x → ∃ j, Revocable c k s j

lemma does_recoverTerminal {check : Bool} {o : Terminal} (may : MayRecover A check)
    (there : s.terminal = some (.whole o)) (wellFormed : o.wellFormed = true)
    (failed : ∀ e t, (k.faults ∨ check = true ∨ ¬Sustained c k s o) → Q (.error e) t)
    (ended : ∀ t, t.journal = none → Q (.ok (.notRequired (some o.state))) t) :
    Does c k A (recoverTerminal c check s o) Q s := by
  simp only [recoverTerminal, bind_eq]
  have stop : ∀ e t, (k.faults ∨ ¬Sustained c k s o) → Q (.error e) t := fun e t fails =>
    failed e t (fails.imp_right .inr)
  refine does_reads reads_inspect (fun e faults => stop e s (.inl faults)) fun _ _ => ?_
  refine does_reads reads_validateTerminalCandidate (fun e fails => stop e s ?_) fun _ _ => ?_
  · exact fails.imp_right fun bad fine => bad fine.supports
  refine does_reads reads_validateTerminalActivation (fun e fails => stop e s ?_) fun _ _ => ?_
  · exact fails.imp_right fun bad fine => bad ⟨fine.valid, fine.agrees⟩
  refine does_archiveTargetTerminal there wellFormed may.archive (fun e h fails => stop e _ ?_) ?_
  · exact fails.imp_right fun conflict fine => fine.settled conflict
  intro h in_
  by_cases journal : s.journal.isSome = true
  · rw [if_pos journal]
    obtain ⟨x, at_⟩ := Option.isSome_iff_exists.mp journal
    have accepted : ∀ j, Accepted c { s with history := some h } j ↔ Accepted c s j := fun j =>
      ⟨fun a => ⟨a.held, a.fits, a.bound⟩, fun a => ⟨a.held, a.fits, a.bound⟩⟩
    refine does_reads reads_readJournal (fun e fails => stop e _ ?_) fun j read => ?_
    · refine fails.imp_right fun none_ fine => ?_
      obtain ⟨j, accepted', -⟩ := fine.journal x at_
      exact none_ ⟨j, (accepted j).mpr accepted'⟩
    refine does_check (fun refused => stop _ _ (.inr fun fine => ?_)) fun same => ?_
    · obtain ⟨j', accepted', same⟩ := fine.journal x at_
      obtain rfl := read.held.unique accepted'.held
      rw [decide_eq_false_iff_not] at refused
      exact refused same
    refine does_check (fun checked => failed _ _ (.inr (.inl (by simpa using checked)))) fun unchecked => ?_
    refine does_reads reads_inspect (fun e faults => stop e _ (.inl faults)) fun _ _ => ?_
    have applied : Write.unlinkJournal.apply { s with history := some h } =
        some { s with history := some h, journal := none } := by simp [Write.apply, journal]
    exact does_wrote applied (.close (j := j) (t := o) read.held there (of_decide_eq_true same).symm
      in_.there) (may.close (by simpa using unchecked) _) (fun faults => stop _ _ (.inl faults))
      (ended _ rfl)
  · rw [if_neg journal]
    exact ended _ (by simpa using journal)

lemma does_recoverJournal {check : Bool} (may : MayRecover A check) (free : s.terminal = none)
    (failed : ∀ e t, (k.faults ∨ check = true ∨ ¬∃ j, Revocable c k s j) → Q (.error e) t)
    (ended : ∀ report t, t.journal = none → Q (.ok report) t) :
    Does c k A (recoverJournal c check) Q s := by
  simp only [recoverJournal, bind_eq]
  have stop : ∀ e t, (k.faults ∨ ¬∃ j, Revocable c k s j) → Q (.error e) t := fun e t fails =>
    failed e t (fails.imp_right .inr)
  refine does_reads reads_readJournal (fun e fails => stop e s ?_) fun j read => ?_
  · refine fails.imp_right fun none_ fine => ?_
    obtain ⟨j, fine⟩ := fine
    exact none_ ⟨j, fine.accepted⟩
  -- every other journal that can be brought to its end is this one
  have this : (∃ j, Revocable c k s j) → Revocable c k s j := by
    rintro ⟨j', fine⟩
    rwa [read.held.unique fine.accepted.held]
  refine does_reads reads_inspect (fun e faults => stop e s (.inl faults)) fun _ _ => ?_
  refine does_reads reads_authenticateTargetCandidate (fun e fails => stop e s ?_) ?_
  · refine fails.imp_right fun bad fine => ?_
    obtain ⟨n, m, at_, at', none_⟩ := bad
    obtain ⟨v, there, -⟩ := (this fine).candidate n m at_ at'
    rw [none_] at there
    cases there
  rintro v ⟨n, m, at_, at', there⟩
  refine does_check (fun refused => stop _ s (.inr fun fine => ?_)) fun _ => ?_
  · obtain ⟨w, there', same⟩ := (this fine).candidate n m at_ at'
    rw [there] at there'
    cases there'
    rw [decide_eq_false_iff_not] at refused
    exact refused same
  cases past : j.checkpoint.failure with
  | some failure =>
    refine does_check (fun checked => failed _ _ (.inr (.inl (by simpa using checked)))) fun unchecked => ?_
    have may := may.moves (by simpa using unchecked) s free
    have valid : (targetTerminal j failure.state none).wellFormed = true := by cases failure <;> rfl
    refine does_publishTerminal read.held rfl valid (.fail read.held past) (may.failure s) may.archive
      may.close (fun e t fails => stop e t ?_) fun _ _ => ended _ _ rfl
    exact fails.imp_right fun bad fine => bad.elim (fun h => h free) ((this fine).ended failure past)
  | none =>
    refine does_check (fun checked => failed _ _ (.inr (.inl (by simpa using checked)))) fun unchecked => ?_
    have may := may.moves (by simpa using unchecked) s free
    refine does_publishTargetFailure read.held may.restore may.service may.failure may.archive may.close
      (fun e t fails => stop e t ?_) fun t done => ended _ t done.journal
    refine fails.imp_right fun bad fine => ?_
    obtain ⟨restorable, fits, settled⟩ := (this fine).live past
    rcases bad with h | h | h | h
    · exact h restorable
    · rw [fits] at h
      cases h
    · exact h free
    · exact settled h

theorem does_recoverState {check : Bool} (may : MayRecover A check)
    (failed : ∀ e t, (k.faults ∨ check = true ∨ ¬Recoverable c k s) → Q (.error e) t)
    (ended : ∀ report t, (check = false → t.journal = none) →
      (∀ o, s.terminal = some (.whole o) → report = .notRequired (some o.state)) → Q (.ok report) t) :
    Does c k A (recoverState c check) Q s := by
  simp only [recoverState, bind_eq]
  have stop : ∀ e t, (k.faults ∨ ¬Recoverable c k s) → Q (.error e) t := fun e t fails =>
    failed e t (fails.imp_right .inr)
  refine does_reads reads_stateEntries (fun e fails => stop e s ?_) ?_
  · exact fails.imp_right fun unclean fine => unclean fine.clean
  rintro s ⟨rfl, -⟩
  refine does_reads reads_readTerminal (fun e fails => stop e s ?_) fun o found => ?_
  · exact fails.imp_right fun illegible fine => illegible fine.legible
  cases o with
  | some o =>
    have there : s.terminal = some (.whole o) := found.at_
    refine does_recoverTerminal may there (found.wellFormed o rfl) (fun e t fails => failed e t ?_) ?_
    · exact fails.imp_right (Or.imp_right fun bad fine => bad (fine.terminal o there))
    · intro t free
      refine ended _ t (fun _ => free) fun o' there' => ?_
      rw [there] at there'
      cases there'
      rfl
  | none =>
    have free : s.terminal = none := found.at_
    have none_ : ∀ report : Report, ∀ o, s.terminal = some (.whole o) →
        report = .notRequired (some o.state) := fun _ o there => by
      rw [free] at there
      cases there
    by_cases journal : s.journal.isSome = true
    · rw [if_pos journal]
      obtain ⟨x, at_⟩ := Option.isSome_iff_exists.mp journal
      refine does_recoverJournal may free (fun e t fails => failed e t ?_) fun report t gone =>
        ended report t (fun _ => gone) (none_ report)
      exact fails.imp_right (Or.imp_right fun bad fine => bad (fine.journal free x at_))
    · rw [if_neg journal]
      exact ended _ s (fun _ => by simpa using journal) (none_ _)

/-- What a recovery needs of the state it starts in, besides the state of the service. -/
lemma Recoverable.served (h : Recoverable c k s) (served : Served s t)
    (manual : c.adapter = .openbao → t.manual) : Recoverable c k t := by
  obtain ⟨r, m, rfl⟩ := served
  refine ⟨h.clean, h.legible, fun o there => ?_, fun free x at_ => ?_⟩
  · have fine := h.terminal o there
    refine ⟨fine.supports, fine.valid, fine.agrees, fine.settled, fun x at_ => ?_⟩
    obtain ⟨j, accepted, same⟩ := fine.journal x at_
    exact ⟨j, ⟨accepted.held, accepted.fits, accepted.bound⟩, same⟩
  · obtain ⟨j, fine⟩ := h.journal free x at_
    refine ⟨j, ⟨fine.accepted.held, fine.accepted.fits, fine.accepted.bound⟩, fine.candidate, fine.ended,
      fun live => ?_⟩
    obtain ⟨restorable, rest⟩ := fine.live live
    have accepted := restorable.accepted
    have mixed := restorable.mixed
    exact ⟨⟨⟨accepted.held, accepted.fits, accepted.bound⟩, ⟨mixed.config, mixed.active, mixed.rollback⟩,
      fun openbao => ⟨manual openbao, (restorable.openbao openbao).2⟩⟩, rest⟩

theorem does_targetRecover {check : Bool} (serve : c.adapter = .openbao → ∀ t, A .service t)
    (may : MayRecover A check)
    (failed : ∀ e t, (k.faults ∨ check = true ∨ ¬(c.adapter ≠ .client ∧
      (c.adapter = .openbao → s.manual) ∧ Recoverable c k s)) → Q (.error e) t)
    (ended : ∀ report t, (check = false → t.journal = none) →
      (∀ o, s.terminal = some (.whole o) → report = .notRequired (some o.state)) → Q (.ok report) t) :
    Does c k A (targetRecover c check) Q s := by
  simp only [targetRecover, bind_eq]
  refine does_reads (reads_requireServerAdapter id) (fun e client => ?_) fun _ server => ?_
  · exact failed e s (.inr (.inr fun fine => fine.1 client))
  refine does_reads reads_inspect (fun e faults => failed e s (.inl faults)) fun _ _ => ?_
  refine does_openbaoOnly (fun openbao => ?_) fun other => ?_
  · refine does_stopOpenbao (serve openbao s) (fun e t _ fails => failed e t ?_) fun manual => ?_
    · exact fails.imp_right fun bad => .inr fun fine => bad (fine.2.1 openbao)
    · refine does_recoverState may (fun e t fails => failed e t ?_) fun report t gone same =>
        ended report t gone same
      refine fails.imp_right (Or.imp_right fun bad fine => bad ?_)
      exact fine.2.2.served (served_command s .stop) fun _ => manual
  · refine does_recoverState may (fun e t fails => failed e t ?_) ended
    exact fails.imp_right (Or.imp_right fun bad fine => bad fine.2.2)

end PlatformConfig.Lifecycle
