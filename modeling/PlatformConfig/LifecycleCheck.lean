import PlatformConfig.LifecycleRecovery

/-!
# Commands in check mode

A command in check mode leaves everything but temporary files beside the configuration as it was,
apart from three things that it does before its check flag is looked at: a recovery stops OpenBao,
a recovery archives the terminal record that it finds, and the validation cycle of an OpenBao
activation starts the service that it may then fail to stop.
-/
namespace PlatformConfig.Lifecycle

open CrashProgram CrashDisk Prog

variable {c : Target} {k : Conditions} {s t : State} {j : Journal} {α β : Type}
  {Q : Except String β → State → Prop}

def Invocation.check : Invocation → Bool
  | .prepare check => check
  | .importResponse check => check
  | .install check => check
  | .activateStart check _ => check
  | .activateComplete check => check
  | .recover check => check

/-- An OpenBao activation that awaits its completion, where a command can start the service and
fail to stop it. -/
structure Cycles (c : Target) (k : Conditions) (s : State) (j : Journal) : Prop where
  openbao : c.adapter = .openbao
  faults : k.faults
  clean : s.leftovers = 0
  accepted : Accepted c s j
  validated : j.checkpoint = .localValidated
  valid : s.activeValid c
  timely : ∃ n, k.clock n ∧ n < j.rollbackDeadlineEpoch
  running : s.running = false
  manual : s.manual

/-- The states in which a command in check mode can change something. -/
inductive Disturbs (c : Target) (k : Conditions) (s : State) : Invocation → Prop
  | stop (openbao : c.adapter = .openbao) (running : s.running = true) : Disturbs c k s (.recover true)
  | archive {o : Terminal} {n m : ℕ} {v : Validated} (server : c.adapter ≠ .client)
      (manual : c.adapter = .openbao → s.manual) (clean : s.leftovers = 0)
      (terminal : s.terminal = some (.whole o)) (valid : o.wellFormed = true)
      (first : k.clock n) (second : k.clock m)
      (candidate : s.candidateAt c o.requestId n m = some v) (binds : o.bindsCandidate v = true)
      (active : s.activeValid c) (agrees : o.agrees s.active = true)
      (unarchived : s.archived o.requestId = none) : Disturbs c k s (.recover true)
  | complete {j : Journal} {n m : ℕ} {v : Validated} (h : Cycles c k s j)
      (free : s.requestJournal = false ∧ s.trustJournal = false) (terminal : s.terminal = none)
      (legible : s.legible) (first : k.clock n) (second : k.clock m)
      (candidate : s.candidateAt c j.requestId n m = some v)
      (same : j.artifactManifestSha256 = v.artifactSha256)
      (active : (s.active.any fun a => a.requestId = j.requestId) = true) :
      Disturbs c k s (.activateComplete true)
  | start {j : Journal} {rollbackSeconds l n m : ℕ} {p : Pending} {v : Validated} (h : Cycles c k s j)
      (long : minRollbackSeconds ≤ rollbackSeconds) (selected : Selectable c s j.requestId)
      (pin : s.pins c (.version j.requestId) j.artifactManifestSha256)
      (zeroth : k.clock l) (pending : s.pendingAt c j.requestId l = some p)
      (allows : c.adapterAllows p.record = true) (first : k.clock n) (second : k.clock m)
      (candidate : s.candidateAt c j.requestId n m = some v)
      (active : (s.active.any fun a => a.requestId = j.requestId &&
        a.artifactManifestSha256 = j.artifactManifestSha256) = true)
      (interval : j.rollbackDeadlineEpoch = j.createdEpoch + rollbackSeconds) :
      Disturbs c k s (.activateStart true rollbackSeconds)

/-! ## Elsewhere nothing changes -/

/-- How a program ends, whatever its steps are. -/
abbrev Leads (k : Conditions) (p : Run α) (Q : Except String α → State → Prop) (s : State) : Prop :=
  Holds (disk k) (fun _ => True) p Q s

lemma leads_reads {p : Run α} {f : α → Run β} {R : α → Prop} {F : Prop}
    (h : Reads (disk k) s p R F) (failed : ∀ e, Q (.error e) s) (rest : ∀ a, R a → Leads k (f a) Q s) :
    Leads k (p.bind f) Q s :=
  wp_reads (fun _ => trivial) h (fun e _ => failed e) rest

lemma leads_check {b : Bool} {e : String} {f : Unit → Run β} (refused : b = false → Q (.error e) s)
    (passed : b = true → Leads k (f ()) Q s) : Leads k ((require b e).bind f) Q s :=
  holds_check refused passed

/-- A program that changes nothing. -/
lemma leads_end {p : Run β} {R : β → Prop} {F : Prop} (h : Reads (disk k) s p R F)
    (ended : ∀ out, Q out s) : Leads k p Q s := by
  rw [← bind_ret_right p]
  exact leads_reads h (fun _ => ended _) fun _ _ => ended _

/-- The validation cycle of OpenBao, which ends as it started where nothing fails. -/
lemma leads_openbaoValidationCycle {certificate intermediate : String} {f : String × String → Run β}
    (disturbed : k.faults → s.running = false → s.manual → ∀ out t, Q out t)
    (failed : ∀ e, Q (.error e) s) (rest : ∀ a, Leads k (f a) Q s) :
    Leads k ((openbaoValidationCycle certificate intermediate).bind f) Q s := by
  simp only [openbaoValidationCycle, bind_eq, Prog.bind_assoc]
  refine leads_reads reads_requireOpenbao failed fun _ stopped => ?_
  by_cases faults : k.faults
  · exact wp_any (disturbed faults stopped.1 stopped.2)
  have back : (s.command .start).command .stop = s := by
    cases s
    simp_all [State.command]
  have stop : ∀ (g : Unit → Run β), Leads k (g ()) Q s →
      Leads k (stopOpenbao.bind g) Q (s.command .start) := by
    intro g ends
    simp only [stopOpenbao, bind_eq, Prog.bind_assoc]
    refine holds_wrote faults (fun _ _ => trivial) rfl trivial ?_
    rw [back]
    exact leads_reads reads_requireOpenbao failed fun _ _ => ends
  refine holds_wrote faults (fun _ _ => trivial) rfl trivial ?_
  refine wp_finally (P := fun _ t => t = s.command .start) ?_ ?_ ?_
  · refine leads_reads reads_requireOpenbao (fun _ => rfl) fun _ _ => ?_
    exact leads_end reads_strictLocalValidation fun _ => rfl
  · rintro a t rfl
    exact stop _ (rest a)
  · rintro e t rfl
    exact stop _ (failed e)

lemma leads_localValidation {v : Validated} {f : String × String → Run β}
    (disturbed : c.adapter = .openbao → k.faults → s.running = false → s.manual → ∀ out t, Q out t)
    (failed : ∀ e, Q (.error e) s) (rest : ∀ a, Leads k (f a) Q s) :
    Leads k ((localValidation c v).bind f) Q s := by
  unfold localValidation
  by_cases openbao : c.adapter = .openbao
  · rw [if_pos openbao]
    exact leads_openbaoValidationCycle (disturbed openbao) failed rest
  · rw [if_neg openbao]
    exact leads_reads reads_strictLocalValidation failed fun a _ => rest a

/-- The end of a command in check mode that may be one of those that disturb. -/
def Undisturbed (D : Prop) (s : State) : Except String Report → State → Prop :=
  fun _ t => D ∨ Listened s t

lemma Listened.refl (s : State) : Listened s s := ⟨s.configLeftovers, rfl⟩

lemma Undisturbed.same {D : Prop} (out : Except String Report) : Undisturbed D s out s :=
  .inr (.refl s)

lemma leads_failCompletion {D : Prop} {e : String} :
    Leads k (failCompletion c true j e) (Undisturbed D s) s := by
  simp only [failCompletion, bind_eq]
  exact leads_check (fun _ => .same _) (by rintro ⟨⟩)

lemma leads_activateComplete :
    Leads k (targetActivateComplete c true) (Undisturbed (Disturbs c k s (.activateComplete true)) s) s := by
  have same : ∀ out, Undisturbed (Disturbs c k s (.activateComplete true)) s out s := .same
  simp only [targetActivateComplete, bind_eq]
  refine leads_reads (reads_requireServerAdapter (F := True) fun _ => trivial) (fun _ => same _)
    fun _ _ => ?_
  refine leads_reads reads_stateEntries (fun _ => same _) ?_
  rintro s ⟨rfl, clean⟩
  refine leads_check (fun _ => same _) fun free => ?_
  refine leads_reads reads_readTerminal (fun _ => same _) fun o found => ?_
  refine leads_reads reads_completionRequest (fun _ => same _) fun r request => ?_
  refine leads_reads reads_inspect (fun _ => same _) fun _ _ => ?_
  refine leads_reads reads_authenticateTargetCandidate (fun _ => same _) fun v candidate => ?_
  cases o with
  | some o =>
    simp only [resumeCompletion, bind_eq, Bool.not_true, Bool.and_false, Bool.false_eq_true, if_false]
    refine leads_check (fun _ => same _) fun _ => ?_
    refine leads_reads reads_validateTerminalCandidate (fun _ => same _) fun _ _ => ?_
    refine leads_reads reads_validateTerminalActivation (fun _ => same _) fun _ _ => ?_
    exact leads_check (fun _ => same _) fun _ => same _
  | none =>
    refine leads_check (fun _ => same _) fun _ => ?_
    simp only [finishCompletion, bind_eq]
    refine leads_reads reads_readJournal (fun _ => same _) fun j accepted => ?_
    refine leads_check (fun _ => same _) fun bound => ?_
    simp only [Bool.and_eq_true, decide_eq_true_eq] at bound
    obtain rfl := request.2 j accepted.held
    refine leads_reads reads_authenticateActive (fun _ => same _) ?_
    rintro a ⟨rfl, valid⟩
    refine leads_check (fun _ => same _) fun active => ?_
    refine leads_reads (reads_now (F := False)) (fun _ => same _) fun n at_ => ?_
    by_cases expired : j.rollbackDeadlineEpoch ≤ n
    · rw [if_pos expired]
      exact leads_failCompletion
    · rw [if_neg expired]
      simp only [validateTargetCompletion]
      refine wp_bind.mpr (wp_handle.mpr ?_)
      simp only [bind_eq]
      refine leads_localValidation (fun openbao faults running manual out t => ?_)
        (fun e => leads_failCompletion (c := c) (k := k) (j := j) (e := e)) fun served => ?_
      · obtain ⟨n', m', first, second, there⟩ := candidate
        simp only [Bool.and_eq_true, Bool.not_eq_true'] at free
        have disturbs : Disturbs c k s (.activateComplete true) :=
          .complete ⟨openbao, faults, clean, accepted, bound.1.1, valid, ⟨n, at_, by omega⟩, running,
            manual⟩ free found.at_ request.1 first second there bound.2 active
        have ended : ∀ (p : Run Report), Leads k p
            (Undisturbed (Disturbs c k s (.activateComplete true)) s) t :=
          fun p => wp_any fun _ _ => .inl disturbs
        cases out with
        | error e => exact ended _
        | ok a => exact ended _
      · refine leads_reads (reads_now (F := False)) (fun e => leads_failCompletion (c := c) (k := k) (j := j) (e := e)) fun m _ => ?_
        simp only [succeedCompletion, bind_eq]
        refine leads_reads (reads_now (F := False)) (fun _ => same _) fun n' _ => ?_
        by_cases late : j.rollbackDeadlineEpoch ≤ n'
        · rw [if_pos late]
          exact leads_failCompletion
        · rw [if_neg late]
          exact same _

lemma leads_revalidateActivation {D : Prop} {rollbackSeconds : ℕ} {r artifact : String}
    {f : Report → Run Report}
    (disturbed : ∀ j v, Cycles c k s j → j.requestId = r → j.artifactManifestSha256 = artifact →
      (∃ n m, k.clock n ∧ k.clock m ∧ s.candidateAt c r n m = some v) →
      (s.active.any fun a => a.requestId = r && a.artifactManifestSha256 = artifact) = true →
      j.rollbackDeadlineEpoch = j.createdEpoch + rollbackSeconds → D)
    (clean : s.leftovers = 0) (rest : ∀ report, Leads k (f report) (Undisturbed D s) s) :
    Leads k ((revalidateActivation c true rollbackSeconds r artifact).bind f) (Undisturbed D s) s := by
  have same : ∀ out, Undisturbed D s out s := .same
  simp only [revalidateActivation, bind_eq, Prog.bind_assoc]
  refine leads_reads reads_readJournal (fun _ => same _) fun j accepted => ?_
  refine leads_check (fun _ => same _) fun bound => ?_
  simp only [Bool.and_eq_true, decide_eq_true_eq] at bound
  refine leads_reads reads_authenticateTargetCandidate (fun _ => same _) fun v candidate => ?_
  refine leads_reads reads_authenticateActive (fun _ => same _) ?_
  rintro a ⟨rfl, valid⟩
  refine leads_check (fun _ => same _) fun active => leads_check (fun _ => same _) fun interval => ?_
  refine leads_reads (reads_now (F := False)) (fun _ => same _) fun n at_ => ?_
  by_cases expired : j.rollbackDeadlineEpoch ≤ n
  · simp only [if_pos expired, Prog.bind_assoc]
    exact leads_check (fun _ => same _) (by rintro ⟨⟩)
  · simp only [if_neg expired, Prog.bind_assoc]
    refine leads_localValidation (fun openbao faults running manual _ _ => .inl ?_) (fun _ => same _)
      fun served => rest _
    exact disturbed j v ⟨openbao, faults, clean, accepted, bound.1.1, valid, ⟨n, at_, by omega⟩, running,
      manual⟩ bound.1.2 bound.2 candidate active (of_decide_eq_true interval)

lemma leads_retireCurrentTargetTerminal {D : Prop} {r : String} {f : Unit → Run Report}
    (rest : Leads k (f ()) (Undisturbed D s) s) :
    Leads k ((retireCurrentTargetTerminal c true r).bind f) (Undisturbed D s) s := by
  have same : ∀ out, Undisturbed D s out s := .same
  simp only [retireCurrentTargetTerminal, bind_eq, Prog.bind_assoc]
  refine leads_reads reads_readTerminal (fun _ => same _) fun o found => ?_
  cases o with
  | none => exact rest
  | some o =>
    simp only [Prog.bind_assoc]
    refine leads_check (fun _ => same _) fun _ => ?_
    refine leads_reads reads_readHistory (fun _ => same _) fun h _ => ?_
    cases h.find? fun a => a.requestId = o.requestId with
    | none =>
      simp only [retireTerminal, bind_eq, Prog.bind_assoc, if_true]
      refine leads_reads reads_validateTerminalCandidate (fun _ => same _) fun _ _ => ?_
      exact leads_reads reads_validateTerminalActivation (fun _ => same _) fun _ _ => rest
    | some a =>
      simp only [retireTerminal, bind_eq, Prog.bind_assoc, if_true]
      exact leads_check (fun _ => same _) fun _ => rest

lemma leads_activateStart {D : Prop} {rollbackSeconds : ℕ} {r artifact : String}
    {operation : Operation} (positive : 0 < rollbackSeconds) (pin : s.pins c (.version r) artifact) :
    Leads k (activateStart c true rollbackSeconds r artifact operation) (Undisturbed D s) s := by
  have does : Does c k (fun _ _ => True) (activateStart c true rollbackSeconds r artifact operation)
      (fun _ t => Listened s t) s := by
    simp only [activateStart, bind_eq]
    exact does_planActivation positive pin (fun _ _ => trivial) (fun _ _ listened => listened)
      fun _ _ listened _ => listened
  exact wp_mono does (fun _ _ _ _ => trivial) fun _ _ listened => .inr listened

lemma leads_targetActivateStart {rollbackSeconds : ℕ} : Leads k
    ((Invocation.activateStart true rollbackSeconds).program c)
    (Undisturbed (Disturbs c k s (.activateStart true rollbackSeconds)) s) s := by
  have same : ∀ out, Undisturbed (Disturbs c k s (.activateStart true rollbackSeconds)) s out s := .same
  refine leads_check (fun _ => same _) fun long => ?_
  have long := of_decide_eq_true long
  have positive : 0 < rollbackSeconds := by
    unfold minRollbackSeconds at long
    omega
  simp only [targetActivateStart, bind_eq]
  refine leads_reads (reads_requireServerAdapter (F := True) fun _ => trivial) (fun _ => same _)
    fun _ _ => ?_
  refine leads_reads reads_pendingRequestId (fun _ => same _) fun r selected => ?_
  refine leads_reads reads_artifactDigest (fun _ => same _) fun artifact pin => ?_
  simp only [activateFirst, bind_eq, Prog.bind_assoc]
  refine leads_reads reads_inspect (fun _ => same _) fun _ _ => ?_
  refine leads_reads reads_validatePending (fun _ => same _) fun p pending => ?_
  refine leads_check (fun _ => same _) fun allows => ?_
  refine leads_reads reads_stateEntries (fun _ => same _) ?_
  rintro s ⟨rfl, clean⟩
  by_cases there : s.journal.isSome = true
  · simp only [if_pos there, Prog.bind_assoc]
    refine leads_revalidateActivation (fun j v cycles same_ artifact_ candidate active interval => ?_)
      clean fun _ => same _
    subst same_ artifact_
    obtain ⟨l, zeroth, pending⟩ := pending
    obtain ⟨n, m, first, second, candidate⟩ := candidate
    exact .start cycles long selected pin zeroth pending allows first second candidate active interval
  · simp only [if_neg there, Prog.bind_assoc]
    exact leads_retireCurrentTargetTerminal (leads_activateStart positive pin)

/-- A record that is already in the history is not written again. -/
lemma reads_archived {o : Terminal} {x : Content Terminal} (there : s.archived o.requestId = some x) :
    Reads (disk k) s (archiveTargetTerminal o) (fun _ => True) True := by
  obtain ⟨h, history, found⟩ := Option.bind_eq_some_iff.mp there
  simp only [archiveTargetTerminal, bind_eq]
  refine reads_inspect.bind (fun _ => trivial) fun _ _ => reads_look ?_
  simp only [makeHistory, history, Option.isSome_some, if_true, pure_eq, bind_ret]
  refine reads_look ?_
  simp only [history, ofOption, bind_ret, archiveNew, found]
  exact (reads_require fun _ => trivial).mono (fun _ _ => trivial) id

/-- What a recovery in check mode does behind the archive: it reads. -/
lemma reads_recovered {o : Terminal} {u : State} : Reads (disk k) s (if u.journal.isSome = true then
    (readJournal c).bind fun j => (require (j.requestId = o.requestId)
      "terminal record and activation journal differ").bind fun _ => (require (!true)
      "target-local terminal cleanup is required").bind fun _ => (inspect "activation journal changed").bind
      fun _ => (write .unlinkJournal "cannot remove activation journal").bind fun _ =>
      .ret (.notRequired (some o.state)) else .ret (.notRequired (some o.state)) : Run Report)
    (fun _ => True) True := by
  by_cases there : u.journal.isSome = true
  · rw [if_pos there]
    refine reads_readJournal.bind (fun _ => trivial) fun j _ => reads_check (fun _ => trivial) fun _ => ?_
    exact reads_check (fun _ => trivial) (by rintro ⟨⟩)
  · rw [if_neg there]
    exact reads_ret trivial

lemma leads_recoverState {D : Prop}
    (disturbed : ∀ o n m v, s.leftovers = 0 → s.terminal = some (.whole o) → o.wellFormed = true →
      k.clock n → k.clock m → s.candidateAt c o.requestId n m = some v → o.bindsCandidate v = true →
      s.activeValid c → o.agrees s.active = true → s.archived o.requestId = none → D) :
    Leads k (recoverState c true) (Undisturbed D s) s := by
  have same : ∀ out, Undisturbed D s out s := .same
  simp only [recoverState, bind_eq]
  refine leads_reads reads_stateEntries (fun _ => same _) ?_
  rintro s ⟨rfl, clean⟩
  refine leads_reads reads_readTerminal (fun _ => same _) fun o found => ?_
  cases o with
  | some o =>
    simp only [recoverTerminal, bind_eq]
    refine leads_reads reads_inspect (fun _ => same _) fun _ _ => ?_
    refine leads_reads reads_validateTerminalCandidate (fun _ => same _) fun _ candidate => ?_
    refine leads_reads reads_validateTerminalActivation (fun _ => same _) fun _ active => ?_
    obtain ⟨n, m, v, first, second, candidate, binds⟩ := candidate
    cases archived : s.archived o.requestId with
    | none =>
      have disturbs : D := disturbed o n m v clean found.at_ (found.wellFormed o rfl) first second
        candidate binds active.1 active.2 archived
      exact wp_any fun _ _ => .inl disturbs
    | some x =>
      refine leads_reads (reads_archived archived) (fun _ => same _) fun _ _ => ?_
      exact leads_end reads_recovered same
  | none =>
    by_cases there : s.journal.isSome = true
    · rw [if_pos there]
      simp only [recoverJournal, bind_eq]
      refine leads_reads reads_readJournal (fun _ => same _) fun j _ => ?_
      refine leads_reads reads_inspect (fun _ => same _) fun _ _ => ?_
      refine leads_reads reads_authenticateTargetCandidate (fun _ => same _) fun v _ => ?_
      refine leads_check (fun _ => same _) fun _ => ?_
      cases j.checkpoint.failure with
      | some failure => exact leads_check (fun _ => same _) (by rintro ⟨⟩)
      | none => exact leads_check (fun _ => same _) (by rintro ⟨⟩)
    · rw [if_neg there]
      exact same _

lemma leads_targetRecover :
    Leads k (targetRecover c true) (Undisturbed (Disturbs c k s (.recover true)) s) s := by
  have same : ∀ out, Undisturbed (Disturbs c k s (.recover true)) s out s := .same
  simp only [targetRecover, bind_eq]
  refine leads_reads (reads_requireServerAdapter (F := True) fun _ => trivial) (fun _ => same _)
    fun _ server => ?_
  refine leads_reads reads_inspect (fun _ => same _) fun _ _ => ?_
  unfold openbaoOnly
  by_cases openbao : c.adapter = .openbao
  · rw [if_pos openbao]
    cases running : s.running with
    | true => exact wp_any fun _ _ => .inl (.stop openbao running)
    | false =>
      have stopped : s.command .stop = s := by
        cases s
        simp_all [State.command]
      simp only [stopOpenbao, bind_eq, Prog.bind_assoc]
      refine holds_write (fun _ _ => trivial) (fun _ => ⟨trivial, same _⟩) fun u applied => ⟨trivial, ?_⟩
      cases applied
      rw [stopped]
      refine leads_reads reads_requireOpenbao (fun _ => same _) fun _ fine => ?_
      exact leads_recoverState fun o n m v clean terminal valid first second candidate binds active
        agrees unarchived => .archive server (fun _ => fine.2) clean terminal valid first second candidate
          binds active agrees unarchived
  · rw [if_neg openbao]
    exact leads_recoverState fun o n m v clean terminal valid first second candidate binds active
      agrees unarchived => .archive server (fun h => absurd h openbao) clean terminal valid first second
        candidate binds active agrees unarchived

/-- What every allowed move keeps holds at the end of a run; a run that ends has torn nothing. -/
lemma exec_invariant {p : Run Report} {I : State → Prop} {A : Label → State → Prop}
    {out : Except String Report} (does : ∀ k, Does c k A p Any s)
    (keeps : ∀ l s t, I s → A l s → Move c l s t → I t) (hs : I s)
    (run : Exec (disk k).semantics p s out t) : I t := by
  have whole : Exec (disk { k with tears := False }).semantics p s out t := by
    refine exec_mono (D := disk k) (E := disk { k with tears := False }) rfl (fun x _ _ answer => ?_) (fun _ fails => fails) run
    cases x <;> exact answer
  exact killed_invariant (fun tears => tears) keeps (does _) hs whole.killed

lemma quiet_unchanged {p : Run Report} {out : Except String Report}
    (does : ∀ k, Does c k (fun _ _ => False) p Any s) (run : Exec (disk k).semantics p s out t) :
    t = s :=
  exec_invariant (I := (· = s)) does (fun _ _ _ _ may _ => may.elim) rfl run

/-- Every end of a command in check mode where it does not disturb. -/
theorem check_unchanged {o : Invocation} {out : Except String Report} (checked : o.check = true)
    (calm : ¬Disturbs c k s o) (run : Exec (disk k).semantics (o.program c) s out t) : Listened s t := by
  have ended : ∀ {p : Run Report}, o.program c = p → Leads k p (Undisturbed (Disturbs c k s o) s) s →
      Listened s t := by
    rintro p rfl leads
    exact (wp_exec leads run).resolve_left calm
  cases o with
  | prepare check =>
    cases checked
    rw [quiet_unchanged (fun _ => does_targetResponsePrepare (by rintro ⟨⟩)) run]
    exact .refl s
  | importResponse check =>
    cases checked
    rw [quiet_unchanged (fun _ => does_targetResponseImport (by rintro ⟨⟩)) run]
    exact .refl s
  | install check =>
    cases checked
    rw [quiet_unchanged (fun _ => does_targetResponseInstall (by rintro ⟨⟩)) run]
    exact .refl s
  | activateStart check rollbackSeconds =>
    cases checked
    exact ended rfl leads_targetActivateStart
  | activateComplete check =>
    cases checked
    exact ended rfl leads_activateComplete
  | recover check =>
    cases checked
    exact ended rfl leads_targetRecover

/-! ## There something can change -/

/-- A run on a calm host is a run under all conditions that allow the times of its clock. -/
lemma exec_calm {clock : ℕ → Prop} {p : Run α} {out : Except String α}
    (within : ∀ n, clock n → k.clock n) (run : Exec (disk (calm clock)).semantics p s out t) :
    Exec (disk k).semantics p s out t := by
  refine exec_mono (D := disk (calm clock)) (E := disk k) rfl (fun x _ _ answer => ?_)
    (fun _ fails => fails.elim) run
  cases x with
  | now => exact within _ answer
  | inspect =>
    have answer : _ ∨ False := answer
    exact .inl (answer.resolve_right id)
  | _ => trivial

/-- A reader that cannot fail on a calm host has a run to each value that it finds there. -/
lemma reads_gives {clock : ℕ → Prop} {n : ℕ} {p : Run α} {R : α → Prop} {F : Prop}
    (h : Reads (disk (calm clock)) s p R F) (fine : ¬F) (at_ : clock n)
    (within : ∀ n, clock n → k.clock n) : ∃ a, R a ∧ Exec (disk k).semantics p s (.ok a) s := by
  obtain ⟨out, t, run⟩ := exec_exists (calm_answers at_) p s
  have ended := wp_exec h run
  cases out with
  | error e => exact absurd ended.2 fine
  | ok a =>
    obtain ⟨rfl, value⟩ := ended
    exact ⟨a, value, exec_calm within run⟩

/-- A reader whose value on a calm host is one only. -/
lemma reads_value {n : ℕ} {p : Run α} {R : α → Prop} {F : Prop} {a : α} (at_ : k.clock n)
    (h : Reads (disk (calm (· = n))) s p R F) (fine : ¬F) (only : ∀ b, R b → b = a) :
    Exec (disk k).semantics p s (.ok a) s := by
  obtain ⟨b, value, run⟩ := reads_gives h fine rfl (by rintro m rfl; exact at_)
  rwa [only b value] at run

lemma gives_candidate {r : String} {n m : ℕ} {v : Validated} (first : k.clock n) (second : k.clock m)
    (h : s.candidateAt c r n m = some v) :
    Exec (disk k).semantics (authenticateTargetCandidate c r) s (.ok v) s := by
  obtain ⟨p, pending, h⟩ := Option.bind_eq_some_iff.mp h
  obtain ⟨d, version, valid⟩ := Option.bind_eq_some_iff.mp h
  have none_ : ∀ {α : Type} {x : Option α} {a : α}, x = some a → x ≠ none := by
    rintro α x a rfl ⟨⟩
  refine .bind (a := p) (t := s) ?_ (.bind (a := d) (t := s) ?_ ?_)
  · refine reads_value first reads_validatePending ?_ ?_
    · rintro (faults | ⟨_, rfl, absent⟩)
      · exact faults
      · exact none_ pending absent
    · rintro b ⟨_, rfl, there⟩
      exact Option.some.inj (there.symm.trans pending)
  · refine reads_value first reads_validateVersion ?_ fun b there => Option.some.inj (there.symm.trans version)
    rintro (faults | absent)
    · exact faults
    · exact none_ version absent
  · refine reads_value second reads_validateResponseFiles ?_ ?_
    · rintro ⟨_, rfl, absent⟩
      exact none_ valid absent
    · rintro b ⟨_, rfl, there⟩
      exact Option.some.inj (there.symm.trans valid)

lemma gives_inspect {e : String} : Exec (disk k).semantics (inspect e) s (.ok ()) s :=
  .call (Done.ask (.inl rfl)) (.ret () s)

lemma gives_server (server : c.adapter ≠ .client) :
    Exec (disk k).semantics (requireServerAdapter c) s (.ok ()) s := by
  unfold requireServerAdapter
  rw [decide_eq_true server]
  exact .ret () s

lemma gives_now {n : ℕ} (at_ : k.clock n) : Exec (disk k).semantics now s (.ok n) s :=
  .call (Done.ask at_) (.ret n s)

lemma gives_require {b : Bool} {e : String} (passed : b = true) :
    Exec (disk k).semantics (require b e) s (.ok ()) s := by
  subst passed
  exact .ret () s

lemma gives_stateEntries {n : ℕ} (at_ : k.clock n) (clean : s.leftovers = 0) :
    Exec (disk k).semantics stateEntries s (.ok s) s :=
  reads_value at_ reads_stateEntries (fun fails => fails.elim id fun unclean => unclean clean)
    fun _ read => read.1

lemma gives_readTerminal {n : ℕ} {o : Option Terminal} (at_ : k.clock n) (there : s.terminal = o.map .whole)
    (valid : ∀ u, o = some u → u.wellFormed = true) :
    Exec (disk k).semantics readTerminal s (.ok o) s := by
  refine reads_value at_ reads_readTerminal (fun fails => fails.elim id fun bad => bad ?_) fun b found => ?_
  · intro x at'
    rw [there] at at'
    obtain ⟨u, rfl, rfl⟩ := Option.map_eq_some_iff.mp at'
    exact ⟨u, rfl, valid u rfl⟩
  · have same := found.at_.symm.trans there
    cases b <;> cases o <;> simp_all

lemma gives_readJournal {n : ℕ} (at_ : k.clock n) (accepted : Accepted c s j) :
    Exec (disk k).semantics (readJournal c) s (.ok j) s :=
  reads_value at_ reads_readJournal (fun fails => fails.elim id fun none_ => none_ ⟨j, accepted⟩)
    fun _ read => read.held.unique accepted.held

lemma gives_authenticateActive {n : ℕ} (at_ : k.clock n) (valid : s.activeValid c) :
    Exec (disk k).semantics (authenticateActive c) s (.ok s.active) s :=
  reads_value at_ reads_authenticateActive (fun fails => fails.elim id fun bad => bad valid)
    fun _ read => read.1

lemma gives_requireOpenbao {n : ℕ} {running : Bool} (at_ : k.clock n) (state : s.running = running)
    (manual : s.manual) : Exec (disk k).semantics (requireOpenbao running) s (.ok ()) s :=
  reads_value at_ reads_requireOpenbao (fun fails => fails.elim id fun bad => bad ⟨state, manual⟩)
    fun _ _ => rfl

/-- A program that only reads can run to its end. -/
lemma exec_reads {n : ℕ} {p : Run α} {R : α → Prop} {F : Prop} (at_ : k.clock n)
    (reads : ∀ k, Reads (disk k) s p R F) : ∃ out, Exec (disk k).semantics p s out s := by
  obtain ⟨out, t, run⟩ := exec_exists (D := disk (calm (· = n))) (calm_answers rfl) p s
  refine ⟨out, ?_⟩
  have ended := wp_exec (reads _) run
  have same : t = s := by cases out <;> exact ended.1
  rw [same] at run
  exact exec_calm (by rintro m rfl; exact at_) run

/-- The archive of a record that the history does not hold. -/
lemma archives_history (c : Target) {n : ℕ} {o : Terminal} (at_ : k.clock n) (terminal : s.terminal = some (.whole o))
    (valid : o.wellFormed = true) (unarchived : s.archived o.requestId = none) :
    ∃ h, s.history ≠ some h ∧
      Exec (disk k).semantics (archiveTargetTerminal o) s (.ok ()) { s with history := some h } := by
  obtain ⟨out, t, run⟩ := exec_exists (@calm_answers (· = n) n rfl) (archiveTargetTerminal o) s
  have does : Does c (calm (· = n)) (fun _ _ => True) ((archiveTargetTerminal o).bind .ret)
      (fun out t => out = .ok () ∧ ∃ h, t = { s with history := some h } ∧ ArchivedIn s o h) s := by
    refine does_archiveTargetTerminal terminal valid (fun _ => trivial) (fun e h fails => ?_)
      fun h in_ => ⟨rfl, h, rfl, in_⟩
    rcases fails with faults | ⟨x, there, -⟩
    · exact faults.elim
    · rw [unarchived] at there
      cases there
  rw [bind_ret_right] at does
  obtain ⟨rfl, h, rfl, in_⟩ := wp_exec does run
  refine ⟨h, fun same => ?_, exec_calm (by rintro m rfl; exact at_) run⟩
  rw [State.archived, same] at unarchived
  have there := in_.there
  rw [show h.lookup o.requestId = none from unarchived] at there
  cases there

/-- A recovery in check mode that archives the terminal record. -/
lemma recoverState_changes {o : Terminal} {n m : ℕ} {v : Validated} (clean : s.leftovers = 0)
    (terminal : s.terminal = some (.whole o)) (valid : o.wellFormed = true) (first : k.clock n)
    (second : k.clock m) (candidate : s.candidateAt c o.requestId n m = some v)
    (binds : o.bindsCandidate v = true) (active : s.activeValid c) (agrees : o.agrees s.active = true)
    (unarchived : s.archived o.requestId = none) :
    ∃ out t, Exec (disk k).semantics (recoverState c true) s out t ∧ t.history ≠ s.history := by
  obtain ⟨h, other, archive⟩ := archives_history c first terminal valid unarchived
  have read : Exec (disk k).semantics readTerminal s (.ok (some o)) s :=
    gives_readTerminal first terminal (by rintro u ⟨⟩; exact valid)
  have authentic : Exec (disk k).semantics (validateTerminalCandidate c o) s (.ok ()) s :=
    (gives_candidate first second candidate).bind (gives_require binds)
  have activation : Exec (disk k).semantics (validateTerminalActivation c o) s (.ok ()) s :=
    (gives_authenticateActive first active).bind (gives_require agrees)
  -- behind the archive the command only reads
  obtain ⟨out, rest⟩ := exec_reads first fun k =>
    reads_recovered (c := c) (k := k) (s := { s with history := some h }) (o := o) (u := s)
  refine ⟨out, { s with history := some h }, ?_, fun same => other same.symm⟩
  simp only [recoverState, bind_eq]
  refine (gives_stateEntries first clean).bind (read.bind ?_)
  simp only [recoverTerminal, bind_eq, pure_eq]
  exact gives_inspect.bind (authentic.bind (activation.bind (archive.bind rest)))

lemma Listened.history (h : Listened s t) : t.history = s.history := by
  obtain ⟨n, rfl⟩ := h
  rfl

lemma Listened.running (h : Listened s t) : t.running = s.running := by
  obtain ⟨n, rfl⟩ := h
  rfl

/-- The stop of OpenBao by a recovery, before anything is looked at. -/
lemma recover_stops {n : ℕ} (at_ : k.clock n) (openbao : c.adapter = .openbao) :
    ∃ out t, Exec (disk k).semantics (targetRecover c true) s out t ∧ t.running = false := by
  obtain ⟨out, t, run⟩ := exec_exists (D := disk (calm (· = n))) (calm_answers rfl)
    ((requireOpenbao false).bind fun _ => recoverState c true) (s.command .stop)
  have does : ∀ k, Does c k (fun l _ => l = .archive)
      ((requireOpenbao false).bind fun _ => recoverState c true) Any (s.command .stop) := by
    intro k
    refine does_reads reads_requireOpenbao (fun _ _ => trivial) fun _ _ => ?_
    exact does_recoverState ⟨fun _ => rfl, by rintro ⟨⟩, by rintro ⟨⟩⟩ (fun _ _ _ => trivial)
      fun _ _ _ _ => trivial
  have stopped : t.running = false := by
    refine exec_invariant (I := fun t => t.running = false) does (fun l s t still may move => ?_) rfl run
    subst may
    cases move with
    | history | archive => exact still
  refine ⟨out, t, ?_, stopped⟩
  have server : c.adapter ≠ .client := by
    rw [openbao]
    rintro ⟨⟩
  simp only [targetRecover, bind_eq, openbaoOnly, if_pos openbao, stopOpenbao, Prog.bind_assoc]
  refine (gives_server server).bind (gives_inspect.bind ?_)
  have stop : Exec (disk k).semantics (command .stop) s (.ok ()) (s.command .stop) := exec_wrote rfl
  exact stop.bind (exec_calm (by rintro m rfl; exact at_) run)

/-- A recovery that archives, behind the stop of OpenBao. -/
lemma recover_archives {o : Terminal} {n m : ℕ} {v : Validated} (server : c.adapter ≠ .client)
    (manual : c.adapter = .openbao → s.manual) (clean : s.leftovers = 0)
    (terminal : s.terminal = some (.whole o)) (valid : o.wellFormed = true) (first : k.clock n)
    (second : k.clock m) (candidate : s.candidateAt c o.requestId n m = some v)
    (binds : o.bindsCandidate v = true) (active : s.activeValid c) (agrees : o.agrees s.active = true)
    (unarchived : s.archived o.requestId = none) :
    ∃ out t, Exec (disk k).semantics (targetRecover c true) s out t ∧ t.history ≠ s.history := by
  by_cases openbao : c.adapter = .openbao
  · obtain ⟨out, t, run, other⟩ := recoverState_changes (s := s.command .stop) clean terminal valid first
      second candidate binds active agrees unarchived
    refine ⟨out, t, ?_, other⟩
    simp only [targetRecover, bind_eq, openbaoOnly, if_pos openbao, stopOpenbao, Prog.bind_assoc]
    refine (gives_server server).bind (gives_inspect.bind ?_)
    have stop : Exec (disk k).semantics (command .stop) s (.ok ()) (s.command .stop) := exec_wrote rfl
    have inactive : Exec (disk k).semantics (requireOpenbao false) (s.command .stop) (.ok ())
        (s.command .stop) := gives_requireOpenbao first rfl (manual openbao)
    exact stop.bind (inactive.bind run)
  · obtain ⟨out, t, run, other⟩ := recoverState_changes clean terminal valid first second candidate binds
      active agrees unarchived
    refine ⟨out, t, ?_, other⟩
    simp only [targetRecover, bind_eq, openbaoOnly, if_neg openbao]
    exact (gives_server server).bind (gives_inspect.bind run)

/-- A validation cycle that starts OpenBao and fails to stop it. -/
lemma localValidation_starts {n : ℕ} {v : Validated} (at_ : k.clock n) (h : Cycles c k s j) :
    ∃ e, Exec (disk k).semantics (localValidation c v) s (.error e) (s.command .start) := by
  have started : Exec (disk k).semantics (command .start) s (.ok ()) (s.command .start) :=
    exec_wrote rfl
  have validates : Exec (disk k).semantics (strictLocalValidation v.certificateSha256 v.intermediateSha256)
      (s.command .start) (.ok ("", "")) (s.command .start) :=
    .call (r := some ("", "")) (Done.ask trivial) (.ret _ _)
  have active : Exec (disk k).semantics (requireOpenbao true) (s.command .start) (.ok ())
      (s.command .start) := gives_requireOpenbao at_ rfl h.manual
  have refused : Exec (disk k).semantics (command .stop) (s.command .start)
      (.error "systemctl command failed") (s.command .start) := exec_refused (.inr h.faults)
  refine ⟨"systemctl command failed", ?_⟩
  simp only [localValidation, if_pos h.openbao, openbaoValidationCycle, bind_eq, finally_]
  refine (gives_requireOpenbao at_ h.running h.manual).bind (started.bind ?_)
  refine Exec.bind (Exec.handle_ok (Exec.bind ?_ (.ret (Except.ok ("", "")) (s.command .start)))) ?_
  · exact active.bind validates
  · exact Exec.bind_error refused.bind_error

/-- What a command reads before it completes an activation in check mode. -/
lemma complete_starts {n m : ℕ} {v : Validated} (h : Cycles c k s j)
    (free : s.requestJournal = false ∧ s.trustJournal = false) (terminal : s.terminal = none)
    (legible : s.legible) (first : k.clock n) (second : k.clock m)
    (candidate : s.candidateAt c j.requestId n m = some v)
    (same : j.artifactManifestSha256 = v.artifactSha256)
    (active : (s.active.any fun a => a.requestId = j.requestId) = true) :
    ∃ out, Exec (disk k).semantics (targetActivateComplete c true) s out (s.command .start) := by
  have server : c.adapter ≠ .client := by
    rw [h.openbao]
    rintro ⟨⟩
  have read : Exec (disk k).semantics readTerminal s (.ok none) s :=
    gives_readTerminal first terminal (by rintro u ⟨⟩)
  have request : Exec (disk k).semantics (completionRequest c s none) s (.ok j.requestId) s :=
    reads_value first reads_completionRequest
      (fun fails => fails.elim id fun bad => bad ⟨legible, j, h.accepted⟩)
      fun _ found => found.2 j h.accepted.held
  have journal : s.journal.isSome = true := by
    rw [h.accepted.held]
    rfl
  obtain ⟨time, at_, early⟩ := h.timely
  obtain ⟨e, validation⟩ := localValidation_starts (v := v) first h
  have failed : Exec (disk k).semantics (failCompletion c true j e) (s.command .start) (.error e)
      (s.command .start) := .fail e _
  refine ⟨.error e, ?_⟩
  simp only [targetActivateComplete, bind_eq]
  refine (gives_server server).bind ((gives_stateEntries first h.clean).bind ?_)
  refine Exec.bind (a := ()) (gives_require (by simp [free])) (read.bind (request.bind ?_))
  refine gives_inspect.bind ((gives_candidate first second candidate).bind ?_)
  refine Exec.bind (a := ()) (gives_require journal) ?_
  simp only [finishCompletion, bind_eq]
  refine (gives_readJournal first h.accepted).bind ?_
  refine Exec.bind (a := ()) (gives_require (by simp [h.validated, same])) ?_
  refine (gives_authenticateActive first h.valid).bind (Exec.bind (a := ()) (gives_require active) ?_)
  refine (gives_now at_).bind ?_
  rw [if_neg (by omega)]
  have validated : Exec (disk k).semantics (validateTargetCompletion c v) s (.ok (.error e))
      (s.command .start) := Exec.handle_error validation.bind_error (.ret _ _)
  exact validated.bind failed

lemma candidate_artifact {r : String} {n m : ℕ} {v : Validated}
    (h : s.candidateAt c r n m = some v) : s.artifactLegible (.version r) := by
  obtain ⟨p, -, h⟩ := Option.bind_eq_some_iff.mp h
  obtain ⟨d, version, -⟩ := Option.bind_eq_some_iff.mp h
  obtain ⟨there, exact_⟩ := Option.filter_eq_some_iff.mp version
  simp only [Dir.exact, Bool.and_eq_true, List.all_eq_true] at exact_
  obtain ⟨a, found, fine⟩ := Option.any_eq_true _ _ |>.mp (exact_.2 .artifact (by decide))
  exact ⟨d, a, there, found, fine⟩

/-- What a command reads before it looks again at an activation in check mode. -/
lemma start_starts {rollbackSeconds l n m : ℕ} {p : Pending} {v : Validated} (h : Cycles c k s j)
    (long : minRollbackSeconds ≤ rollbackSeconds) (selected : Selectable c s j.requestId)
    (pin : s.pins c (.version j.requestId) j.artifactManifestSha256)
    (zeroth : k.clock l) (pending : s.pendingAt c j.requestId l = some p)
    (allows : c.adapterAllows p.record = true) (first : k.clock n) (second : k.clock m)
    (candidate : s.candidateAt c j.requestId n m = some v)
    (active : (s.active.any fun a => a.requestId = j.requestId &&
      a.artifactManifestSha256 = j.artifactManifestSha256) = true)
    (interval : j.rollbackDeadlineEpoch = j.createdEpoch + rollbackSeconds) :
    ∃ out, Exec (disk k).semantics ((Invocation.activateStart true rollbackSeconds).program c) s out
      (s.command .start) := by
  have server : c.adapter ≠ .client := by
    rw [h.openbao]
    rintro ⟨⟩
  have select : Exec (disk k).semantics (pendingRequestId c) s (.ok j.requestId) s := by
    refine reads_value first reads_pendingRequestId
      (fun fails => fails.elim id fun bad => bad ⟨_, selected⟩) fun r found => ?_
    have excluded := reads_gives (k := k) (reads_selectionExcluded (c := c) (s := s))
      (fun fails => fails.elim id fun bad => bad.2 (selected.legible bad.1)) (n := n) rfl
      (by rintro m rfl; exact first)
    obtain ⟨ids, ⟨-, excludes⟩, -⟩ := excluded
    have only := (found.only ids excludes).symm.trans (selected.only ids excludes)
    simpa using only
  have digest : Exec (disk k).semantics (artifactDigest c (.version j.requestId)) s
      (.ok j.artifactManifestSha256) s := by
    refine reads_value first reads_artifactDigest
      (fun fails => fails.elim id fun bad => bad (candidate_artifact candidate)) ?_
    rintro b ⟨d, there, rfl⟩
    obtain ⟨d', there', same⟩ := pin
    rw [there] at there'
    cases there'
    exact same.symm
  have request : Exec (disk k).semantics (validatePending c j.requestId) s (.ok p) s := by
    refine reads_value zeroth reads_validatePending ?_ ?_
    · rintro (faults | ⟨_, rfl, absent⟩)
      · exact faults
      · rw [pending] at absent
        cases absent
    · rintro b ⟨_, rfl, there⟩
      exact Option.some.inj (there.symm.trans pending)
  have journal : s.journal.isSome = true := by
    rw [h.accepted.held]
    rfl
  obtain ⟨time, at_, early⟩ := h.timely
  obtain ⟨e, validation⟩ := localValidation_starts (v := v) first h
  refine ⟨.error e, ?_⟩
  refine Exec.bind (a := ()) (gives_require (by simp [long])) ?_
  simp only [targetActivateStart, bind_eq]
  refine (gives_server server).bind (select.bind (digest.bind (Exec.bind_error ?_)))
  simp only [activateFirst, bind_eq]
  refine gives_inspect.bind (request.bind (Exec.bind (a := ()) (gives_require allows) ?_))
  refine (gives_stateEntries first h.clean).bind ?_
  rw [if_pos journal]
  refine Exec.bind_error ?_
  simp only [revalidateActivation, bind_eq]
  refine (gives_readJournal first h.accepted).bind ?_
  refine Exec.bind (a := ()) (gives_require (by simp [h.validated])) ?_
  refine (gives_candidate first second candidate).bind ((gives_authenticateActive first h.valid).bind ?_)
  refine Exec.bind (a := ()) (gives_require active) (Exec.bind (a := ()) (gives_require (by simp [interval])) ?_)
  refine (gives_now at_).bind ?_
  rw [if_neg (by omega)]
  exact validation.bind_error

theorem disturbs_changes {n : ℕ} {o : Invocation} (at_ : k.clock n) (h : Disturbs c k s o) :
    ∃ out t, Exec (disk k).semantics (o.program c) s out t ∧ ¬Listened s t := by
  -- a validation cycle that does not end leaves the service running
  have started : ∀ {j}, Cycles c k s j → ¬Listened s (s.command .start) := by
    intro j cycles listened
    have running := listened.running.trans cycles.running
    cases running
  cases h with
  | stop openbao running =>
    obtain ⟨out, t, run, stopped⟩ := recover_stops at_ openbao
    refine ⟨out, t, run, fun listened => ?_⟩
    rw [listened.running, running] at stopped
    cases stopped
  | archive server manual clean terminal valid first second candidate binds active agrees unarchived =>
    obtain ⟨out, t, run, other⟩ := recover_archives server manual clean terminal valid first second
      candidate binds active agrees unarchived
    exact ⟨out, t, run, fun listened => other listened.history⟩
  | complete cycles free terminal legible first second candidate same active =>
    obtain ⟨out, run⟩ := complete_starts cycles free terminal legible first second candidate same active
    exact ⟨out, _, run, started cycles⟩
  | start cycles long selected pin zeroth pending allows first second candidate active interval =>
    obtain ⟨out, run⟩ := start_starts cycles long selected pin zeroth pending allows first second candidate
      active interval
    exact ⟨out, _, run, started cycles⟩

/-- A command in check mode leaves everything as it was, however it ends, exactly in the states in
which it neither stops OpenBao, nor archives a terminal record, nor starts a validation cycle that it
can fail to end. -/
theorem check_unchanged_iff {n : ℕ} {o : Invocation} (at_ : k.clock n) (checked : o.check = true) :
    (∀ out t, Exec (disk k).semantics (o.program c) s out t → Listened s t) ↔ ¬Disturbs c k s o := by
  constructor
  · intro unchanged disturbs
    obtain ⟨out, t, run, changed⟩ := disturbs_changes at_ disturbs
    exact changed (unchanged out t run)
  · exact fun calm out t run => check_unchanged checked calm run

theorem check_unchanged_iff_recover :
    (∀ out t, Exec (disk untorn).semantics ((Invocation.recover true).program registry) unissued out t →
      Listened unissued t) ↔ ¬Disturbs registry untorn unissued (.recover true) :=
  check_unchanged_iff (n := 1000) trivial rfl

/-- The registry's target with the OpenBao adapter. -/
def vault : Target := { registry with adapter := .openbao }

/-- A reachable state in which OpenBao runs. -/
def serving : State := { unissued with running := true, masked := false }

/-- A recovery in check mode stops OpenBao where there is nothing to recover. -/
theorem check_stops : Reaches vault untorn Always unissued serving ∧
    ¬∀ out t, Exec (disk untorn).semantics ((Invocation.recover true).program vault) serving out t →
      Listened serving t := by
  refine ⟨.elsewhere (.refl _) ⟨_, _, _, true, false, _, rfl⟩, fun unchanged => ?_⟩
  have run := (@undisturbed_within untorn 1000 none trivial).exec
    ((Invocation.recover true).program vault) serving
  have same := (unchanged _ _ run).running
  revert same
  decide +kernel

end PlatformConfig.Lifecycle
