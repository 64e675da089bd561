import PlatformConfig.LifecycleCheck

/-!
# Terminal records and time

The candidate of a terminal record is authenticated again whenever the record is looked at, with
the lifetime checks of an admission. So the status and the recovery of a terminal candidate last
exactly as long as its certificate has the minimum remaining lifetime.
-/
namespace PlatformConfig.Lifecycle

open CrashProgram CrashDisk Prog

variable {c : Target} {k : Conditions} {s t : State} {o : Terminal} {n m : ℕ} {r : String}
  {v : Validated}

/-- The certificate has not expired and has the minimum remaining lifetime. -/
def Target.lasting (c : Target) (leaf : Leaf) (n : ℕ) : Prop :=
  n < leaf.notAfter ∧ n + c.minimumRemainingLifetime ≤ leaf.notAfter

lemma current_later {leaf : Leaf} (server : c.adapter ≠ .client) (h : c.current leaf n = true)
    (later : n ≤ m) : c.current leaf m = true ↔ c.lasting leaf m := by
  simp only [Target.current, Bool.and_eq_true, Bool.or_eq_true, decide_eq_true_eq] at h ⊢
  obtain ⟨⟨⟨⟨⟨⟨before, -⟩, -⟩, created⟩, recent⟩, within⟩, -⟩ := h
  constructor
  · rintro ⟨⟨⟨⟨⟨⟨-, unexpired⟩, remaining⟩, -⟩, -⟩, -⟩, -⟩
    exact ⟨unexpired, remaining⟩
  · rintro ⟨unexpired, remaining⟩
    have recent : leaf.created ≤ m + 300 := by omega
    have before : leaf.notBefore ≤ m + 300 := by omega
    exact ⟨⟨⟨⟨⟨⟨before, unexpired⟩, remaining⟩, created⟩, recent⟩, within⟩, .inl server⟩

lemma pendingAt_later {p : Pending} (h : s.pendingAt c r n = some p) (later : n ≤ m) :
    ∃ expired, s.pendingAt c r m = some { p with expired := expired } := by
  obtain ⟨d, there, valid⟩ := Option.bind_eq_some_iff.mp h
  unfold Target.validatePending at valid
  split at valid
  case isFalse => cases valid
  case isTrue exact_ =>
    obtain ⟨record, found, rfl⟩ := Option.map_eq_some_iff.mp valid
    obtain ⟨read, timely⟩ := Option.filter_eq_some_iff.mp found
    have timely' : record.timely r m = true := by
      simp only [Request.timely, Bool.and_eq_true, decide_eq_true_eq] at timely ⊢
      exact ⟨timely.1, by omega⟩
    refine ⟨record.expiresEpoch ≤ m, ?_⟩
    rw [State.pendingAt, there]
    simp [Target.validatePending, exact_, read, timely']

/-- Where a candidate has authenticated, it authenticates later exactly as long as it lasts. -/
theorem candidate_later (server : c.adapter ≠ .client) (h : s.candidateAt c r n n = some v)
    (later : n ≤ m) : s.candidateAt c r m m = some v ∧ c.lasting v.leaf m ∨
      s.candidateAt c r m m = none ∧ ¬c.lasting v.leaf m := by
  obtain ⟨p, pending, h⟩ := Option.bind_eq_some_iff.mp h
  obtain ⟨d, version, valid⟩ := Option.bind_eq_some_iff.mp h
  obtain ⟨expired, pending'⟩ := pendingAt_later pending later
  unfold Target.validateResponseFiles at valid
  split at valid
  case isFalse => cases valid
  case isTrue allows =>
    obtain ⟨leaf, found, rfl⟩ := Option.map_eq_some_iff.mp valid
    obtain ⟨read, current⟩ := Option.filter_eq_some_iff.mp found
    have iff_ := current_later server current later
    have at_ : s.candidateAt c r m m =
        if c.current leaf m = true then some (c.validated (d.contents responseNames) leaf) else none := by
      simp [State.candidateAt, pending', version, Target.validateResponseFiles, allows, read,
        Option.filter]
    by_cases lasts : c.current leaf m = true
    · rw [if_pos lasts] at at_
      exact .inl ⟨at_, iff_.mp lasts⟩
    · rw [if_neg lasts] at at_
      exact .inr ⟨at_, fun h => lasts (iff_.mpr h)⟩

/-- A host on which nothing fails and whose clock shows one time. -/
abbrev calmAt (n : ℕ) : Conditions := calm (· = n)

/-- A status that reports the terminal record, or the next pending request where there is one. -/
def Reports (c : Target) (s : State) (o : Terminal) (n : ℕ) (out : Except String Status) : Prop :=
  ∀ ids, Excludes c s ids → match s.pending.keys.filter fun r => r ∉ ids with
    | [] => out = .ok ⟨.terminal o.state, some o.requestId, .none⟩
    | [r] => ∃ t, Exec (disk (calmAt n)).semantics (pendingStatus c r) s out t
    | _ => True

/-- Status, recovery and retirement of a terminal candidate at a time. -/
structure Lasts (c : Target) (s : State) (o : Terminal) (n : ℕ) : Prop where
  status : ∀ out t, Exec (disk (calmAt n)).semantics (targetStatus c) s out t → Reports c s o n out
  recover : ∀ out t, Exec (disk (calmAt n)).semantics ((Invocation.recover false).program c) s out t →
    out = .ok (.notRequired (some o.state))
  retire : ∀ r, r ≠ o.requestId → ∀ out t,
    Exec (disk (calmAt n)).semantics (retireCurrentTargetTerminal c false r) s out t →
      out = .ok () ∧ t.terminal = none

/-- A journal-free state whose terminal record is authentic apart from its candidate. -/
structure Ended (c : Target) (s : State) (o : Terminal) : Prop where
  server : c.adapter ≠ .client
  free : s.journal = none
  clean : s.leftovers = 0
  legible : s.legible
  terminal : s.terminal = some (.whole o)
  recorded : Recorded c s o
  valid : s.activeValid c

lemma Ended.supports (h : Ended c s o) (candidate : s.candidateAt c o.requestId n n = some v) :
    Supports c (calmAt n) s o := by
  rintro m m' rfl rfl
  obtain ⟨d, leaf, version, rfl⟩ := candidateAt_validated candidate
  obtain ⟨d', version', binds⟩ := h.recorded.supports
  rw [version] at version'
  cases version'
  exact ⟨_, candidate, binds leaf⟩

variable {α β : Type} {Q : Except String β → State → Prop}

/-- A reader that cannot fail. -/
lemma leads_fine {p : Run α} {f : α → Run β} {R : α → Prop} {F : Prop}
    (h : Reads (disk k) s p R F) (fine : ¬F) (rest : ∀ a, R a → Leads k (f a) Q s) :
    Leads k (p.bind f) Q s :=
  wp_reads (fun _ => trivial) h (fun _ fails => absurd fails fine) rest

lemma calm_only {F : Prop} (fine : ¬F) : ¬((calmAt n).faults ∨ F) := fun fails => fails.elim id fine

lemma Ended.status (h : Ended c s o) (candidate : s.candidateAt c o.requestId n n = some v) :
    Leads (calmAt n) (targetStatus c) (fun out _ => Reports c s o n out) s := by
  simp only [targetStatus, bind_eq]
  refine leads_fine (reads_requireServerAdapter id) h.server fun _ _ => ?_
  refine leads_fine reads_inspect id fun _ _ => ?_
  refine leads_fine reads_stateEntries (calm_only fun unclean => unclean h.clean) ?_
  rintro s ⟨rfl, -⟩
  refine leads_fine reads_inspect id fun _ _ => ?_
  refine leads_fine reads_readTerminal (calm_only fun bad => bad h.legible.1) fun x found => ?_
  refine leads_fine reads_readHistory (calm_only fun bad => bad h.legible.2) fun l archive => ?_
  obtain rfl : x = some o := by
    have same := found.at_.symm.trans h.terminal
    cases x with
    | none => cases same
    | some o' => simpa using same
  refine leads_fine (R := fun _ => True) (F := False) ?_ id fun _ _ => ?_
  · refine reads_validateTerminalCandidate.bind (calm_only fun bad => bad (h.supports candidate))
      fun _ _ => reads_validateTerminalActivation.mono (fun _ _ => trivial) ?_
    exact calm_only fun bad => bad ⟨h.valid, h.recorded.agrees⟩
  refine leads_fine reads_pendingRequestIds id ?_
  rintro ids listed
  -- every selection leaves out the same requests
  have same : ∀ ids', Excludes c s ids' → s.pending.keys.filter (fun r => r ∉ ids') = ids := by
    intro ids' excludes
    rw [listed]
    refine List.filter_congr fun x _ => decide_eq_decide.mpr (not_congr ?_)
    unfold Excludes at excludes
    rw [if_neg h.server] at excludes
    exact (excludes x).trans (excluded_iff found archive x).symm
  have free : (s.journal.isSome : Bool) = false := by rw [h.free]; rfl
  refine leads_check (fun many => ?_) fun few => ?_
  · intro ids' excludes
    rw [same ids' excludes]
    rcases ids with _ | ⟨r, _ | ⟨r', l⟩⟩
    · cases many
    · cases many
    · trivial
  · simp only [selectStatus, free, Bool.false_eq_true, if_false]
    rcases ids with _ | ⟨r, l⟩
    · refine wp_of_exec fun out t run ids' excludes => ?_
      rw [same ids' excludes]
      cases run
      rfl
    · refine wp_of_exec fun out t run ids' excludes => ?_
      rw [same ids' excludes]
      rcases l with _ | ⟨r', l⟩
      · exact ⟨t, run⟩
      · trivial

lemma Ended.recover (h : Ended c s o) (candidate : s.candidateAt c o.requestId n n = some v)
    (manual : c.adapter = .openbao → s.manual) :
    Does c (calmAt n) (fun _ _ => True) (targetRecover c false)
      (fun out _ => out = .ok (.notRequired (some o.state))) s := by
  have recoverable : Recoverable c (calmAt n) s := by
    refine ⟨h.clean, h.legible.1, fun o' there => ?_, fun free => ?_⟩
    · obtain rfl : o = o' := by
        have same := h.terminal.symm.trans there
        simpa using same
      refine ⟨h.supports candidate, h.valid, h.recorded.agrees, h.recorded.settled, fun x at_ => ?_⟩
      rw [h.free] at at_
      cases at_
    · rw [h.terminal] at free
      cases free
  refine does_targetRecover (fun _ _ => trivial)
    ⟨fun _ => trivial, fun _ _ _ => ⟨fun _ _ => trivial, fun _ => trivial, fun _ => trivial,
      fun _ => trivial, fun _ => trivial⟩, fun _ _ => trivial⟩ (fun e t fails => ?_) fun report t _ same => ?_
  · rcases fails with faults | check | bad
    · exact faults.elim
    · cases check
    · exact absurd ⟨h.server, manual, recoverable⟩ bad
  · exact congrArg Except.ok (same o h.terminal)

/-- The candidate of an archived record is not authenticated again. -/
lemma Ended.retire (h : Ended c s o)
    (candidate : s.archived o.requestId = none → ∃ v, s.candidateAt c o.requestId n n = some v)
    (other : r ≠ o.requestId) :
    Does c (calmAt n) (fun _ _ => True) (retireCurrentTargetTerminal c false r)
      (fun out t => out = .ok () ∧ t.terminal = none) s := by
  rw [← bind_ret_right (retireCurrentTargetTerminal c false r)]
  refine does_retireCurrentTargetTerminal h.free (fun _ => ⟨fun _ => trivial, fun _ => trivial⟩)
    (fun e t fails => ?_) fun t _ gone => ⟨rfl, gone rfl⟩
  rcases fails with faults | illegible | ⟨o', there, bad⟩
  · exact faults.elim
  · exact absurd h.legible.1 illegible
  · obtain rfl : o = o' := by
      have same := h.terminal.symm.trans there
      simpa using same
    refine absurd ⟨Ne.symm other, h.legible.2, h.recorded.settled, fun absent => ?_⟩ bad
    obtain ⟨v, authentic⟩ := candidate absent
    exact ⟨h.supports authentic, h.valid, h.recorded.agrees⟩

/-! ## A candidate that no longer authenticates -/

/-- What a recovery that succeeds has found. -/
def Found (c : Target) (s : State) (o : Terminal) (n : ℕ) (out : Except String Report) : Prop :=
  (∃ report, out = .ok report) →
    (c.adapter = .openbao → s.manual) ∧ (s.candidateAt c o.requestId n n).isSome = true

lemma Found.error (e : String) : Found c s o n (.error e) := by rintro ⟨_, ⟨⟩⟩

lemma finds_recoverState (terminal : t.terminal = some (.whole o))
    (manual : c.adapter = .openbao → t.manual) :
    Leads (calmAt n) (recoverState c false) (fun out _ => Found c t o n out) t := by
  simp only [recoverState, bind_eq]
  refine leads_reads reads_stateEntries (fun e => .error e) ?_
  rintro t ⟨rfl, -⟩
  refine leads_reads reads_readTerminal (fun e => .error e) fun x found => ?_
  obtain rfl : x = some o := by
    have same := found.at_.symm.trans terminal
    cases x with
    | none => cases same
    | some o' => simpa using same
  simp only [recoverTerminal, bind_eq]
  refine leads_reads reads_inspect (fun e => .error e) fun _ _ => ?_
  refine leads_reads reads_validateTerminalCandidate (fun e => .error e) fun _ read => ?_
  obtain ⟨m, m', v, rfl, rfl, there, -⟩ := read
  refine wp_any fun out u ok => ⟨manual, ?_⟩
  rw [there]
  rfl

lemma finds_targetRecover (terminal : s.terminal = some (.whole o)) :
    Leads (calmAt n) (targetRecover c false) (fun out _ => Found c s o n out) s := by
  simp only [targetRecover, bind_eq]
  refine leads_reads (reads_requireServerAdapter (F := True) fun _ => trivial) (fun e => .error e)
    fun _ _ => ?_
  refine leads_reads reads_inspect (fun e => .error e) fun _ _ => ?_
  unfold openbaoOnly
  by_cases openbao : c.adapter = .openbao
  · rw [if_pos openbao]
    simp only [stopOpenbao, bind_eq, Prog.bind_assoc]
    refine holds_wrote (fun faults => faults) (fun _ _ => trivial) rfl trivial ?_
    refine leads_reads reads_requireOpenbao (fun e => .error e) fun _ stopped => ?_
    exact finds_recoverState (t := s.command .stop) terminal fun _ => stopped.2
  · rw [if_neg openbao]
    exact finds_recoverState terminal fun there => absurd there openbao

/-! ## Every reachable terminal record -/

/-- A state root without any lifecycle record. -/
structure Vacant (s : State) : Prop extends Fresh s where
  terminal : s.terminal = none
  history : s.history = none
  clean : s.leftovers = 0

lemma Vacant.accounted (h : Vacant s) : Accounted c s := by
  have none_ : ∀ j, ¬s.holds j := by
    intro j held
    rw [State.holds, h.journal] at held
    cases held
  refine ⟨fun x at_ => ?_, fun j held => absurd held (none_ j), fun j held => absurd held (none_ j)⟩
  rw [h.terminal] at at_
  cases at_

lemma Vacant.legible (h : Vacant s) : s.legible := by
  refine ⟨fun x there => ?_, fun r x there => ?_⟩
  · rw [h.terminal] at there
    cases there
  · simp [State.archived, h.history] at there

lemma reaches_clean (whole : ¬k.tears) (run : Reaches c k Always s t) :
    t.leftovers = s.leftovers := by
  induction run with
  | refl => rfl
  | elsewhere _ other ih =>
    obtain ⟨p, q, r, m, n, e, rfl⟩ := other
    exact ih
  | command _ _ run ih =>
    refine killed_invariant (A := Unless fun _ => True) (I := fun t => t.leftovers = _) whole ?_
      (does_unless fun _ => trivial) ih run
    exact fun l s t same _ move => (move_clean move).trans same

theorem reaches_ended (whole : ¬k.tears) (server : c.adapter ≠ .client) (start : Vacant s)
    (run : Reaches c k Always s t) (free : t.journal = none) (terminal : t.terminal = some (.whole o)) :
    Ended c t o := by
  have coherent := reaches_coherent whole start.coherent run
  obtain ⟨o', same, recorded⟩ :=
    (reaches_accounted whole start.coherent start.accounted run).terminal _ terminal
  cases same
  exact ⟨server, free, (reaches_clean whole run).trans start.clean,
    reaches_legible whole run start.legible, terminal, recorded, (coherent.paired free).activeValid⟩

/-- An archived terminal record makes place for the next request at any time. -/
theorem archived_retires (whole : ¬k.tears) (server : c.adapter ≠ .client) (start : Vacant s)
    (run : Reaches c k Always s t) (free : t.journal = none) (terminal : t.terminal = some (.whole o))
    (archived : t.archived o.requestId ≠ none) (other : r ≠ o.requestId) (out : Except String Unit)
    (u : State) (ran : Exec (disk (calmAt m)).semantics (retireCurrentTargetTerminal c false r) t out u) :
    out = .ok () ∧ u.terminal = none := by
  have ended := reaches_ended whole server start run free terminal
  exact wp_exec (ended.retire (fun absent => absurd absent archived) other) ran

/-- The status, the recovery and the retirement of a terminal candidate that authenticated last
exactly as long as the certificate has its minimum remaining lifetime, for OpenBao while the unit
can be stopped by hand. -/
theorem terminal_lasts_iff (whole : ¬k.tears) (server : c.adapter ≠ .client) (start : Vacant s)
    (run : Reaches c k Always s t) (free : t.journal = none) (terminal : t.terminal = some (.whole o))
    (candidate : t.candidateAt c o.requestId n n = some v) (later : n ≤ m) :
    Lasts c t o m ↔ (c.adapter = .openbao → t.manual) ∧ c.lasting v.leaf m := by
  have ended := reaches_ended whole server start run free terminal
  have dichotomy := candidate_later server candidate later
  constructor
  · intro lasts
    obtain ⟨out, u, ran⟩ := exec_exists (@calm_answers (· = m) m rfl)
      ((Invocation.recover false).program c) t
    obtain ⟨manual, still⟩ := wp_exec (finds_targetRecover ended.terminal) ran ⟨_, lasts.recover out u ran⟩
    refine ⟨manual, ?_⟩
    rcases dichotomy with ⟨-, fine⟩ | ⟨gone, -⟩
    · exact fine
    · rw [gone] at still
      cases still
  · rintro ⟨manual, fine⟩
    rcases dichotomy with ⟨still, -⟩ | ⟨-, late⟩
    · refine ⟨fun out u ran => wp_exec (ended.status still) ran, fun out u ran => ?_,
        fun r other out u ran => wp_exec (ended.retire (fun _ => ⟨v, still⟩) other) ran⟩
      have recovered := wp_exec (ended.recover still manual) ran
      exact recovered
    · exact absurd fine late

/-- The registry with its first activation completed, under a certificate that expires at 9000. -/
def completed : State := ran (.activateComplete false) validated

lemma completed_reached : Reaches registry untorn Always unissued completed :=
  .ran trivial (validated_reached fun _ _ _ => trivial) trivial

lemma unissued_vacant : Vacant unissued := ⟨⟨rfl, rfl, rfl⟩, rfl, rfl, rfl⟩

lemma completed_terminal : ∃ o v, completed.terminal = some (.whole o) ∧
    completed.candidateAt registry o.requestId 1000 1000 = some v ∧ v.leaf.notAfter = 9000 := by
  have record : (completed.terminal.bind Content.value).map (·.requestId) = some "r" := by
    decide +kernel
  have candidate : (completed.candidateAt registry "r" 1000 1000).map (·.leaf.notAfter) = some 9000 := by
    decide +kernel
  obtain ⟨o, read, same⟩ := Option.map_eq_some_iff.mp record
  obtain ⟨x, there, value⟩ := Option.bind_eq_some_iff.mp read
  obtain ⟨v, found, expires⟩ := Option.map_eq_some_iff.mp candidate
  cases x with
  | torn => cases value
  | whole o' =>
    cases value
    exact ⟨o, v, there, same ▸ found, expires⟩

theorem terminal_lasts_iff_completed : ∃ o, completed.terminal = some (.whole o) ∧
    Lasts registry completed o 8990 ∧ ¬Lasts registry completed o 8991 := by
  obtain ⟨o, v, terminal, candidate, expires⟩ := completed_terminal
  have iff_ : ∀ m, 1000 ≤ m → (Lasts registry completed o m ↔ _) := fun m =>
    terminal_lasts_iff (k := untorn) (fun h => h) (by decide) unissued_vacant completed_reached
      (by decide +kernel) terminal candidate
  have lasting : ∀ m, registry.lasting v.leaf m ↔ m + 10 ≤ 9000 := by
    intro m
    rw [Target.lasting, expires]
    exact ⟨And.right, fun h => ⟨by omega, h⟩⟩
  refine ⟨o, terminal, (iff_ 8990 (by omega)).mpr ⟨by rintro ⟨⟩, (lasting _).mpr (by omega)⟩, fun lasts => ?_⟩
  have late := (lasting _).mp ((iff_ 8991 (by omega)).mp lasts).2
  omega

/-- The completed registry cannot be recovered once its certificate is about to expire. -/
theorem terminal_expires : ¬∀ (t : State) (o : Terminal) (v : Validated) (n m : ℕ),
    Reaches registry untorn Always unissued t → t.journal = none → t.terminal = some (.whole o) →
    t.candidateAt registry o.requestId n n = some v → n ≤ m → Lasts registry t o m := by
  intro always
  obtain ⟨o, v, terminal, candidate, -⟩ := completed_terminal
  have lasts := always completed o v 1000 8995 completed_reached (by decide +kernel) terminal candidate
    (by omega)
  have ran := (@undisturbed_within (calmAt 8995) 8995 none rfl).exec
    ((Invocation.recover false).program registry) completed
  have recovered := lasts.recover _ _ ran
  have refused : (run (undisturbed 8995 none) ((Invocation.recover false).program registry)
      completed).1.isOk = false := by decide +kernel
  rw [recovered] at refused
  cases refused

end PlatformConfig.Lifecycle
