import PlatformConfig.AlloyActivation

/-!
# What the records of the initial activation are worth

Over every sequence of invocations, each of which can be killed or can fail: the agent is
started at most once and only under a durable intent, the terminal records exclude each
other and are never rewritten, and each of them was observed to be true.
-/
namespace PlatformConfig.AlloyActivation

open CanonicalJson CrashProgram CrashTrace Prog

abbrev Trace := CrashTrace.Trace Op Reply State

/-- The event of `systemctl enable --now`. -/
def isStart (e : Event Op Reply State) : Bool :=
  match e.op with
  | .enable => true
  | _ => false

/-- The event of `systemctl disable --now`. -/
def isStop (e : Event Op Reply State) : Bool :=
  match e.op with
  | .disable => true
  | _ => false

/-- How often the agent was started in a history. -/
def starts (h : List Trace) : ℕ := h.flatten.countP isStart

/-- The unit was shown in a state after the newest event of a kind. -/
def Shown (mark : Event Op Reply State → Bool) (state : String × String) (l : Trace) : Prop :=
  (∃ e ∈ l, mark e = true) ∧ ∃ p, Saw (since mark l) .showUnit (some p) ∧ p.is state = true

/-- Since the start of this invocation the unit was active and enabled, the agent was ready and
the inputs were those of the intent. -/
structure Completion (l : Trace) (s : State) (bytes : Bytes) : Prop where
  running : Shown isStart ("active", "enabled") l
  ready : Saw (since isStart l) (.check .ready) true
  inputs : ∃ v i, Saw (since isStart l) .authenticate v ∧ v.admitted = some i ∧
    s.file .intent = some (recordBytes .intent i.evidence) ∧ bytes = recordBytes .complete i.evidence

/-- A start has a durable intent, and a terminal record was observed by its invocation. -/
def Proper (e : Event Op Reply State) (older : Trace) : Prop :=
  match e.op with
  | .enable => (e.before.file .intent).isSome
  | .publish .complete bytes => Completion older e.before bytes
  | .publish .failed _ => Shown isStop ("inactive", "disabled") older
  | _ => True

/-- What a history and the state it leads to have in common. -/
structure Truthful (h : List Trace) (s : State) : Prop where
  once : starts h ≤ 1
  exclusive : s.file .complete = none ∨ s.file .failed = none
  proper : ∀ l ∈ h, Each Proper l

/-- Some invocation of the helper. -/
def Invoked (p : Run Report) : Prop := ∃ c action, p = execute c action

/-- The invariant of the records during an invocation. -/
structure Sound (h : List Trace) (s : State) : Prop extends Truthful h s where
  fresh : s.file .intent = none → starts h = 0 ∧ s.file .complete = none ∧ s.file .failed = none
  clean : (s.file .intent).isSome → s.others = []

/-- An operation that neither starts the agent nor writes a record. -/
def quiet : Op → Bool
  | .enable => false
  | .publish _ _ => false
  | _ => true

/-- A quiet operation that is also not a stop. -/
def calm : Op → Bool
  | .disable => false
  | o => quiet o

variable {c : Context} {h : List Trace} {l : Trace} {s : State} {α β : Type}
  {Q : Except String β → State × Trace → Prop}

lemma starts_cons (e : Event Op Reply State) :
    starts ((e :: l) :: h) = starts (l :: h) + if isStart e then 1 else 0 := by
  unfold starts
  rw [List.flatten_cons, List.cons_append, List.countP_cons, List.flatten_cons]

lemma isStart_of_quiet {e : Event Op Reply State} (q : quiet e.op = true) : isStart e = false := by
  unfold isStart
  split
  next at_ => rw [at_] at q; cases q
  next => rfl

lemma quiet_of_calm {o : Op} (q : calm o = true) : quiet o = true := by
  cases o <;> simp_all [calm, quiet]

lemma isStop_of_calm {e : Event Op Reply State} (q : calm e.op = true) : isStop e = false := by
  unfold isStop
  split
  next at_ => rw [at_] at q; cases q
  next => rfl

lemma done_quiet {o : Op} {t : State} {r : Reply o} (q : quiet o = true)
    (done : semantics.done o s r t) : t = s := by
  cases done <;> first | rfl | cases q

lemma Sound.quiet {o : Op} {r : Reply o} (sound : Sound (l :: h) s) (q : quiet o = true) :
    Sound ((⟨o, r, s⟩ :: l) :: h) s := by
  have same : starts ((⟨o, r, s⟩ :: l) :: h) = starts (l :: h) := by
    rw [starts_cons, isStart_of_quiet q]
    rfl
  refine ⟨⟨same ▸ sound.once, sound.exclusive, fun k mem => ?_⟩, ?_, sound.clean⟩
  · rcases List.mem_cons.mp mem with rfl | old
    · refine ⟨?_, sound.proper l (by simp)⟩
      unfold Proper
      cases o <;> trivial
    · exact sound.proper k (by simp [old])
  · rw [same]
    exact sound.fresh

/-- A program of calm operations: it leaves the state alone, and a value `a` that it returns
stands to the state and to what it did as `R` says. -/
def Watches (p : Run α) (R : State → α → Trace → Prop) : Prop :=
  ∀ s l, wp (traced semantics) (fun o q q' => calm o = true ∧ ∃ r, q' = (q.1, ⟨o, r, q.1⟩ :: q.2)) p
    (fun out q => q.1 = s ∧ ∃ new, q.2 = new ++ l ∧ (∀ e ∈ new, calm e.op = true) ∧
      ∀ a, out = .ok a → R s a new) (s, l)

lemma Watches.pure {R : State → α → Trace → Prop} {a : α} (value : ∀ s, R s a []) :
    Watches (.ret a) R := by
  intro s l
  refine ⟨rfl, [], rfl, by simp, ?_⟩
  rintro b ⟨⟩
  exact value s

lemma Watches.fail {R : State → α → Trace → Prop} {e : String} : Watches (.fail e : Run α) R := by
  intro s l
  exact ⟨rfl, [], rfl, by simp, nofun⟩

lemma Watches.call {o : Op} {R : State → Reply o → Trace → Prop} (q : calm o = true)
    (value : ∀ s r, semantics.done o s r s → R s r [⟨o, r, s⟩]) : Watches (perform o) R := by
  intro s l
  refine wp_traced nofun fun r t done => ?_
  cases done_quiet (quiet_of_calm q) done
  refine ⟨⟨q, r, rfl⟩, rfl, [⟨o, r, s⟩], rfl, by simpa using q, ?_⟩
  rintro b ⟨⟩
  exact value s r done

lemma Watches.bind {p : Run α} {f : α → Run β} {R : State → α → Trace → Prop}
    {T : State → β → Trace → Prop} (first : Watches p R)
    (second : ∀ a, Watches (f a) fun s b new => ∀ old, R s a old → T s b (new ++ old)) :
    Watches (p.bind f) T := by
  intro s l
  refine wp_bind.mpr (wp_mono (first s l) (fun _ _ _ g => g) ?_)
  rintro (e | a) ⟨t, l'⟩ ⟨same, new, grown, calm, value⟩
  · exact ⟨same, new, grown, calm, nofun⟩
  · obtain ⟨rfl, rfl⟩ : t = s ∧ l' = new ++ l := ⟨same, grown⟩
    refine wp_mono (second a t (new ++ l)) (fun _ _ _ g => g) ?_
    rintro out ⟨u, k⟩ ⟨same', more, grown', calm', value'⟩
    refine ⟨same', more ++ new, by rw [grown', List.append_assoc], ?_, ?_⟩
    · intro e mem
      exact (List.mem_append.mp mem).elim (calm' e) (calm e)
    · intro b ok
      exact value' b ok new (value a rfl)

lemma Watches.require {b : Bool} {e : String} :
    Watches (require b e) fun _ _ new => b = true ∧ new = [] := by
  cases b with
  | true => exact .pure fun _ => ⟨rfl, rfl⟩
  | false => exact .fail

lemma Watches.mono {p : Run α} {R T : State → α → Trace → Prop} (h : Watches p R)
    (imp : ∀ s a new, R s a new → T s a new) : Watches p T := by
  intro s l
  refine wp_mono (h s l) (fun _ _ _ g => g) ?_
  rintro out q ⟨same, new, grown, calm, value⟩
  exact ⟨same, new, grown, calm, fun a ok => imp s a new (value a ok)⟩

lemma watches_check (k : Check) (e : String) :
    Watches (check k e) fun _ _ new => Saw new (.check k) true := by
  refine Watches.bind (R := fun s r new => new = [⟨.check k, r, s⟩]) (.call rfl fun _ _ _ => rfl) ?_
  intro b
  refine Watches.require.mono ?_
  rintro s _ new ⟨rfl, rfl⟩ old rfl
  exact ⟨s, by simp⟩

lemma watches_authenticate :
    Watches authenticate fun _ i new => ∃ v, Saw new .authenticate v ∧ v.admitted = some i := by
  refine Watches.bind (R := fun s r new => new = [⟨.authenticate, r, s⟩]) (.call rfl fun _ _ _ => rfl) ?_
  intro v
  cases admitted : v.admitted with
  | none => exact .fail
  | some i =>
    refine .pure fun s old at_ => ?_
    subst at_
    exact ⟨v, ⟨s, by simp⟩, admitted⟩

lemma watches_authenticateAs (evidence : Json) (e : String) :
    Watches (authenticateAs evidence e) fun _ i new => i.evidence = evidence ∧
      ∃ v, Saw new .authenticate v ∧ v.admitted = some i := by
  refine watches_authenticate.bind fun i => Watches.require.bind fun _ => .pure ?_
  rintro s old ⟨same, rfl⟩ older seen
  exact ⟨of_decide_eq_true same, by simpa using seen⟩

lemma watches_unit (c : Context) (desired : Option (String × String)) :
    Watches (unit c desired) fun _ _ new => ∀ state, desired = some state →
      ∃ p, Saw new .showUnit (some p) ∧ p.is state = true := by
  have shown : Watches showUnit fun _ p new => Saw new .showUnit (some p) := by
    refine Watches.bind (R := fun s r new => new = [⟨.showUnit, r, s⟩]) (.call rfl fun _ _ _ => rfl) ?_
    intro r
    cases r with
    | none => exact .fail
    | some p => exact .pure fun s old at_ => by subst at_; exact ⟨s, by simp⟩
  refine shown.bind fun p => Watches.require.bind fun _ => Watches.require.bind fun _ =>
    Watches.require.bind fun _ => (watches_check _ _).mono ?_
  rintro s _ new - old ⟨is_, rfl⟩ old₁ ⟨-, rfl⟩ old₂ ⟨-, rfl⟩ old₃ ⟨t, mem⟩ state rfl
  exact ⟨p, ⟨t, by simp [mem]⟩, is_⟩

/-- The state and the answer of an inspection of the records. -/
structure Recorded (s : State) (evidence : Json) (found : Bool × Option Status) : Prop where
  known : s.known = true
  authentic : ∀ status, s.authentic evidence status = true
  found : found = ((s.file .intent).isSome, s.terminal)

lemma watches_records (evidence : Json) :
    Watches (records evidence) fun s found _ => Recorded s evidence found := by
  have seen : Watches readState fun s r _ => r = s := by
    refine Watches.bind (R := fun s r _ => ∀ t, r = some t → t = s) (.call rfl ?_) ?_
    · rintro s r done t rfl
      cases done
      rfl
    · intro r
      cases r with
      | none => exact .fail
      | some t => exact .pure fun s old at_ => at_ t rfl
  refine seen.bind fun r => Watches.require.bind fun _ => Watches.require.bind fun _ => .pure ?_
  rintro s old ⟨authentic, -⟩ old₁ ⟨known, -⟩ old₂ rfl
  simp only [Bool.and_eq_true] at authentic
  refine ⟨known, fun status => ?_, rfl⟩
  cases status
  · exact authentic.1.1
  · exact authentic.1.2
  · exact authentic.2

lemma watches_requireIntent (evidence : Json) (e : String) :
    Watches (requireIntent evidence e) fun s _ _ => Recorded s evidence (true, none) := by
  refine (watches_records evidence).bind fun found => Watches.require.mono ?_
  rintro s _ new ⟨same, -⟩ old recorded
  rwa [← of_decide_eq_true same]

lemma watches_margin (i : Inputs) : Watches (requireStartMargin i) fun _ _ _ => True :=
  Watches.bind (R := fun _ _ _ => True) (.call rfl fun _ _ _ => trivial) fun _ =>
    Watches.require.mono fun _ _ _ _ _ _ => trivial

/-- The invariant as a property of the state and the trace of the newest session. -/
def Held (h : List Trace) (q : State × Trace) : Prop := Sound (q.2 :: h) q.1

/-- The steps of a program from `s`, after the trace `l`, hold the invariant. -/
abbrev Holds (h : List Trace) (p : Run α) (q : State × Trace) : Prop :=
  wp (traced semantics) (fun _ _ q' => Held h q') p (fun _ q' => Held h q') q

lemma holds_watch {p : Run α} {f : α → Run β} {R : State → α → Trace → Prop} (hp : Watches p R)
    (sound : Sound (l :: h) s)
    (rest : ∀ a new, (∀ e ∈ new, calm e.op = true) → Sound ((new ++ l) :: h) s → R s a new →
      Holds h (f a) (s, new ++ l)) : Holds h (p.bind f) (s, l) := by
  have held : Held h (s, l) := sound
  have kept := wp_invariant (I := Held h) (fun o q q' sound g => ?_) held (hp s l)
  · refine wp_bind.mpr (wp_mono kept (fun _ _ _ g => g) ?_)
    rintro (e | a) ⟨t, l'⟩ ⟨⟨same, new, grown, calm, value⟩, held⟩
    · exact held
    · obtain ⟨rfl, rfl⟩ : t = s ∧ l' = new ++ l := ⟨same, grown⟩
      exact rest a new calm held (value a rfl)
  · obtain ⟨calm, r, rfl⟩ := g
    exact Sound.quiet sound (quiet_of_calm calm)

lemma keeps_watch {p : Run α} {R : State → α → Trace → Prop} (hp : Watches p R)
    (sound : Sound (l :: h) s) : Holds h p (s, l) := by
  have held := holds_watch (f := .ret) hp sound fun _ _ _ sound _ => sound
  rwa [bind_ret_right] at held

/-- Writing a record keeps the invariant where the record may be there. -/
lemma Sound.publish {status : Status} {b : Bytes} {r : Bool} (sound : Sound (l :: h) s)
    (proper : Proper ⟨.publish status b, r, s⟩ l)
    (apart : status = .complete → s.file .failed = none)
    (apart' : status = .failed → s.file .complete = none)
    (intent : status ≠ .intent → (s.file .intent).isSome) (clean : s.others = []) :
    Sound ((⟨.publish status b, r, s⟩ :: l) :: h) (s.put status b) := by
  have same : starts ((⟨.publish status b, r, s⟩ :: l) :: h) = starts (l :: h) := by
    rw [starts_cons]
    rfl
  have there : ((s.put status b).file .intent).isSome := by
    by_cases first : status = .intent
    · subst first
      simp [State.put]
    · have other : (s.put status b).file .intent = s.file .intent :=
        Function.update_of_ne (Ne.symm first) _ _
      rw [other]
      exact intent first
  refine ⟨⟨same ▸ sound.once, ?_, fun k mem => ?_⟩, fun gone => ?_, fun _ => clean⟩
  · cases status with
    | intent => simpa [State.put] using sound.exclusive
    | complete => exact .inr (by simpa [State.put] using apart rfl)
    | failed => exact .inl (by simpa [State.put] using apart' rfl)
  · rcases List.mem_cons.mp mem with rfl | old
    · exact ⟨proper, sound.proper l (by simp)⟩
    · exact sound.proper k (by simp [old])
  · rw [gone] at there
    cases there

lemma Sound.refused {status : Status} {b : Bytes} {r : Bool} (sound : Sound (l :: h) s)
    (proper : Proper ⟨.publish status b, r, s⟩ l) :
    Sound ((⟨.publish status b, r, s⟩ :: l) :: h) s := by
  have same : starts ((⟨.publish status b, r, s⟩ :: l) :: h) = starts (l :: h) := by
    rw [starts_cons]
    rfl
  refine ⟨⟨same ▸ sound.once, sound.exclusive, fun k mem => ?_⟩, same ▸ sound.fresh, sound.clean⟩
  rcases List.mem_cons.mp mem with rfl | old
  · exact ⟨proper, sound.proper l (by simp)⟩
  · exact sound.proper k (by simp [old])

/-- The two outcomes of writing a record: nothing changed, or the record is there. -/
lemma holds_publish (status : Status) (ev : Json) {f : Unit → Run α} (sound : Sound (l :: h) s)
    (proper : ∀ r, Proper ⟨.publish status (recordBytes status ev), r, s⟩ l)
    (apart : status = .complete → s.file .failed = none)
    (apart' : status = .failed → s.file .complete = none)
    (intent : status ≠ .intent → (s.file .intent).isSome) (clean : s.others = [])
    (rest : Sound ((⟨.publish status (recordBytes status ev), true, s⟩ :: l) :: h)
        (s.put status (recordBytes status ev)) →
      Holds h (f ()) (s.put status (recordBytes status ev),
        ⟨.publish status (recordBytes status ev), true, s⟩ :: l)) :
    Holds h ((writeRecord status ev).bind f) (s, l) := by
  have written : ∀ r, Sound _ _ := fun r =>
    sound.publish (proper r) apart apart' intent clean
  refine wp_traced nofun fun r t done => ?_
  cases done with
  | refused => exact ⟨sound.refused (proper false), sound.refused (proper false)⟩
  | published absent =>
    refine ⟨written r, ?_⟩
    cases r with
    | false => exact written false
    | true => exact rest (written true)

lemma Shown.intro {mark : Event Op Reply State → Bool} {state : String × String} {new m : Trace}
    {e : Event Op Reply State} (marked : mark e = true) (unmarked : ∀ d ∈ new, mark d = false)
    {p : Properties} (saw : Saw new .showUnit (some p)) (is_ : p.is state = true) :
    Shown mark state (new ++ e :: m) := by
  refine ⟨⟨e, by simp, marked⟩, p, ?_, is_⟩
  obtain ⟨t, mem⟩ := saw
  exact ⟨t, by rw [since_append unmarked]; exact List.mem_append_left _ mem⟩

lemma holds_disable {f : Unit → Run α} (sound : Sound (l :: h) s)
    (rest : Sound ((⟨.disable, true, s⟩ :: l) :: h) s →
      Holds h (f ()) (s, ⟨.disable, true, s⟩ :: l)) : Holds h (disable.bind f) (s, l) := by
  change Holds h (.call .disable fun r => (require r _).bind f) (s, l)
  refine wp_traced nofun fun r t done => ?_
  cases done_quiet rfl done
  have sound : Sound ((⟨.disable, r, s⟩ :: l) :: h) s := sound.quiet rfl
  cases r with
  | false => exact ⟨sound, sound⟩
  | true => exact ⟨sound, rest sound⟩

/-- A start under a durable intent, where there was none before. -/
lemma holds_enable {f : Unit → Run α} (sound : Sound (l :: h) s) (first : starts (l :: h) = 0)
    (intent : (s.file .intent).isSome)
    (rest : Sound ((⟨.enable, true, s⟩ :: l) :: h) s →
      Holds h (f ()) (s, ⟨.enable, true, s⟩ :: l)) : Holds h (enable.bind f) (s, l) := by
  change Holds h (.call .enable fun r => (require r _).bind f) (s, l)
  refine wp_traced nofun fun r t done => ?_
  obtain rfl : t = s := by cases done; rfl
  have once : starts ((⟨.enable, r, t⟩ :: l) :: h) = 1 := by
    rw [starts_cons, first]
    rfl
  have sound : Sound ((⟨.enable, r, t⟩ :: l) :: h) t := by
    refine ⟨⟨once.le, sound.exclusive, fun k mem => ?_⟩, fun gone => ?_, sound.clean⟩
    · rcases List.mem_cons.mp mem with rfl | old
      · exact ⟨intent, sound.proper l (by simp)⟩
      · exact sound.proper k (by simp [old])
    · rw [gone] at intent
      cases intent
  cases r with
  | false => exact ⟨sound, sound⟩
  | true => exact ⟨sound, rest sound⟩

/-- A stop keeps the invariant: it records a failure only after it saw the unit stopped. -/
theorem keeps_stop (c : Context) (ev : Json) (sound : Sound (l :: h) s) :
    Holds h (stop c ev) (s, l) := by
  refine holds_watch (watches_authenticateAs ev _) sound fun _ n₁ _ sound _ => ?_
  refine holds_watch (watches_requireIntent ev _) sound fun _ n₂ _ sound _ => ?_
  refine holds_watch (watches_unit c none) sound fun _ n₃ _ sound _ => ?_
  refine holds_watch (watches_check _ _) sound fun _ n₄ _ sound _ => ?_
  refine holds_disable sound fun sound => ?_
  refine holds_watch (watches_unit c _) sound fun _ n₅ calm₅ sound shown => ?_
  obtain ⟨p, saw, is_⟩ := shown _ rfl
  refine holds_watch (watches_authenticateAs ev _) sound fun _ n₆ calm₆ sound _ => ?_
  refine holds_watch (watches_requireIntent ev _) sound fun _ n₇ calm₇ sound recorded => ?_
  have terminal : s.terminal = none := (Prod.mk.inj recorded.found).2.symm
  have there : (s.file .intent).isSome := (Prod.mk.inj recorded.found).1.symm
  have open_ : s.file .complete = none := by
    by_contra complete
    simp [State.terminal, Option.isSome_iff_ne_none.mpr complete] at terminal
  have written := holds_publish .failed ev (f := .ret) sound (fun r => ?_)
    nofun (fun _ => open_) (fun _ => there) (sound.clean there) fun sound => sound
  · rwa [bind_ret_right] at written
  · have unmarked : ∀ e ∈ n₇ ++ n₆ ++ n₅, isStop e = false := by
      intro e mem
      simp only [List.mem_append] at mem
      rcases mem with (mem | mem) | mem
      · exact isStop_of_calm (calm₇ e mem)
      · exact isStop_of_calm (calm₆ e mem)
      · exact isStop_of_calm (calm₅ e mem)
    have saw' : Saw (n₇ ++ n₆ ++ n₅) .showUnit (some p) := by
      obtain ⟨u, mem⟩ := saw
      exact ⟨u, by simp [mem]⟩
    have shown := Shown.intro (e := ⟨.disable, true, s⟩)
      (m := n₄ ++ (n₃ ++ (n₂ ++ (n₁ ++ l)))) rfl unmarked saw' is_
    simpa [Proper] using shown

/-- A handled program and its handler keep the invariant. -/
lemma holds_handle {p : Run α} {k : String → Run α} {q : State × Trace} (first : Holds h p q)
    (second : ∀ e q, Held h q → Holds h (k e) q) : Holds h (p.handle k) q := by
  refine wp_handle.mpr (wp_mono first (fun _ _ _ g => g) ?_)
  rintro (e | a) q held
  · exact second e q held
  · exact held

lemma holds_bind {p : Run α} {f : α → Run β} {q : State × Trace} (first : Holds h p q)
    (second : ∀ a q, Held h q → Holds h (f a) q) : Holds h (p.bind f) q := by
  refine wp_bind.mpr (wp_mono first (fun _ _ _ g => g) ?_)
  rintro (e | a) q held
  · exact held
  · exact second a q held

lemma keeps_rollback (c : Context) (ev : Json) (sound : Sound (l :: h) s) :
    Holds h (rollback c ev) (s, l) :=
  holds_bind (holds_handle (keeps_stop c ev sound) fun _ _ held => held) fun _ _ held => held

lemma keeps_recover (c : Context) (ev : Json) (sound : Sound (l :: h) s) :
    Holds h (recover c ev) (s, l) :=
  holds_bind (holds_handle (keeps_stop c ev sound) fun _ _ held => held) fun _ _ held => held

/-- The first start keeps the invariant: it records completion only after it saw the agent
run on the inputs of the intent. -/
theorem keeps_start (c : Context) (ev : Json) (sound : Sound (l :: h) s)
    (first : starts (l :: h) = 0) (intent : s.file .intent = some (recordBytes .intent ev))
    (open_ : s.file .failed = none) : Holds h (start c ev) (s, l) := by
  have there : (s.file .intent).isSome := by rw [intent]; rfl
  have quiet_starts : ∀ new l : Trace, (∀ e ∈ new, calm e.op = true) →
      starts ((new ++ l) :: h) = starts (l :: h) := by
    intro new l calm
    induction new with
    | nil => rfl
    | cons e new ih =>
      rw [List.cons_append, starts_cons, ih fun d mem => calm d (by simp [mem]),
        isStart_of_quiet (quiet_of_calm (calm e (by simp)))]
      rfl
  refine holds_watch (watches_authenticateAs ev _) sound fun i n₁ calm₁ sound _ => ?_
  refine holds_watch (watches_unit c _) sound fun _ n₂ calm₂ sound _ => ?_
  refine holds_watch (watches_check _ _) sound fun _ n₃ calm₃ sound _ => ?_
  refine holds_watch (watches_margin i) sound fun _ n₄ calm₄ sound _ => ?_
  refine holds_enable sound ?_ there fun sound => ?_
  · rw [quiet_starts _ _ calm₄, quiet_starts _ _ calm₃, quiet_starts _ _ calm₂,
      quiet_starts _ _ calm₁, first]
  refine holds_watch (watches_unit c _) sound fun _ n₅ calm₅ sound shown => ?_
  obtain ⟨p, saw, is_⟩ := shown _ rfl
  refine holds_watch (watches_check _ _) sound fun _ n₆ calm₆ sound ready => ?_
  refine holds_watch (watches_authenticateAs ev _) sound fun i n₇ calm₇ sound inputs => ?_
  obtain ⟨same, v, seen, admitted⟩ := inputs
  refine holds_watch (watches_unit c _) sound fun _ n₈ calm₈ sound _ => ?_
  refine holds_watch (watches_records ev) sound fun _ n₉ calm₉ sound _ => ?_
  refine holds_watch (watches_check _ _) sound fun _ n₀ calm₀ sound _ => ?_
  have written := holds_publish .complete ev (f := .ret) sound (fun r => ?_)
    (fun _ => open_) nofun (fun _ => there) (sound.clean there) fun sound => sound
  · rwa [bind_ret_right] at written
  · obtain ⟨u, saw⟩ := saw
    obtain ⟨u', ready⟩ := ready
    obtain ⟨u'', seen⟩ := seen
    have unmarked : ∀ e ∈ n₀ ++ n₉ ++ n₈ ++ n₇ ++ n₆ ++ n₅, isStart e = false := by
      intro e mem
      refine isStart_of_quiet (quiet_of_calm ?_)
      simp only [List.mem_append] at mem
      rcases mem with ((((mem | mem) | mem) | mem) | mem) | mem
      exacts [calm₀ e mem, calm₉ e mem, calm₈ e mem, calm₇ e mem, calm₆ e mem, calm₅ e mem]
    have completion : Completion ((n₀ ++ n₉ ++ n₈ ++ n₇ ++ n₆ ++ n₅) ++
        ⟨.enable, true, s⟩ :: (n₄ ++ (n₃ ++ (n₂ ++ (n₁ ++ l))))) s (recordBytes .complete ev) := by
      refine ⟨.intro rfl unmarked ⟨u, by simp [saw]⟩ is_, ?_, v, i, ?_, admitted, ?_, ?_⟩
      · rw [since_append unmarked]
        exact ⟨u', by simp [ready]⟩
      · rw [since_append unmarked]
        exact ⟨u'', by simp [seen]⟩
      · rw [intent, same]
      · rw [same]
    simpa [Proper] using completion

theorem keeps_prepared (c : Context) (action : Action) (ev : Json) (sound : Sound (l :: h) s)
    (clean : s.others = []) (fresh : s.file .intent = none) :
    Holds h (prepared c action ev) (s, l) := by
  obtain ⟨none_, -, unfailed⟩ := sound.fresh fresh
  refine holds_watch (watches_unit c _) sound fun _ n₁ calm₁ sound _ => ?_
  refine holds_watch (watches_check _ _) sound fun _ n₂ calm₂ sound _ => ?_
  refine holds_watch (watches_authenticateAs ev _) sound fun i n₃ calm₃ sound _ => ?_
  by_cases activate : action = .activate
  · rw [if_pos activate]
    refine holds_watch (watches_records ev) sound fun _ n₄ calm₄ sound _ => ?_
    refine holds_watch (watches_unit c _) sound fun _ n₅ calm₅ sound _ => ?_
    refine holds_watch (watches_margin i) sound fun _ n₆ calm₆ sound _ => ?_
    refine holds_publish .intent ev sound (fun _ => trivial) nofun nofun
      (fun other => absurd rfl other) clean fun written => ?_
    refine holds_bind (holds_handle (keeps_start c ev written ?_ ?_ ?_) fun _ _ held =>
      keeps_rollback c ev held) fun _ _ held => held
    · rw [starts_cons, (sound.fresh fresh).1]
      rfl
    · simp [State.put]
    · exact unfailed
  · rw [if_neg activate]
    by_cases check : action = .check
    · rw [if_pos check]
      exact holds_watch (watches_margin i) sound fun _ n₄ calm₄ sound _ => sound
    · rw [if_neg check]
      exact sound

theorem keeps_completed (c : Context) (action : Action) (ev : Json) (sound : Sound (l :: h) s) :
    Holds h (completed c action ev) (s, l) := by
  refine holds_watch (watches_unit c _) sound fun _ n₁ calm₁ sound _ => ?_
  refine holds_watch (watches_check _ _) sound fun _ n₂ calm₂ sound _ => ?_
  refine holds_watch (watches_check _ _) sound fun _ n₃ calm₃ sound _ => ?_
  refine holds_watch (watches_authenticateAs ev _) sound fun _ n₄ calm₄ sound _ => ?_
  cases action with
  | renewalPreflight writer =>
    refine holds_watch (watches_unit c _) sound fun _ n₅ calm₅ sound _ => ?_
    refine holds_watch (watches_authenticateAs ev _) sound fun i n₆ calm₆ sound _ => ?_
    refine holds_watch (watches_records ev) sound fun _ n₇ calm₇ sound _ => ?_
    refine holds_watch .require sound fun _ n₈ calm₈ sound _ => ?_
    refine holds_watch (watches_check _ _) sound fun _ n₉ calm₉ sound _ => ?_
    refine holds_watch (.call (R := fun _ _ _ => True) rfl fun _ _ _ => trivial) sound
      fun observed n₀ calm₀ sound _ => ?_
    refine holds_watch .require sound fun _ m₁ _ sound _ => ?_
    exact holds_watch .require sound fun _ m₂ _ sound _ => sound
  | _ => exact sound

theorem keeps_failed (c : Context) (action : Action) (sound : Sound (l :: h) s) :
    Holds h (failed c action) (s, l) := by
  refine holds_watch (watches_unit c _) sound fun _ n₁ calm₁ sound _ => ?_
  exact holds_watch .require sound fun _ n₂ _ sound _ => sound

theorem keeps_execute (c : Context) (action : Action) (sound : Sound (l :: h) s) :
    Holds h (execute c action) (s, l) := by
  refine holds_watch .require sound fun _ n₁ _ sound _ => ?_
  refine holds_watch (watches_check _ _) sound fun _ n₂ _ sound _ => ?_
  refine holds_watch watches_authenticate sound fun _ n₃ _ sound _ => ?_
  refine holds_watch (watches_unit c none) sound fun _ n₄ _ sound _ => ?_
  refine holds_watch watches_authenticate sound fun i n₅ _ sound _ => ?_
  refine holds_watch (watches_records i.evidence) sound fun found n₆ _ sound recorded => ?_
  refine holds_watch (watches_check _ _) sound fun _ n₇ _ sound _ => ?_
  refine holds_watch .require sound fun _ n₈ _ sound _ => ?_
  obtain ⟨journal, terminal⟩ := found
  rcases terminal with _ | _ | _ | _
  · cases journal with
    | true =>
      change Holds h (interrupted c action i.evidence) _
      unfold interrupted
      split
      · exact keeps_recover c i.evidence sound
      · split <;> exact sound
    | false =>
      have known : s.others = [] := by
        have known := recorded.known
        simp only [State.known, Bool.and_eq_true, decide_eq_true_eq] at known
        exact known.1
      refine keeps_prepared c action i.evidence sound known ?_
      have absent := (Prod.mk.inj recorded.found).1
      exact Option.isNone_iff_eq_none.mp (by simpa using absent.symm)
  · exact keeps_failed c action sound
  · exact keeps_completed c action i.evidence sound
  · exact keeps_failed c action sound

/-- Every history of invocations on a state root without records is truthful. -/
theorem sessions_sound {s₀ : State} (empty : ∀ status, s₀.file status = none)
    (runs : Sessions semantics Invoked s₀ h s) : Sound h s := by
  refine runs.invariant (I := fun h t => Sound h t) ?_ ?_ ?_
  · exact ⟨⟨by simp [starts], .inl (empty _), by simp⟩, fun _ => ⟨by simp [starts], empty _, empty _⟩,
      by simp [empty]⟩
  · intro h t sound
    refine ⟨⟨by simpa [starts] using sound.once, sound.exclusive, fun l mem => ?_⟩, ?_, sound.clean⟩
    · rcases List.mem_cons.mp mem with rfl | old
      · trivial
      · exact sound.proper l old
    · simpa [starts] using sound.fresh
  · rintro p ⟨c, action, rfl⟩ h t sound
    exact wp_mono (keeps_execute c action sound) (fun _ _ _ held => held) fun _ _ _ => trivial

end PlatformConfig.AlloyActivation
