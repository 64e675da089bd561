import PlatformConfig.AlloyTruth

/-!
# Recovery of an interrupted initial activation

A record that was written stays as it is, and a recovery whose commands succeed, on
unchanged inputs that have not expired, turns an interrupted intent into a failure.
-/
namespace PlatformConfig.AlloyActivation

open CanonicalJson CrashProgram CrashTrace Prog

/-- A command or an inspection succeeds on the inputs `i`; a stop takes effect. -/
def Succeeds (c : Context) (i : Inputs) (e : Event Op Reply State) (older : Trace) : Prop :=
  match e with
  | ⟨.records, r, _⟩ => (r : Option State).isSome = true
  | ⟨.authenticate, v, _⟩ => (v : Sighting).inputs = some i
  | ⟨.showUnit, r, _⟩ => (r : Option Properties).any (fun p => p.owned c && p.known &&
      (!older.any isStop || p.is ("inactive", "disabled"))) = true
  | ⟨.check _, b, _⟩ => b = true
  | ⟨.disable, b, _⟩ => b = true
  | ⟨.publish _ _, b, _⟩ => b = true
  | _ => True

/-- No certificate of the inputs has expired when they are inspected. -/
def Unexpired (i : Inputs) (e : Event Op Reply State) : Prop :=
  match e with
  | ⟨.authenticate, v, _⟩ => i.Valid (v : Sighting).now
  | _ => True

instance (c : Context) (i : Inputs) (older : Trace) : ∀ e, Decidable (Succeeds c i e older)
  | ⟨.records, r, _⟩ => inferInstanceAs (Decidable ((r : Option State).isSome = true))
  | ⟨.authenticate, v, _⟩ => inferInstanceAs (Decidable ((v : Sighting).inputs = some i))
  | ⟨.showUnit, r, _⟩ => inferInstanceAs (Decidable ((r : Option Properties).any _ = true))
  | ⟨.check _, b, _⟩ => inferInstanceAs (Decidable ((b : Bool) = true))
  | ⟨.disable, b, _⟩ => inferInstanceAs (Decidable ((b : Bool) = true))
  | ⟨.publish _ _, b, _⟩ => inferInstanceAs (Decidable ((b : Bool) = true))
  | ⟨.clock, _, _⟩ => .isTrue trivial
  | ⟨.enable, _, _⟩ => .isTrue trivial

instance (i : Inputs) : ∀ e, Decidable (Unexpired i e)
  | ⟨.authenticate, v, _⟩ => inferInstanceAs (Decidable (i.Valid (v : Sighting).now))
  | ⟨.records, _, _⟩ | ⟨.showUnit, _, _⟩ | ⟨.check _, _, _⟩ | ⟨.disable, _, _⟩
  | ⟨.publish _ _, _, _⟩ | ⟨.clock, _, _⟩ | ⟨.enable, _, _⟩ => .isTrue trivial

/-- Both, as one condition on a trace. -/
def Grants (c : Context) (i : Inputs) (e : Event Op Reply State) (older : Trace) : Prop :=
  Succeeds c i e older ∧ Unexpired i e

variable {c : Context} {i : Inputs} {h : List Trace} {l : Trace} {s t : State} {α β : Type}
  {Q : Except String β → State × Trace → Prop}

lemma done_keeps {o : Op} {r : Reply o} {status : Status} {b : Bytes}
    (done : semantics.done o s r t) (there : s.file status = some b) : t.file status = some b := by
  cases done with
  | @published st b' _ absent r =>
    have other : status ≠ st := by
      rintro rfl
      rw [absent] at there
      cases there
    change Function.update s.file st (some b') status = some b
    rw [Function.update_of_ne other, there]
  | _ => exact there

lemma killed_keeps {p : Run α} {q q' : State × Trace} {status : Status} {b : Bytes}
    (run : Killed (traced semantics) p q q') (there : q.1.file status = some b) :
    q'.1.file status = some b := by
  induction run with
  | here => exact there
  | inside cut => exact cut.1.elim
  | later step _ ih => exact ih (done_keeps step.1 there)

/-- A record that is there is never changed. -/
theorem record_kept {status : Status} {b : Bytes} (runs : Sessions semantics Invoked s h t)
    (there : s.file status = some b) : t.file status = some b := by
  induction runs with
  | none => exact there
  | next _ _ run ih => exact killed_keeps run ih

/-- The granted runs of a program from a state end as `Q` says. -/
abbrev Ends (c : Context) (i : Inputs) (p : Run β) (Q : Except String β → State × Trace → Prop)
    (q : State × Trace) : Prop :=
  wp (obliged (Grants c i) semantics) (fun _ _ _ => True) p Q q

lemma ends_call {o : Op} {k : Reply o → Run β}
    (rest : ∀ r t, semantics.done o s r t → Succeeds c i ⟨o, r, s⟩ l → Unexpired i ⟨o, r, s⟩ →
      Ends c i (k r) Q (t, ⟨o, r, s⟩ :: l)) : Ends c i (.call o k) Q (s, l) := by
  refine ⟨fun _ _ => trivial, ?_⟩
  rintro r ⟨t, l'⟩ ⟨⟨done, rfl⟩, succeeds, unexpired⟩
  exact ⟨trivial, rest r t done succeeds unexpired⟩

lemma ends_check {k : Check} {e : String} {f : Unit → Run β}
    (rest : ∀ d : Event Op Reply State, Ends c i (f ()) Q (s, d :: l)) :
    Ends c i ((check k e).bind f) Q (s, l) := by
  change Ends c i (.call (.check k) fun r => (require r _).bind f) Q (s, l)
  refine ends_call fun r t done ok _ => ?_
  cases done
  obtain rfl : r = true := ok
  exact rest _

lemma ends_authenticate {f : Inputs → Run β}
    (rest : ∀ d : Event Op Reply State, Ends c i (f i) Q (s, d :: l)) :
    Ends c i (authenticate.bind f) Q (s, l) := by
  unfold authenticate
  refine ends_call fun v t done same unexpired => ?_
  cases done
  have admitted : Sighting.admitted v = some i := by
    have same : Sighting.inputs v = some i := same
    have unexpired : i.Valid (Sighting.now v) := unexpired
    simp [Sighting.admitted, same, unexpired]
  simp only [bind_ret, admitted]
  exact rest _

lemma ends_authenticateAs {e : String} {f : Inputs → Run β}
    (rest : ∀ d : Event Op Reply State, Ends c i (f i) Q (s, d :: l)) :
    Ends c i ((authenticateAs i.evidence e).bind f) Q (s, l) := by
  simp only [authenticateAs, bind_eq]
  rw [bind_assoc]
  refine ends_authenticate fun d => ?_
  simpa using rest d

lemma ends_unit {desired : Option (String × String)} {f : Unit → Run β}
    (stopped : ∀ state, desired = some state →
      state = ("inactive", "disabled") ∧ ∃ d ∈ l, isStop d = true)
    (rest : ∀ d d' : Event Op Reply State, Ends c i (f ()) Q (s, d' :: d :: l)) :
    Ends c i ((unit c desired).bind f) Q (s, l) := by
  simp only [unit, showUnit, bind_eq]
  rw [bind_assoc, bind_assoc]
  refine ends_call fun r t done shown _ => ?_
  cases done
  obtain ⟨p, rfl, passed⟩ := Option.any_eq_true _ _ |>.mp shown
  simp only [Bool.and_eq_true, Bool.or_eq_true, Bool.not_eq_true', List.any_eq_false] at passed
  obtain ⟨⟨owned, known⟩, is_⟩ := passed
  have desired_ : desired.all p.is = true := by
    cases desired with
    | none => rfl
    | some state =>
      obtain ⟨rfl, d, mem, stop⟩ := stopped state rfl
      exact is_.resolve_left fun none_ => none_ d mem stop
  simp only [pure_eq, bind_ret, owned, known, desired_, require, if_true]
  exact ends_check fun d => rest _ d

/-- The state that an interrupted activation leaves. -/
structure Interrupted (i : Inputs) (s : State) : Prop where
  intent : s.file .intent = some (recordBytes .intent i.evidence)
  complete : s.file .complete = none
  failed : s.file .failed = none
  others : s.others = []

lemma ends_records {f : Bool × Option Status → Run β} (at_ : Interrupted i s)
    (rest : ∀ d : Event Op Reply State, Ends c i (f (true, none)) Q (s, d :: l)) :
    Ends c i ((records i.evidence).bind f) Q (s, l) := by
  simp only [records, readState, bind_eq]
  rw [bind_assoc, bind_assoc]
  refine ends_call fun r t done seen _ => ?_
  cases done with
  | unread => cases seen
  | records =>
    have known : s.known = true := by
      simp [State.known, at_.intent, at_.complete, at_.failed, at_.others]
    have authentic : (s.authentic i.evidence .intent && s.authentic i.evidence .complete &&
        s.authentic i.evidence .failed) = true := by
      simp [State.authentic, at_.intent, at_.complete, at_.failed]
    have found : ((s.file .intent).isSome, s.terminal) = (true, none) := by
      simp [State.terminal, at_.intent, at_.complete, at_.failed]
    simp only [pure_eq, bind_ret, known, authentic, require, if_true, found]
    exact rest _

lemma ends_requireIntent {e : String} {f : Unit → Run β} (at_ : Interrupted i s)
    (rest : ∀ d : Event Op Reply State, Ends c i (f ()) Q (s, d :: l)) :
    Ends c i ((requireIntent i.evidence e).bind f) Q (s, l) := by
  simp only [requireIntent, bind_eq]
  rw [bind_assoc]
  exact ends_records at_ fun d => by simpa using rest d

/-- A stop whose commands succeed records the failure. -/
lemma ends_stop (at_ : Interrupted i s) :
    Ends c i (stop c i.evidence) (fun out q => out = .ok () ∧
      q.1 = s.put .failed (recordBytes .failed i.evidence)) (s, l) := by
  simp only [stop, bind_eq]
  refine ends_authenticateAs fun _ => ends_requireIntent at_ fun _ => ends_unit nofun fun _ _ =>
    ends_check fun _ => ?_
  change Ends c i (.call .disable fun r => (require r _).bind _) _ _
  refine ends_call fun r t done ok _ => ?_
  cases done
  obtain rfl : r = true := ok
  refine ends_unit (fun state desired => ?_) fun _ _ => ends_authenticateAs fun _ =>
    ends_requireIntent at_ fun _ => ?_
  · cases desired
    exact ⟨rfl, ⟨.disable, true, s⟩, by simp, rfl⟩
  · change Ends c i (.call (.publish .failed (recordBytes .failed i.evidence)) fun r =>
      require r _) _ _
    refine ends_call fun r t done ok _ => ?_
    obtain rfl : r = true := ok
    cases done with
    | published absent => exact ⟨rfl, rfl⟩

theorem ends_recover (at_ : Interrupted i s) :
    Ends c i (execute c .recover) (fun out q => out = .ok (.status "failed" true) ∧
      q.1 = s.put .failed (recordBytes .failed i.evidence)) (s, l) := by
  simp only [execute, Action.selected, Action.preflight, bind_eq, bind_require]
  refine ends_check fun _ => ends_authenticate fun _ => ends_unit nofun fun _ _ =>
    ends_authenticate fun _ => ends_records at_ fun _ => ends_check fun _ => ?_
  refine wp_seq (P := fun _ q => q.1 = s.put .failed (recordBytes .failed i.evidence)) ?_
    fun _ q at_ => ⟨rfl, at_⟩
  refine wp_handle.mpr (wp_mono (ends_stop at_) (fun _ _ _ _ => trivial) ?_)
  rintro out q ⟨rfl, at_⟩
  exact at_

/-- Over every history of invocations the records are truthful, a record stays as it is once
written, and an interrupted intent of unchanged inputs becomes a failure in every recovery whose
commands succeed while none of its certificates has expired. -/
theorem initial_activation_truthful {s₀ : State} (empty : ∀ status, s₀.file status = none)
    (runs : Sessions semantics Invoked s₀ h s) :
    Truthful h s ∧
    (∀ h' t, Sessions semantics Invoked s h' t → ∀ status b, s.file status = some b →
      t.file status = some b) ∧
    ∀ c i, s.file .intent = some (recordBytes .intent i.evidence) → s.terminal = none →
      ∀ out t l, Exec (traced semantics) (execute c .recover) (s, []) out (t, l) →
        Each (fun e older => Succeeds c i e older ∧ Unexpired i e) l →
        out = .ok (.status "failed" true) ∧
          t.file .failed = some (recordBytes .failed i.evidence) ∧ t.file .complete = none := by
  have sound := sessions_sound empty runs
  refine ⟨sound.toTruthful, fun h' t later status b there => record_kept later there, ?_⟩
  intro c i intent unfinished out t l run each
  have complete : s.file .complete = none := by
    by_contra there
    simp [State.terminal, Option.isSome_iff_ne_none.mpr there] at unfinished
  have failed : s.file .failed = none := by
    by_contra there
    simp [State.terminal, complete, Option.isSome_iff_ne_none.mpr there] at unfinished
  have at_ : Interrupted i s := ⟨intent, complete, failed, sound.clean (by rw [intent]; rfl)⟩
  obtain ⟨rfl, after⟩ := wp_exec (ends_recover at_) (exec_obliged run each)
  have after : t = s.put .failed (recordBytes .failed i.evidence) := after
  subst after
  exact ⟨rfl, by simp [State.put], by simpa [State.put] using complete⟩

def sampleContext : Context := ⟨"/usr/lib/systemd/system/alloy.service", "dropin", ["loki"]⟩

/-- One writer whose leaf expires at 1000000. -/
def sampleInputs : Inputs := ⟨.null, [⟨"loki", ⟨0, 1000000⟩, [], 1⟩]⟩

def sampleProperties : Properties where
  loadState := "loaded"
  fragmentPath := "/usr/lib/systemd/system/alloy.service"
  sourcePath := ""
  dropInPaths := "dropin"
  needDaemonReload := "no"
  activeState := "inactive"
  unitFileState := "disabled"

/-- Surroundings with the sample inputs, in which every command succeeds at the time `now`. -/
def sampleStep (now : ℤ) : (o : Op) → State → Reply o × State
  | .records, s => (some s, s)
  | .authenticate, s => (⟨some sampleInputs, now⟩, s)
  | .showUnit, s => (some sampleProperties, s)
  | .clock, s => (now, s)
  | .check _, s => (true, s)
  | .enable, s => (true, s)
  | .disable, s => (true, s)
  | .publish status b, s => if s.file status = none then (true, s.put status b) else (false, s)

def sampleRecorded (now : ℤ) (o : Op) (q : State × Trace) : Reply o × (State × Trace) :=
  ((sampleStep now o q.1).1, (sampleStep now o q.1).2, ⟨o, (sampleStep now o q.1).1, q.1⟩ :: q.2)

lemma within_sampleRecorded (now : ℤ) : Within (sampleRecorded now) (traced semantics) := by
  rintro o ⟨s, l⟩
  refine ⟨?_, rfl⟩
  cases o with
  | records => exact .records s
  | authenticate => exact .authenticate _ s
  | showUnit => exact .shown _ s
  | clock => exact .clock _ s
  | check k => exact .check k _ s
  | enable => exact .enable _ s
  | disable => exact .disable _ s
  | publish status b =>
    by_cases absent : s.file status = none
    · simp only [sampleRecorded, sampleStep, if_pos absent]
      exact .published absent true
    · simp only [sampleRecorded, sampleStep, if_neg absent]
      exact .refused status b s

def sampleEmpty : State := ⟨fun _ => none, []⟩

/-- An activation killed right after its intent was written. -/
def sampleKilled : State × Trace :=
  after (sampleRecorded 0) 16 (execute sampleContext .activate) (sampleEmpty, [])

lemma sample_sessions : Sessions semantics Invoked sampleEmpty [sampleKilled.2] sampleKilled.1 :=
  .next .none ⟨sampleContext, .activate, rfl⟩ ((within_sampleRecorded 0).killed 16 _ _)

lemma sample_intent : sampleKilled.1.file .intent =
    some (recordBytes .intent sampleInputs.evidence) ∧ sampleKilled.1.terminal = none := by
  decide +kernel

/-- A recovery of the sample at the time `now`. -/
def sampleRecovery (now : ℤ) : Except String Report × State × Trace :=
  run (sampleRecorded now) (execute sampleContext .recover) (sampleKilled.1, [])

lemma sample_ran (now : ℤ) : Exec (traced semantics) (execute sampleContext .recover)
    (sampleKilled.1, []) (sampleRecovery now).1 ((sampleRecovery now).2.1, (sampleRecovery now).2.2) :=
  (within_sampleRecorded now).exec _ _

theorem initial_activation_truthful_recovered : Truthful [sampleKilled.2] sampleKilled.1 ∧
    (sampleRecovery 10).2.1.file .failed = some (recordBytes .failed .null) := by
  obtain ⟨truthful, -, recovers⟩ := initial_activation_truthful (fun _ => rfl) sample_sessions
  have granted : Each (fun e older => Succeeds sampleContext sampleInputs e older ∧
      Unexpired sampleInputs e) (sampleRecovery 10).2.2 := by decide +kernel
  exact ⟨truthful, (recovers sampleContext sampleInputs sample_intent.1 sample_intent.2 _ _ _
    (sample_ran 10) granted).2.1⟩

/-- Unchanged inputs and successful commands are not enough: an expired certificate does not
authorize the stop, and the intent stays. -/
theorem expired_intent_retained : ¬∀ (s₀ s : State) (h : List Trace),
    (∀ status, s₀.file status = none) → Sessions semantics Invoked s₀ h s → ∀ c i,
      s.file .intent = some (recordBytes .intent i.evidence) → s.terminal = none → ∀ out t l,
        Exec (traced semantics) (execute c .recover) (s, []) out (t, l) →
        Each (Succeeds c i) l → t.file .failed = some (recordBytes .failed i.evidence) := by
  intro recovers
  have succeeds : Each (Succeeds sampleContext sampleInputs) (sampleRecovery 1000000).2.2 := by
    decide +kernel
  have failed := recovers sampleEmpty sampleKilled.1 [sampleKilled.2] (fun _ => rfl) sample_sessions
    sampleContext sampleInputs sample_intent.1 sample_intent.2 _ _ _
    (sample_ran 1000000) succeeds
  have absent : (sampleRecovery 1000000).2.1.file .failed = none := by decide +kernel
  rw [absent] at failed
  cases failed

end PlatformConfig.AlloyActivation
