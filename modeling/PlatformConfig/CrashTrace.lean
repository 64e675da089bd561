import PlatformConfig.CrashProgram

/-!
# Sessions with a trace

Programs run one after the other, each ended by itself or by a kill. The trace of a session
lists its completed operations, newest first, each with its reply and the state before it.
-/
namespace PlatformConfig.CrashTrace

open CrashProgram

structure Event (Op : Type) (Reply : Op → Type) (σ : Type) where
  op : Op
  reply : Reply op
  before : σ

abbrev Trace (Op : Type) (Reply : Op → Type) (σ : Type) := List (Event Op Reply σ)

variable {Op : Type} {Reply : Op → Type} {ε α β σ : Type}

/-- The operations of a semantics, recorded in a trace. -/
def traced (M : Semantics Op Reply σ) : Semantics Op Reply (σ × Trace Op Reply σ) where
  done o p r q := M.done o p.1 r q.1 ∧ q.2 = ⟨o, r, p.1⟩ :: p.2
  cut o p q := M.cut o p.1 q.1 ∧ q.2 = p.2

/-- Every event satisfies `P` together with the events before it. -/
def Each (P : Event Op Reply σ → Trace Op Reply σ → Prop) : Trace Op Reply σ → Prop
  | [] => True
  | e :: l => P e l ∧ Each P l

instance decideEach {P : Event Op Reply σ → Trace Op Reply σ → Prop} [d : ∀ e l, Decidable (P e l)] :
    ∀ l, Decidable (Each P l)
  | [] => .isTrue trivial
  | e :: l => @instDecidableAnd _ _ (d e l) (decideEach l)

/-- An operation of the trace and its reply. -/
def Saw (l : Trace Op Reply σ) (o : Op) (r : Reply o) : Prop := ∃ s, ⟨o, r, s⟩ ∈ l

/-- The events after the newest one that satisfies `mark`. -/
def since (mark : Event Op Reply σ → Bool) (l : Trace Op Reply σ) : Trace Op Reply σ :=
  l.takeWhile fun e => !mark e

variable {M : Semantics Op Reply σ} {s : σ} {l : Trace Op Reply σ}
  {G : Op → σ × Trace Op Reply σ → σ × Trace Op Reply σ → Prop}

lemma each_iff {P : Event Op Reply σ → Trace Op Reply σ → Prop} :
    Each P l ↔ ∀ newer e older, l = newer ++ e :: older → P e older := by
  induction l with
  | nil => simp [Each]
  | cons e l ih =>
    rw [Each, ih]
    constructor
    · rintro ⟨here, earlier⟩ (_ | ⟨n, newer⟩) e' older heq
      · obtain ⟨rfl, rfl⟩ := List.cons.inj heq
        exact here
      · exact earlier newer e' older (List.cons.inj heq).2
    · intro h
      exact ⟨h [] e l rfl, fun newer e' older heq => h (e :: newer) e' older (by rw [heq]; rfl)⟩

lemma Saw.cons {o : Op} {r : Reply o} (h : Saw l o r) (e : Event Op Reply σ) :
    Saw (e :: l) o r := by
  obtain ⟨s, mem⟩ := h
  exact ⟨s, List.mem_cons_of_mem e mem⟩

/-- A recorded operation followed by the rest of a program. -/
lemma wp_traced {o : Op} {k : Reply o → Prog Op Reply ε α}
    {Q : Except ε α → σ × Trace Op Reply σ → Prop}
    (cut : ∀ t, M.cut o s t → G o (s, l) (t, l))
    (done : ∀ r t, M.done o s r t → G o (s, l) (t, ⟨o, r, s⟩ :: l) ∧
      wp (traced M) G (k r) Q (t, ⟨o, r, s⟩ :: l)) :
    wp (traced M) G (.call o k) Q (s, l) := by
  refine ⟨?_, ?_⟩
  · rintro ⟨t, l'⟩ ⟨hc, rfl⟩
    exact cut t hc
  · rintro r ⟨t, l'⟩ ⟨hd, rfl⟩
    exact done r t hd

lemma Each.append_right {P : Event Op Reply σ → Trace Op Reply σ → Prop}
    {new : Trace Op Reply σ} (h : Each P (new ++ l)) : Each P l := by
  induction new with
  | nil => exact h
  | cons e new ih => exact ih h.2

lemma since_append {mark : Event Op Reply σ → Bool} {new : Trace Op Reply σ}
    (unmarked : ∀ e ∈ new, mark e = false) : since mark (new ++ l) = new ++ since mark l := by
  unfold since
  rw [List.takeWhile_append_of_pos]
  intro e mem
  rw [unmarked e mem]
  rfl

/-- The recorded operations whose events satisfy `P`. -/
def obliged (P : Event Op Reply σ → Trace Op Reply σ → Prop) (M : Semantics Op Reply σ) :
    Semantics Op Reply (σ × Trace Op Reply σ) where
  done o p r q := (traced M).done o p r q ∧ P ⟨o, r, p.1⟩ p.2
  cut := (traced M).cut

lemma exec_grows {p : Prog Op Reply ε α} {q q' : σ × Trace Op Reply σ} {out : Except ε α}
    (run : Exec (traced M) p q out q') : ∃ new, q'.2 = new ++ q.2 := by
  induction run with
  | ret a q => exact ⟨[], rfl⟩
  | fail e q => exact ⟨[], rfl⟩
  | @call o k q r q₁ out q₂ step rest ih =>
    obtain ⟨new, grown⟩ := ih
    exact ⟨new ++ [⟨o, r, q.1⟩], by rw [grown, step.2]; simp⟩

/-- A run whose trace satisfies `P` performs only obliged operations. -/
theorem exec_obliged {P : Event Op Reply σ → Trace Op Reply σ → Prop} {p : Prog Op Reply ε α}
    {q q' : σ × Trace Op Reply σ} {out : Except ε α} (run : Exec (traced M) p q out q')
    (each : Each P q'.2) : Exec (obliged P M) p q out q' := by
  induction run with
  | ret a q => exact .ret a q
  | fail e q => exact .fail e q
  | @call o k q r q₁ out q₂ step rest ih =>
    obtain ⟨new, grown⟩ := exec_grows rest
    have here : Each P q₁.2 := by
      rw [grown] at each
      exact each.append_right
    rw [step.2] at here
    exact .call ⟨step, here.1⟩ (ih each)

/-- Sessions of programs of `P` from `s`: their traces, the newest session first. -/
inductive Sessions (M : Semantics Op Reply σ) (P : Prog Op Reply ε α → Prop) (s : σ) :
    List (Trace Op Reply σ) → σ → Prop
  | none : Sessions M P s [] s
  | next {h t p u l} (prior : Sessions M P s h t) (member : P p)
      (run : Killed (traced M) p (t, []) (u, l)) : Sessions M P s (l :: h) u

/-- What every step of every program keeps holds after every session. -/
theorem Sessions.invariant {P : Prog Op Reply ε α → Prop}
    {I : List (Trace Op Reply σ) → σ → Prop} {h : List (Trace Op Reply σ)} {t : σ}
    (initial : I [] s) (opens : ∀ h t, I h t → I ([] :: h) t)
    (keeps : ∀ p, P p → ∀ h t, I ([] :: h) t →
      wp (traced M) (fun _ _ q => I (q.2 :: h) q.1) p (fun _ _ => True) (t, []))
    (runs : Sessions M P s h t) : I h t := by
  induction runs with
  | none => exact initial
  | @next h t p u l prior member run ih =>
    exact wp_killed (C := fun q => I (q.2 :: h) q.1) (keeps p member h t (opens h t ih))
      (opens h t ih) run

/-- A program whose completed run ends by itself, recorded. -/
lemma Sessions.completed {P : Prog Op Reply ε α → Prop} {h : List (Trace Op Reply σ)} {t u : σ}
    {p : Prog Op Reply ε α} {out : Except ε α} (prior : Sessions M P s h t) (member : P p)
    (run : Exec (traced M) p (t, []) out (u, l)) : Sessions M P s (l :: h) u :=
  .next prior member run.killed

end PlatformConfig.CrashTrace
