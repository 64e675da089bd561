import PlatformConfig.CrashDisk

/-!
# Programs side by side

Any number of programs act on one state, operation by operation in any order. Each of them can be
killed inside any of its operations, and the surroundings change the state in between. A program is
checked alone, against what the others guarantee, and what holds for each of them holds for all.
-/
namespace PlatformConfig.CrashThreads

open CrashProgram CrashDisk Prog

/-- The programs by their names, what is noted of their operations, what the end of one does to the
state, and what the surroundings can change. -/
structure Threads (ι Op : Type) (Reply : Op → Type) (ε α σ ν : Type) where
  body : ι → Prog Op Reply ε α
  semantics : Semantics Op Reply σ
  note : ι → (o : Op) → Reply o → σ → List ν
  gone : ι → σ → σ
  changes : σ → σ → Prop

/-- A state and the notes, newest first. -/
abbrev Noted (σ ν : Type) := σ × List ν

/-- The programs that have started and what each of them still has to do. -/
structure Config (ι Op : Type) (Reply : Op → Type) (ε α σ ν : Type) where
  here : Noted σ ν
  rest : ι → Option (Prog Op Reply ε α)

variable {ι Op : Type} {Reply : Op → Type} {ε α β σ ν : Type}

/-- No program runs and nothing is noted. -/
def Config.idle (s : σ) : Config ι Op Reply ε α σ ν := ⟨(s, []), fun _ => none⟩

/-! ## A program among others -/

/-- What is promised about programs: what holds throughout, what the others do to a program, and
what it does itself. -/
structure Promise (ι σ ν : Type) where
  holds : Noted σ ν → Prop
  rely : ι → Noted σ ν → Noted σ ν → Prop
  guarantee : ι → Noted σ ν → Noted σ ν → Prop

variable {T : Threads ι Op Reply ε α σ ν} {P : Promise ι σ ν} {i : ι} {p q : Noted σ ν}

/-- Whatever the others do between its operations, a program keeps to its guarantee and can only end
as `Q` says. -/
def Safe (T : Threads ι Op Reply ε α σ ν) (P : Promise ι σ ν) (i : ι) :
    Prog Op Reply ε β → (Except ε β → Noted σ ν → Prop) → Noted σ ν → Prop
  | .ret a, Q, p => Q (.ok a) p
  | .fail e, Q, p => Q (.error e) p
  | .call o k, Q, p => ∀ q, P.rely i p q → P.holds q →
      (∀ s, T.semantics.cut o q.1 s → P.guarantee i q (T.gone i s, q.2)) ∧
      ∀ r s, T.semantics.done o q.1 r s →
        P.guarantee i q (s, T.note i o r q.1 ++ q.2) ∧ Safe T P i (k r) Q (s, T.note i o r q.1 ++ q.2)

lemma Safe.mono {prog : Prog Op Reply ε β} {Q Q' : Except ε β → Noted σ ν → Prop}
    (h : Safe T P i prog Q p) (weaker : ∀ out q, Q out q → Q' out q) : Safe T P i prog Q' p := by
  induction prog generalizing p with
  | ret a => exact weaker _ _ h
  | fail e => exact weaker _ _ h
  | call o k ih =>
    intro q rely holds
    obtain ⟨cut, done⟩ := h q rely holds
    exact ⟨cut, fun r s step => ⟨(done r s step).1, ih r (done r s step).2⟩⟩

lemma Safe.bind {γ : Type} {prog : Prog Op Reply ε β} {f : β → Prog Op Reply ε γ}
    {Q : Except ε γ → Noted σ ν → Prop}
    (h : Safe T P i prog (fun out q => match out with
      | .ok a => Safe T P i (f a) Q q
      | .error e => Q (.error e) q) p) : Safe T P i (prog.bind f) Q p := by
  induction prog generalizing p with
  | ret a => exact h
  | fail e => exact h
  | call o k ih =>
    intro q rely holds
    obtain ⟨cut, done⟩ := h q rely holds
    exact ⟨cut, fun r s step => ⟨(done r s step).1, ih r (done r s step).2⟩⟩

lemma Safe.handle {prog : Prog Op Reply ε β} {f : ε → Prog Op Reply ε β}
    {Q : Except ε β → Noted σ ν → Prop}
    (h : Safe T P i prog (fun out q => match out with
      | .ok a => Q (.ok a) q
      | .error e => Safe T P i (f e) Q q) p) : Safe T P i (prog.handle f) Q p := by
  induction prog generalizing p with
  | ret a => exact h
  | fail e => exact h
  | call o k ih =>
    intro q rely holds
    obtain ⟨cut, done⟩ := h q rely holds
    exact ⟨cut, fun r s step => ⟨(done r s step).1, ih r (done r s step).2⟩⟩

/-! ## All programs together -/

/-- What has to be shown of the promises: the others' guarantees are what a program relies on, and
all keep what holds throughout. -/
structure Kept (T : Threads ι Op Reply ε α σ ν) (P : Promise ι σ ν) : Prop where
  refl : ∀ i p, P.rely i p p
  trans : ∀ {i p q r}, P.rely i p q → P.rely i q r → P.rely i p r
  others : ∀ {i j p q}, j ≠ i → P.holds p → P.guarantee j p q → P.rely i p q
  changes : ∀ {s t l}, T.changes s t → P.holds (s, l) → P.holds (t, l) ∧ ∀ i, P.rely i (s, l) (t, l)
  keeps : ∀ {i p q}, P.holds p → P.guarantee i p q → P.holds q
  gone : ∀ {i p}, P.holds p → P.guarantee i p (T.gone i p.1, p.2)
  start : ∀ {i p}, P.holds p → Safe T P i (T.body i) (fun _ _ => True) p

section Together
variable [DecidableEq ι]

inductive Step (T : Threads ι Op Reply ε α σ ν) :
    Config ι Op Reply ε α σ ν → Config ι Op Reply ε α σ ν → Prop
  | change {c s} (changes : T.changes c.here.1 s) : Step T c { c with here := (s, c.here.2) }
  | start {c i} (idle : c.rest i = none) :
      Step T c { c with rest := Function.update c.rest i (some (T.body i)) }
  | op {c i o k r s} (at_ : c.rest i = some (.call o k)) (done : T.semantics.done o c.here.1 r s) :
      Step T c ⟨(s, T.note i o r c.here.1 ++ c.here.2), Function.update c.rest i (some (k r))⟩
  | cut {c i o k s} (at_ : c.rest i = some (.call o k)) (cut : T.semantics.cut o c.here.1 s) :
      Step T c ⟨(T.gone i s, c.here.2), Function.update c.rest i none⟩
  | stop {c i p} (at_ : c.rest i = some p) :
      Step T c ⟨(T.gone i c.here.1, c.here.2), Function.update c.rest i none⟩

abbrev Steps (T : Threads ι Op Reply ε α σ ν) :
    Config ι Op Reply ε α σ ν → Config ι Op Reply ε α σ ν → Prop := Relation.ReflTransGen (Step T)

/-- What is left of every program is safe. -/
structure Sound (T : Threads ι Op Reply ε α σ ν) (P : Promise ι σ ν)
    (c : Config ι Op Reply ε α σ ν) : Prop where
  holds : P.holds c.here
  rest : ∀ i prog, c.rest i = some prog → Safe T P i prog (fun _ _ => True) c.here

/-- How a step has changed the state: not at all, by the surroundings, or by a program. -/
inductive Moved (T : Threads ι Op Reply ε α σ ν) (P : Promise ι σ ν) : Noted σ ν → Noted σ ν → Prop
  | same (p : Noted σ ν) : Moved T P p p
  | changed {s t : σ} {l : List ν} (changes : T.changes s t) : Moved T P (s, l) (t, l)
  | did {i : ι} {p q : Noted σ ν} (guarantee : P.guarantee i p q) : Moved T P p q

variable {c d : Config ι Op Reply ε α σ ν}

omit [DecidableEq ι] in
lemma Safe.rely {prog : Prog Op Reply ε α} (kept : Kept T P)
    (h : Safe T P i prog (fun _ _ => True) p) (rely : P.rely i p q) :
    Safe T P i prog (fun _ _ => True) q := by
  cases prog with
  | ret a => exact trivial
  | fail e => exact trivial
  | call o k => exact fun r later => h r (kept.trans rely later)

/-- The other programs go on as before, and `i` goes on from where it has come to. -/
lemma Sound.update (kept : Kept T P) (h : Sound T P c) (guarantee : P.guarantee i c.here q)
    {next : Option (Prog Op Reply ε α)}
    (rest : ∀ prog ∈ next, Safe T P i prog (fun _ _ => True) q) :
    Sound T P ⟨q, Function.update c.rest i next⟩ := by
  refine ⟨kept.keeps h.holds guarantee, fun j prog at_ => ?_⟩
  dsimp only at at_
  by_cases same : j = i
  · subst same
    rw [Function.update_self] at at_
    exact rest prog at_
  · rw [Function.update_of_ne same] at at_
    exact (h.rest j prog at_).rely kept (kept.others (Ne.symm same) h.holds guarantee)

theorem Sound.step (kept : Kept T P) (h : Sound T P c) (step : Step T c d) :
    Sound T P d ∧ Moved T P c.here d.here := by
  cases step with
  | change changes =>
    obtain ⟨holds, rely⟩ := kept.changes changes h.holds
    exact ⟨⟨holds, fun j prog at_ => (h.rest j prog at_).rely kept (rely j)⟩, .changed changes⟩
  | @start i idle =>
    refine ⟨⟨h.holds, fun j prog at_ => ?_⟩, .same _⟩
    dsimp only at at_
    by_cases same : j = i
    · subst same
      rw [Function.update_self] at at_
      cases at_
      exact kept.start h.holds
    · rw [Function.update_of_ne same] at at_
      exact h.rest j prog at_
  | @op i o k r s at_ done =>
    obtain ⟨guarantee, rest⟩ := (h.rest i _ at_ _ (kept.refl i _) h.holds).2 r s done
    exact ⟨h.update kept guarantee fun prog same => by cases same; exact rest, .did guarantee⟩
  | @cut i o k s at_ cut =>
    have guarantee := (h.rest i _ at_ _ (kept.refl i _) h.holds).1 s cut
    exact ⟨h.update kept guarantee fun prog same => (by cases same), .did guarantee⟩
  | @stop i prog at_ =>
    have guarantee := kept.gone (i := i) h.holds
    exact ⟨h.update kept guarantee fun prog same => (by cases same), .did guarantee⟩

/-- What holds at the beginning holds in every state that the programs come to. -/
theorem Sound.steps (kept : Kept T P) (h : Sound T P c) (steps : Steps T c d) : Sound T P d := by
  induction steps with
  | refl => exact h
  | tail _ step ih => exact (ih.step kept step).1

/-- What every guarantee and every change preserves holds between any two moments. -/
theorem Sound.related {R : Noted σ ν → Noted σ ν → Prop} (kept : Kept T P) (refl : ∀ p, R p p)
    (trans : ∀ {p q r}, R p q → R q r → R p r)
    (changes : ∀ s t l, T.changes s t → R (s, l) (t, l))
    (guarantee : ∀ i p q, P.holds p → P.guarantee i p q → R p q) (h : Sound T P c) (steps : Steps T c d) :
    R c.here d.here := by
  induction steps with
  | refl => exact refl _
  | @tail d e prior step ih =>
    refine trans ih ?_
    have holds := (h.steps kept prior).holds
    have moved := ((h.steps kept prior).step kept step).2
    generalize e.here = q at moved
    generalize d.here = p at moved holds
    cases moved with
    | same => exact refl _
    | changed changed => exact changes _ _ _ changed
    | did did => exact guarantee _ _ _ holds did

omit [DecidableEq ι] in
lemma Sound.idle {s : σ} (holds : P.holds (s, [])) : Sound T P (Config.idle s) :=
  ⟨holds, fun i prog at_ => by cases at_⟩

/-- What is noted of a run with the handler `h`. -/
def noted (h : (o : Op) → σ → Reply o × σ) (note : (o : Op) → Reply o → σ → List ν) :
    Prog Op Reply ε α → σ → List ν
  | .ret _, _ => []
  | .fail _, _ => []
  | .call o k, s => noted h note (k (h o s).1) (h o s).2 ++ note o (h o s).1 s

/-- A program that nobody interrupts runs to its end. -/
theorem steps_run {h : (o : Op) → σ → Reply o × σ} (within : Within h T.semantics) {prog : Prog Op Reply ε α}
    (at_ : c.rest i = some prog) :
    ∃ d, Steps T c d ∧ d.here = ((run h prog c.here.1).2, noted h (T.note i) prog c.here.1 ++ c.here.2) := by
  induction prog generalizing c with
  | ret a => exact ⟨c, .refl, rfl⟩
  | fail e => exact ⟨c, .refl, rfl⟩
  | call o k ih =>
    have step : Step T c _ := .op at_ (within o c.here.1)
    obtain ⟨d, steps, here⟩ := ih (h o c.here.1).1 (c := ⟨((h o c.here.1).2, T.note i o (h o c.here.1).1 c.here.1 ++
      c.here.2), Function.update c.rest i (some (k (h o c.here.1).1))⟩) (Function.update_self ..)
    refine ⟨d, .head step steps, ?_⟩
    rw [here, run, noted, List.append_assoc]

end Together

/-! ## Programs on a disk -/

section Disk
variable {W X : Type} {Y : X → Type} {D : Disk σ W X Y} {Q : Except ε β → Noted σ ν → Prop}
  {T : Threads ι (CrashDisk.Op W X) (CrashDisk.Reply σ Y) ε α σ ν}

lemma safe_look (disk : T.semantics = D.semantics) {f : σ → Program σ W X Y ε β}
    (rest : ∀ q, P.rely i p q → P.holds q →
      P.guarantee i q (q.1, T.note i .look q.1 q.1 ++ q.2) ∧ Safe T P i (f q.1) Q (q.1, T.note i .look q.1 q.1 ++ q.2)) :
    Safe T P i (look.bind f) Q p := by
  intro q rely holds
  rw [disk]
  refine ⟨fun s cut => (by cases cut), fun r s done => ?_⟩
  cases done
  exact rest q rely holds

lemma safe_ask (disk : T.semantics = D.semantics) {x : X} {f : Y x → Program σ W X Y ε β}
    (rest : ∀ q, P.rely i p q → P.holds q → ∀ y, D.answers x q.1 y →
      P.guarantee i q (q.1, T.note i (.ask x) y q.1 ++ q.2) ∧
        Safe T P i (f y) Q (q.1, T.note i (.ask x) y q.1 ++ q.2)) :
    Safe T P i ((ask x).bind f) Q p := by
  intro q rely holds
  rw [disk]
  refine ⟨fun s cut => (by cases cut), fun r s done => ?_⟩
  cases done with
  | ask answer => exact rest q rely holds r answer

lemma safe_write (disk : T.semantics = D.semantics) {w : W} {e : ε} {f : Unit → Program σ W X Y ε β}
    (rest : ∀ q, P.rely i p q → P.holds q →
      (∀ s, D.torn w q.1 s → P.guarantee i q (T.gone i s, q.2)) ∧
      (∀ s, D.apply w q.1 = some s → P.guarantee i q (s, T.note i (.write w) true q.1 ++ q.2) ∧
        Safe T P i (f ()) Q (s, T.note i (.write w) true q.1 ++ q.2)) ∧
      P.guarantee i q (q.1, T.note i (.write w) false q.1 ++ q.2) ∧
        Q (.error e) (q.1, T.note i (.write w) false q.1 ++ q.2)) :
    Safe T P i ((write w e).bind f) Q p := by
  intro q rely holds
  obtain ⟨torn, wrote, refused⟩ := rest q rely holds
  rw [disk]
  refine ⟨fun s cut => ?_, fun r s done => ?_⟩
  · cases cut with
    | torn part => exact torn s part
  · cases done with
    | wrote applied => exact wrote s applied
    | refused => exact refused

lemma safe_check {b : Bool} {e : ε} {f : Unit → Program σ W X Y ε β} (refused : Q (.error e) p)
    (passed : b = true → Safe T P i (f ()) Q p) : Safe T P i ((require b e).bind f) Q p := by
  cases b with
  | true => exact passed rfl
  | false => exact refused

end Disk

end PlatformConfig.CrashThreads
