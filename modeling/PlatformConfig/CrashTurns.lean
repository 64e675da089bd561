import PlatformConfig.CrashDisk

/-!
# Programs taking turns on one state

One program at a time runs step by step until it ends or is killed, and between two runs the
surroundings may change the state. What each step of each program guarantees is guaranteed by
the whole. A program on a part of the state is carried over to the whole of it.
-/
namespace PlatformConfig.CrashTurns

open CrashProgram CrashDisk Prog

variable {κ Op : Type} {Reply : Op → Type} {ε α σ : Type}

/-- Nothing runs, or the program named `k` still has to do `rest`. -/
inductive Config (κ Op : Type) (Reply : Op → Type) (ε α σ : Type)
  | idle (s : σ)
  | running (k : κ) (rest : Prog Op Reply ε α) (s : σ)

def Config.state : Config κ Op Reply ε α σ → σ
  | .idle s => s
  | .running _ _ s => s

/-- The programs by their names, the operations and what the surroundings can change. -/
structure Turns (κ Op : Type) (Reply : Op → Type) (ε α σ : Type) where
  body : κ → Prog Op Reply ε α
  semantics : Semantics Op Reply σ
  changes : σ → σ → Prop

inductive Move (T : Turns κ Op Reply ε α σ) :
    Config κ Op Reply ε α σ → Config κ Op Reply ε α σ → Prop
  | change {s t} (changes : T.changes s t) : Move T (.idle s) (.idle t)
  | start (k s) : Move T (.idle s) (.running k (T.body k) s)
  | op {k o f r s t} (done : T.semantics.done o s r t) :
      Move T (.running k (.call o f) s) (.running k (f r) t)
  | cut {k o f s t} (cut : T.semantics.cut o s t) : Move T (.running k (.call o f) s) (.idle t)
  | stop (k p s) : Move T (.running k p s) (.idle s)

abbrev Moves (T : Turns κ Op Reply ε α σ) :
    Config κ Op Reply ε α σ → Config κ Op Reply ε α σ → Prop := Relation.ReflTransGen (Move T)

/-- What is left of a running program keeps to the guarantee of its name. -/
def Steady (T : Turns κ Op Reply ε α σ) (G : κ → σ → σ → Prop) : Config κ Op Reply ε α σ → Prop
  | .idle _ => True
  | .running k p s => wp T.semantics (fun _ => G k) p (fun _ _ => True) s

/-- How a state was left: unchanged, by the surroundings, or by a step of a running program. -/
inductive Stepped (T : Turns κ Op Reply ε α σ) (G : κ → σ → σ → Prop) :
    Config κ Op Reply ε α σ → Config κ Op Reply ε α σ → Prop
  | same {x y} (same : y.state = x.state) : Stepped T G x y
  | changed {s t} (changes : T.changes s t) : Stepped T G (.idle s) (.idle t)
  | did {k p q s t} (kept : G k s t) : Stepped T G (.running k p s) (.running k q t)
  | torn {k p s t} (kept : G k s t) : Stepped T G (.running k p s) (.idle t)

variable {T : Turns κ Op Reply ε α σ} {G : κ → σ → σ → Prop} {x y z : Config κ Op Reply ε α σ}

theorem steady_idle (s : σ) : Steady T G (.idle s) := trivial

/-- A step keeps what the programs guarantee. -/
theorem Steady.move (steady : ∀ k s, wp T.semantics (fun _ => G k) (T.body k) (fun _ _ => True) s)
    (here : Steady T G x) (move : Move T x y) : Steady T G y ∧ Stepped T G x y := by
  cases move with
  | change changes => exact ⟨trivial, .changed changes⟩
  | start k s => exact ⟨steady k s, .same rfl⟩
  | op done =>
    obtain ⟨kept, rest⟩ := here.2 _ _ done
    exact ⟨rest, .did kept⟩
  | cut cut => exact ⟨trivial, .torn (here.1 _ cut)⟩
  | stop k p s => exact ⟨trivial, .same rfl⟩

theorem Steady.moves (steady : ∀ k s, wp T.semantics (fun _ => G k) (T.body k) (fun _ _ => True) s)
    (here : Steady T G x) (moves : Moves T x y) : Steady T G y := by
  induction moves with
  | refl => exact here
  | tail _ move ih => exact (ih.move steady move).1

/-- What every change and every guaranteed step preserves holds between any two moments. -/
theorem Moves.preserves {R : σ → σ → Prop} (refl : ∀ s, R s s)
    (trans : ∀ {s t u}, R s t → R t u → R s u) (changes : ∀ s t, T.changes s t → R s t)
    (kept : ∀ k s t, G k s t → R s t)
    (steady : ∀ k s, wp T.semantics (fun _ => G k) (T.body k) (fun _ _ => True) s)
    (here : Steady T G x) (moves : Moves T x y) : R x.state y.state := by
  induction moves with
  | refl => exact refl _
  | @tail y z prior move ih =>
    refine trans ih ?_
    obtain ⟨-, stepped⟩ := (here.moves steady prior).move steady move
    cases stepped with
    | same same =>
      rw [same]
      exact refl _
    | changed change => exact changes _ _ change
    | did here => exact kept _ _ _ here
    | torn here => exact kept _ _ _ here

/-- The first operations of a run under a handler, up to a kill or to its end. -/
theorem moves_after {h : (o : Op) → σ → Reply o × σ} (within : Within h T.semantics) (n : ℕ) (k : κ)
    (s : σ) : Moves T (.idle s) (.idle (after h n (T.body k) s)) := by
  suffices ∀ n p s, Moves T (.running k p s) (.idle (after h n p s)) from .head (.start k s) (this n _ s)
  intro n
  induction n with
  | zero => exact fun p s => .single (.stop k p s)
  | succ n ih =>
    intro p s
    cases p with
    | ret a => exact .single (.stop k _ s)
    | fail e => exact .single (.stop k _ s)
    | call o f => exact .head (.op (within o s)) (ih _ _)

section Focus
variable {σ' W W' X : Type} {Y : X → Type} {β : Type}

/-- A program on a part of the state: `view` is what it sees, `whole` what its writes are. -/
def focus (view : σ' → σ) (whole : W → W') : Program σ W X Y ε β → Program σ' W' X Y ε β
  | .ret b => .ret b
  | .fail e => .fail e
  | .call .look k => .call .look fun s => focus view whole (k (view s))
  | .call (.ask x) k => .call (.ask x) fun y => focus view whole (k y)
  | .call (.write w) k => .call (.write (whole w)) fun done => focus view whole (k done)

/-- The part of a disk that a program on it sees. -/
structure Focuses (D : Disk σ W X Y) (E : Disk σ' W' X Y) (view : σ' → σ) (whole : W → W') :
    Prop where
  apply : ∀ {w s t}, E.apply (whole w) s = some t → D.apply w (view s) = some (view t)
  refused : ∀ {w s}, E.apply (whole w) s = none → D.apply w (view s) = none
  answers : ∀ {x s y}, E.answers x s y → D.answers x (view s) y
  fails : ∀ {w}, E.fails (whole w) → D.fails w
  torn : ∀ {w s t}, E.torn (whole w) s t → D.torn w (view s) (view t)

/-- A guarantee about a program on a part is one about the program on the whole. -/
theorem wp_focus {D : Disk σ W X Y} {E : Disk σ' W' X Y} {view : σ' → σ} {whole : W → W'}
    (focuses : Focuses D E view whole) {R : σ → σ → Prop} {Q : Except ε β → σ → Prop}
    {p : Program σ W X Y ε β} {s : σ'} (h : wp D.semantics (fun _ => R) p Q (view s)) :
    wp E.semantics (fun _ s t => R (view s) (view t)) (focus view whole p)
      (fun out t => Q out (view t)) s := by
  induction p generalizing s with
  | ret b => exact h
  | fail e => exact h
  | call o k ih =>
    cases o with
    | look =>
      refine ⟨fun u cut => (by cases cut), fun r u done => ?_⟩
      cases done
      obtain ⟨kept, rest⟩ := h.2 _ _ (Done.look (view s))
      exact ⟨kept, ih _ rest⟩
    | ask x =>
      refine ⟨fun u cut => (by cases cut), fun r u done => ?_⟩
      cases done with
      | ask answer =>
        obtain ⟨kept, rest⟩ := h.2 _ _ (Done.ask (focuses.answers answer))
        exact ⟨kept, ih _ rest⟩
    | write w =>
      refine ⟨fun u cut => ?_, fun r u done => ?_⟩
      · cases cut with
        | torn torn => exact h.1 _ (Cut.torn (focuses.torn torn))
      · cases done with
        | wrote applied =>
          obtain ⟨kept, rest⟩ := h.2 _ _ (Done.wrote (focuses.apply applied))
          exact ⟨kept, ih _ rest⟩
        | refused refused =>
          obtain ⟨kept, rest⟩ := h.2 _ _ (Done.refused (refused.imp focuses.refused focuses.fails))
          exact ⟨kept, ih _ rest⟩

end Focus

end PlatformConfig.CrashTurns
