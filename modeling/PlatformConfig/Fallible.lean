import Mathlib

/-!
# Computations that can fail

How a computation in `Except` fails: a predicate of its failures with a rule for each way in which
computations are put together, and the first step of a loop that fails.
-/
namespace PlatformConfig.Fallible

variable {ε α β : Type} {P : ε → Prop}

/-- A computation that fails does so in this way. -/
def Fails (P : ε → Prop) (x : Except ε α) : Prop := ∀ e, x = .error e → P e

lemma Fails.ok {a : α} : Fails P (.ok a : Except ε α) := by
  intro e failed
  cases failed

lemma Fails.error {e : ε} (h : P e) : Fails P (.error e : Except ε α) := by
  intro e' failed
  cases failed
  exact h

lemma Fails.check {b : Bool} {e : ε} {x : Except ε α} (h : P e) (h' : b = true → Fails P x) :
    Fails P (if (!b) = true then .error e else x) := by
  cases b with
  | false => exact Fails.error h
  | true => exact h' rfl

lemma Fails.bind {x : Except ε α} {f : α → Except ε β} (h : Fails P x) (h' : ∀ a, Fails P (f a)) :
    Fails P (x >>= f) := by
  cases x with
  | error e => exact Fails.error (h e rfl)
  | ok a => exact h' a

lemma Fails.imp {Q : ε → Prop} {x : Except ε α} (h : Fails P x) (weaker : ∀ e, P e → Q e) : Fails Q x :=
  fun e failed => weaker e (h e failed)

lemma bind_error {x : Except ε α} {f : α → Except ε β} {e : ε} :
    (x >>= f) = .error e ↔ x = .error e ∨ ∃ a, x = .ok a ∧ f a = .error e := by
  cases x with
  | error e' =>
    constructor
    · intro failed
      cases failed
      exact .inl rfl
    · rintro (failed | ⟨a, ok, -⟩)
      · cases failed
        rfl
      · cases ok
  | ok a =>
    constructor
    · exact fun failed => .inr ⟨a, rfl, failed⟩
    · rintro (failed | ⟨a', ok, rest⟩)
      · cases failed
      · cases ok
        exact rest

lemma forM_cons_eq {f : α → Except ε Unit} (x : α) (xs : List α) :
    (x :: xs).forM f = f x >>= fun _ => xs.forM f := rfl

lemma Fails.forM {f : α → Except ε Unit} {xs : List α} (h : ∀ x ∈ xs, Fails P (f x)) : Fails P (xs.forM f) := by
  induction xs with
  | nil => exact Fails.ok
  | cons x xs ih =>
    rw [forM_cons_eq]
    exact (h x List.mem_cons_self).bind fun _ => ih fun y mem => h y (List.mem_cons_of_mem x mem)

lemma forM_ok {f : α → Except ε Unit} {xs : List α} : xs.forM f = .ok () ↔ ∀ x ∈ xs, f x = .ok () := by
  induction xs with
  | nil => simp [List.forM, pure, Except.pure]
  | cons x xs ih =>
    rw [forM_cons_eq, List.forall_mem_cons, ← ih]
    cases first : f x with
    | error e =>
      constructor
      · intro passed
        cases passed
      · intro both
        cases both.1
    | ok a =>
      constructor
      · exact fun rest => ⟨rfl, rest⟩
      · exact fun both => both.2

/-- A loop fails at the first step that fails. -/
lemma forM_error {f : α → Except ε Unit} {xs : List α} {e : ε} : xs.forM f = .error e ↔
    ∃ pre x post, xs = pre ++ x :: post ∧ (∀ y ∈ pre, f y = .ok ()) ∧ f x = .error e := by
  induction xs with
  | nil => simp [List.forM, pure, Except.pure]
  | cons x xs ih =>
    rw [forM_cons_eq, bind_error]
    constructor
    · rintro (failed | ⟨⟨⟩, passed, failed⟩)
      · exact ⟨[], x, xs, rfl, by simp, failed⟩
      · obtain ⟨pre, y, post, rfl, before, failed⟩ := ih.mp failed
        exact ⟨x :: pre, y, post, rfl, List.forall_mem_cons.mpr ⟨passed, before⟩, failed⟩
    · rintro ⟨pre, y, post, cut, before, failed⟩
      cases pre with
      | nil =>
        obtain ⟨rfl, rfl⟩ := List.cons.inj cut
        exact .inl failed
      | cons z pre =>
        obtain ⟨rfl, rfl⟩ := List.cons.inj cut
        obtain ⟨passed, before⟩ := List.forall_mem_cons.mp before
        exact .inr ⟨(), passed, ih.mpr ⟨pre, y, post, rfl, before, failed⟩⟩

lemma forM_map_eq {f : β → Except ε Unit} {g : α → β} (xs : List α) : (xs.map g).forM f = xs.forM fun x => f (g x) :=
  List.forM_map

lemma forM_flatMap {γ : Type} {f : β → γ → Except ε Unit} {g : β → List γ} (xs : List β) :
    (xs.forM fun x => (g x).forM (f x)) = (xs.flatMap fun x => (g x).map fun y => (x, y)).forM fun p => f p.1 p.2 := by
  have append (l l' : List (β × γ)) : (l ++ l').forM (fun p => f p.1 p.2) =
      l.forM (fun p => f p.1 p.2) >>= fun _ => l'.forM fun p => f p.1 p.2 := List.forM_append
  induction xs with
  | nil => rfl
  | cons x xs ih => rw [forM_cons_eq, List.flatMap_cons, append, forM_map_eq, ih]

/-- Go on only where a check holds. -/
def ensure (b : Bool) (e : ε) : Except ε Unit := if b then .ok () else .error e

lemma bind_eq_ok {x : Except ε α} {f : α → Except ε β} {b : β} :
    (x >>= f) = .ok b ↔ ∃ a, x = .ok a ∧ f a = .ok b := by
  cases x with
  | error e =>
    constructor
    · intro ran
      cases ran
    · rintro ⟨a, ok, -⟩
      cases ok
  | ok a =>
    constructor
    · exact fun ran => ⟨a, rfl, ran⟩
    · rintro ⟨a', ok, ran⟩
      cases ok
      exact ran

lemma ensure_eq_ok {b : Bool} {e : ε} {u : Unit} : ensure b e = .ok u ↔ b = true := by
  cases b <;> simp [ensure]

lemma ensure_bind_ok {b : Bool} {e : ε} {f : Unit → Except ε β} {y : β} :
    (ensure b e >>= f) = .ok y ↔ b = true ∧ f () = .ok y := by
  rw [bind_eq_ok]
  constructor
  · rintro ⟨⟨⟩, passed, ran⟩
    exact ⟨ensure_eq_ok.mp passed, ran⟩
  · exact fun ⟨passed, ran⟩ => ⟨(), ensure_eq_ok.mpr passed, ran⟩

lemma mapM_eq_ok {f : α → Except ε β} {xs : List α} {ys : List β} :
    xs.mapM f = .ok ys ↔ List.Forall₂ (fun x y => f x = .ok y) xs ys := by
  induction xs generalizing ys with
  | nil =>
    rw [List.mapM_nil, List.forall₂_nil_left_iff]
    constructor
    · intro same
      cases same
      rfl
    · rintro rfl
      rfl
  | cons x xs ih =>
    rw [List.mapM_cons, bind_eq_ok]
    constructor
    · rintro ⟨y, first, rest⟩
      obtain ⟨zs, others, same⟩ := bind_eq_ok.mp rest
      cases same
      exact .cons first (ih.mp others)
    · intro each
      cases each with
      | cons first others => exact ⟨_, first, bind_eq_ok.mpr ⟨_, ih.mpr others, rfl⟩⟩

lemma mapM_left {f : α → Except ε β} {xs : List α} {ys : List β} {x : α} (h : xs.mapM f = .ok ys)
    (mem : x ∈ xs) : ∃ y ∈ ys, f x = .ok y := by
  have each := mapM_eq_ok.mp h
  clear h
  induction each with
  | nil => cases mem
  | @cons x' y' xs ys first others ih =>
    rcases List.mem_cons.mp mem with rfl | mem
    · exact ⟨y', List.mem_cons_self, first⟩
    · obtain ⟨y, in_, ran⟩ := ih mem
      exact ⟨y, List.mem_cons_of_mem y' in_, ran⟩

lemma mapM_right {f : α → Except ε β} {xs : List α} {ys : List β} {y : β} (h : xs.mapM f = .ok ys)
    (mem : y ∈ ys) : ∃ x ∈ xs, f x = .ok y := by
  have each := mapM_eq_ok.mp h
  clear h
  induction each with
  | nil => cases mem
  | @cons x' y' xs ys first others ih =>
    rcases List.mem_cons.mp mem with rfl | mem
    · exact ⟨x', List.mem_cons_self, first⟩
    · obtain ⟨x, in_, ran⟩ := ih mem
      exact ⟨x, List.mem_cons_of_mem x' in_, ran⟩

lemma mapM_succeeds {f : α → Except ε β} {xs : List α} :
    (∃ ys, xs.mapM f = .ok ys) ↔ ∀ x ∈ xs, ∃ y, f x = .ok y := by
  constructor
  · rintro ⟨ys, ran⟩ x mem
    obtain ⟨y, -, here⟩ := mapM_left ran mem
    exact ⟨y, here⟩
  · intro each
    induction xs with
    | nil => exact ⟨[], mapM_eq_ok.mpr .nil⟩
    | cons x xs ih =>
      obtain ⟨y, first⟩ := each x List.mem_cons_self
      obtain ⟨ys, others⟩ := ih fun z mem => each z (List.mem_cons_of_mem x mem)
      exact ⟨y :: ys, mapM_eq_ok.mpr (.cons first (mapM_eq_ok.mp others))⟩

/-- Values that are computed one for each element. -/
theorem mapM_forall₂ {f : α → Option β} {xs : List α} {ys : List β} (h : xs.mapM f = some ys) :
    List.Forall₂ (fun x y => f x = some y) xs ys := by
  induction xs generalizing ys with
  | nil =>
    cases h
    exact .nil
  | cons x xs ih =>
    rw [List.mapM_cons] at h
    obtain ⟨y, first, rest⟩ := Option.bind_eq_some_iff.mp h
    obtain ⟨zs, others, made⟩ := Option.bind_eq_some_iff.mp rest
    cases made
    exact .cons first (ih others)

end PlatformConfig.Fallible
