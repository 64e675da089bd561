import Mathlib

/-!
# Programs on a durable state that can be killed

A program asks for atomic operations one after the other. `Exec` is a run that
ends by itself, `Killed` every state a kill can leave, and `wp` the rule that
carries a guarantee about each single step through a whole program.
-/
namespace PlatformConfig.CrashProgram

/-- A program over operations `Op`, each answered by a value of its `Reply` type. -/
inductive Prog (Op : Type) (Reply : Op → Type) (ε α : Type)
  | ret (a : α)
  | fail (e : ε)
  | call (o : Op) (next : Reply o → Prog Op Reply ε α)

variable {Op : Type} {Reply : Op → Type} {ε α β σ : Type}

namespace Prog

def bind : Prog Op Reply ε α → (α → Prog Op Reply ε β) → Prog Op Reply ε β
  | ret a, f => f a
  | fail e, _ => fail e
  | call o k, f => call o fun r => (k r).bind f

/-- Run `h` on the error of a program that fails. -/
def handle : Prog Op Reply ε α → (ε → Prog Op Reply ε α) → Prog Op Reply ε α
  | ret a, _ => ret a
  | fail e, h => h e
  | call o k, h => call o fun r => (k r).handle h

instance : Monad (Prog Op Reply ε) where
  pure := ret
  bind := bind

/-- One operation and its reply. -/
def perform (o : Op) : Prog Op Reply ε (Reply o) := call o ret

/-- Continue only where a check holds. -/
def require (b : Bool) (e : ε) : Prog Op Reply ε Unit := if b then ret () else fail e

@[simp] theorem pure_eq (a : α) : (pure a : Prog Op Reply ε α) = ret a := rfl

@[simp] theorem bind_eq (p : Prog Op Reply ε α) (f : α → Prog Op Reply ε β) :
    p >>= f = p.bind f := rfl

@[simp] theorem bind_ret (a : α) (f : α → Prog Op Reply ε β) : (ret a).bind f = f a := rfl

@[simp] theorem bind_fail (e : ε) (f : α → Prog Op Reply ε β) :
    (fail e : Prog Op Reply ε α).bind f = fail e := rfl

@[simp] theorem bind_call (o : Op) (k : Reply o → Prog Op Reply ε α)
    (f : α → Prog Op Reply ε β) : (call o k).bind f = call o fun r => (k r).bind f := rfl

@[simp] theorem bind_perform (o : Op) (f : Reply o → Prog Op Reply ε β) :
    (perform o).bind f = call o f := rfl

@[simp] theorem bind_require (b : Bool) (e : ε) (f : Unit → Prog Op Reply ε β) :
    (require b e : Prog Op Reply ε Unit).bind f = if b then f () else fail e := by
  cases b <;> rfl

theorem bind_assoc {γ : Type} (p : Prog Op Reply ε α) (f : α → Prog Op Reply ε β)
    (g : β → Prog Op Reply ε γ) : (p.bind f).bind g = p.bind fun a => (f a).bind g := by
  induction p with
  | ret a => rfl
  | fail e => rfl
  | call o k ih => simp only [bind_call, ih]

theorem bind_ret_right (p : Prog Op Reply ε α) : p.bind ret = p := by
  induction p with
  | ret a => rfl
  | fail e => rfl
  | call o k ih => simp only [bind_call, ih]

@[simp] theorem handle_ret (a : α) (h : ε → Prog Op Reply ε α) : (ret a).handle h = ret a := rfl

@[simp] theorem handle_fail (e : ε) (h : ε → Prog Op Reply ε α) : (fail e).handle h = h e := rfl

@[simp] theorem handle_call (o : Op) (k : Reply o → Prog Op Reply ε α)
    (h : ε → Prog Op Reply ε α) : (call o k).handle h = call o fun r => (k r).handle h := rfl

end Prog

open Prog

/-- What an operation can do to the state: `done` when it completes with a reply,
`cut` when the program is killed inside it. -/
structure Semantics (Op : Type) (Reply : Op → Type) (σ : Type) where
  done : (o : Op) → σ → Reply o → σ → Prop
  cut : Op → σ → σ → Prop

/-- Deterministic operations, each of which a kill can interrupt as `cut` says. -/
def interruptible (h : (o : Op) → σ → Reply o × σ) (cut : Op → σ → σ → Prop) :
    Semantics Op Reply σ where
  done o s r s' := h o s = (r, s')
  cut := cut

/-- Deterministic operations, with kills only between two of them. -/
def ofHandler (h : (o : Op) → σ → Reply o × σ) : Semantics Op Reply σ :=
  interruptible h fun _ _ _ => False

/-- A run that ends by itself, with a value or an error. -/
inductive Exec (M : Semantics Op Reply σ) : Prog Op Reply ε α → σ → Except ε α → σ → Prop
  | ret (a s) : Exec M (.ret a) s (.ok a) s
  | fail (e s) : Exec M (.fail e) s (.error e) s
  | call {o k s r s' out t} (step : M.done o s r s') (rest : Exec M (k r) s' out t) :
      Exec M (.call o k) s out t

/-- The states that a kill at some point of the run can leave. -/
inductive Killed (M : Semantics Op Reply σ) : Prog Op Reply ε α → σ → σ → Prop
  | here (p s) : Killed M p s s
  | inside {o k s s'} (cut : M.cut o s s') : Killed M (.call o k) s s'
  | later {o k s r s' t} (step : M.done o s r s') (rest : Killed M (k r) s' t) :
      Killed M (.call o k) s t

/-- Every step of the program satisfies `G`, and the program can only end as `Q` says. -/
def wp (M : Semantics Op Reply σ) (G : Op → σ → σ → Prop) :
    Prog Op Reply ε α → (Except ε α → σ → Prop) → σ → Prop
  | .ret a, Q, s => Q (.ok a) s
  | .fail e, Q, s => Q (.error e) s
  | .call o k, Q, s => (∀ s', M.cut o s s' → G o s s') ∧
      ∀ r s', M.done o s r s' → G o s s' ∧ wp M G (k r) Q s'

variable {M : Semantics Op Reply σ} {G G' : Op → σ → σ → Prop}

@[simp] theorem wp_ret (a : α) (Q : Except ε α → σ → Prop) (s : σ) :
    wp M G (.ret a) Q s = Q (.ok a) s := rfl

@[simp] theorem wp_fail (e : ε) (Q : Except ε α → σ → Prop) (s : σ) :
    wp M G (.fail e) Q s = Q (.error e) s := rfl

theorem wp_call (o : Op) (k : Reply o → Prog Op Reply ε α) (Q : Except ε α → σ → Prop) (s : σ) :
    wp M G (.call o k) Q s = ((∀ s', M.cut o s s' → G o s s') ∧
      ∀ r s', M.done o s r s' → G o s s' ∧ wp M G (k r) Q s') := rfl

/-- What must hold after the first of two programs for the second to end as `Q` says. -/
def andThen (M : Semantics Op Reply σ) (G : Op → σ → σ → Prop) (f : α → Prog Op Reply ε β)
    (Q : Except ε β → σ → Prop) : Except ε α → σ → Prop
  | .ok a, s => wp M G (f a) Q s
  | .error e, s => Q (.error e) s

/-- What must hold after a program whose error is handled by `h`. -/
def orElse (M : Semantics Op Reply σ) (G : Op → σ → σ → Prop) (h : ε → Prog Op Reply ε α)
    (Q : Except ε α → σ → Prop) : Except ε α → σ → Prop
  | .ok a, s => Q (.ok a) s
  | .error e, s => wp M G (h e) Q s

theorem wp_mono {p : Prog Op Reply ε α} {Q Q' : Except ε α → σ → Prop} {s : σ}
    (h : wp M G p Q s) (hg : ∀ o s s', G o s s' → G' o s s')
    (hq : ∀ out s, Q out s → Q' out s) : wp M G' p Q' s := by
  induction p generalizing s with
  | ret a => exact hq _ _ h
  | fail e => exact hq _ _ h
  | call o k ih =>
    refine ⟨fun s' hc => hg _ _ _ (h.1 s' hc), fun r s' hd => ?_⟩
    obtain ⟨hstep, hrest⟩ := h.2 r s' hd
    exact ⟨hg _ _ _ hstep, ih r hrest⟩

theorem wp_bind {p : Prog Op Reply ε α} {f : α → Prog Op Reply ε β}
    {Q : Except ε β → σ → Prop} {s : σ} :
    wp M G (p.bind f) Q s ↔ wp M G p (andThen M G f Q) s := by
  induction p generalizing s with
  | ret a => rfl
  | fail e => rfl
  | call o k ih => simp only [bind_call, wp_call, ih]

theorem wp_handle {p : Prog Op Reply ε α} {h : ε → Prog Op Reply ε α}
    {Q : Except ε α → σ → Prop} {s : σ} :
    wp M G (p.handle h) Q s ↔ wp M G p (orElse M G h Q) s := by
  induction p generalizing s with
  | ret a => rfl
  | fail e => rfl
  | call o k ih => simp only [handle_call, wp_call, ih]

/-- The last operation of a program, with the end that follows it written out. -/
theorem wp_tail {p : Prog Op Reply ε α} {Q : Except ε α → σ → Prop} {s : σ}
    (h : wp M G (p.bind .ret) Q s) : wp M G p Q s := by
  rwa [bind_ret_right] at h

/-- Sequencing with a named midpoint: a failure of the first program is the result. -/
theorem wp_seq {p : Prog Op Reply ε α} {f : α → Prog Op Reply ε β} {P : α → σ → Prop}
    {Q : Except ε β → σ → Prop} {s : σ}
    (first : wp M G p (fun out t => match out with
      | .ok a => P a t
      | .error e => Q (.error e) t) s)
    (second : ∀ a t, P a t → wp M G (f a) Q t) : wp M G (p.bind f) Q s := by
  refine wp_bind.mpr (wp_mono first (fun _ _ _ h => h) ?_)
  rintro (e | a) t ht
  · exact ht
  · exact second a t ht

/-- A check in front of a program: its refusal is the result, or the program goes on. -/
theorem wp_check {b : Bool} {e : ε} {p : Prog Op Reply ε α} {Q : Except ε α → σ → Prop} {s : σ}
    (refused : b = false → Q (.error e) s) (passed : b = true → wp M G p Q s) :
    wp M G (if b = true then p else .fail e) Q s := by
  cases b with
  | false => exact refused rfl
  | true => exact passed rfl

/-- Nothing has to be shown of a program whose every end is allowed. -/

theorem wp_require {b : Bool} {e : ε} {f : Unit → Prog Op Reply ε α} {Q : Except ε α → σ → Prop} {s : σ}
    (refused : b = false → Q (.error e) s) (passed : b = true → wp M G (f ()) Q s) :
    wp M G ((require b e).bind f) Q s := by
  rw [bind_require]
  exact wp_check refused passed

theorem wp_any {p : Prog Op Reply ε α} {Q : Except ε α → σ → Prop} {s : σ} (h : ∀ out t, Q out t) :
    wp M (fun _ _ _ => True) p Q s := by
  induction p generalizing s with
  | ret a => exact h _ _
  | fail e => exact h _ _
  | call o k ih => exact ⟨fun _ _ => trivial, fun r s' _ => ⟨trivial, ih r⟩⟩

theorem wp_exec {p : Prog Op Reply ε α} {Q : Except ε α → σ → Prop} {s t : σ}
    {out : Except ε α} (h : wp M G p Q s) (run : Exec M p s out t) : Q out t := by
  induction run with
  | ret a s => exact h
  | fail e s => exact h
  | call step _ ih => exact ih (h.2 _ _ step).2

/-- What holds at the end of every run of a program, whatever its steps are. -/
theorem wp_of_exec {p : Prog Op Reply ε α} {Q : Except ε α → σ → Prop} {s : σ}
    (h : ∀ out t, Exec M p s out t → Q out t) : wp M (fun _ _ _ => True) p Q s := by
  induction p generalizing s with
  | ret a => exact h _ _ (.ret a s)
  | fail e => exact h _ _ (.fail e s)
  | call o k ih =>
    exact ⟨fun _ _ => trivial, fun r s' step => ⟨trivial, ih r fun out t run => h out t (.call step run)⟩⟩

/-- A program that starts in `C` and only takes steps into `C` leaves `C` when killed. -/
theorem wp_killed {C : σ → Prop} {p : Prog Op Reply ε α} {Q : Except ε α → σ → Prop} {s t : σ}
    (h : wp M (fun _ _ s' => C s') p Q s) (hs : C s) (run : Killed M p s t) : C t := by
  induction run with
  | here p s => exact hs
  | inside cut => exact h.1 _ cut
  | later step _ ih => exact ih (h.2 _ _ step).2 (h.2 _ _ step).1

/-- The end of a run is one of the states a kill can leave. -/
theorem Exec.killed {p : Prog Op Reply ε α} {s t : σ} {out : Except ε α}
    (run : Exec M p s out t) : Killed M p s t := by
  induction run with
  | ret a s => exact .here _ s
  | fail e s => exact .here _ s
  | call step _ ih => exact .later step ih

theorem Exec.bind {p : Prog Op Reply ε α} {f : α → Prog Op Reply ε β} {s t u : σ} {a : α}
    {out : Except ε β} (first : Exec M p s (.ok a) t) (rest : Exec M (f a) t out u) :
    Exec M (p.bind f) s out u := by
  generalize ended : Except.ok a = result at first
  induction first with
  | ret b s =>
    cases ended
    exact rest
  | fail e s => cases ended
  | call step _ ih => exact .call step (ih rest ended)

theorem Exec.bind_error {p : Prog Op Reply ε α} {f : α → Prog Op Reply ε β} {s t : σ} {e : ε}
    (first : Exec M p s (.error e) t) : Exec M (p.bind f) s (.error e) t := by
  generalize ended : Except.error e = result at first
  induction first with
  | ret b s => cases ended
  | fail e' s =>
    cases ended
    exact .fail e s
  | call step _ ih => exact .call step (ih ended)

theorem Exec.handle_ok {p : Prog Op Reply ε α} {h : ε → Prog Op Reply ε α} {s t : σ} {a : α}
    (first : Exec M p s (.ok a) t) : Exec M (p.handle h) s (.ok a) t := by
  generalize ended : Except.ok a = result at first
  induction first with
  | ret b s =>
    cases ended
    exact .ret a s
  | fail e s => cases ended
  | call step _ ih => exact .call step (ih ended)

theorem Exec.handle_error {p : Prog Op Reply ε α} {h : ε → Prog Op Reply ε α} {s t u : σ} {e : ε}
    {out : Except ε α} (first : Exec M p s (.error e) t) (rest : Exec M (h e) t out u) :
    Exec M (p.handle h) s out u := by
  generalize ended : Except.error e = result at first
  induction first with
  | ret b s => cases ended
  | fail e' s =>
    cases ended
    exact rest
  | call step _ ih => exact .call step (ih rest ended)

/-- A program that takes every state of `I` through states of `I` only. -/
def Keeps (M : Semantics Op Reply σ) (I : σ → Prop) (p : Prog Op Reply ε α) : Prop :=
  ∀ s, I s → wp M (fun _ _ s' => I s') p (fun _ s' => I s') s

theorem Keeps.killed {I : σ → Prop} {p : Prog Op Reply ε α} {s t : σ} (h : Keeps M I p)
    (hs : I s) (run : Killed M p s t) : I t := wp_killed (h s hs) hs run

/-- Any number of runs of programs of `P`, each ended by itself or by a kill. -/
inductive Runs (M : Semantics Op Reply σ) (P : Prog Op Reply ε α → Prop) : σ → σ → Prop
  | refl (s) : Runs M P s s
  | step {s t u p} (prior : Runs M P s t) (member : P p) (run : Killed M p t u) : Runs M P s u

theorem Runs.invariant {P : Prog Op Reply ε α → Prop} {I : σ → Prop} {s t : σ}
    (keeps : ∀ p, P p → Keeps M I p) (hs : I s) (runs : Runs M P s t) : I t := by
  induction runs with
  | refl => exact hs
  | step _ member run ih => exact (keeps _ member).killed ih run

/-- A program whose steps keep `I` ends in `I`, and each step starts and ends there. -/
theorem wp_invariant {I : σ → Prop} {p : Prog Op Reply ε α} {Q : Except ε α → σ → Prop} {s : σ}
    (keeps : ∀ o s s', I s → G o s s' → I s') (hs : I s) (h : wp M G p Q s) :
    wp M (fun _ _ s' => I s') p (fun out t => Q out t ∧ I t) s := by
  induction p generalizing s with
  | ret a => exact ⟨h, hs⟩
  | fail e => exact ⟨h, hs⟩
  | call o k ih =>
    refine ⟨fun s' hc => keeps o s s' hs (h.1 s' hc), fun r s' hd => ?_⟩
    obtain ⟨hstep, hrest⟩ := h.2 r s' hd
    exact ⟨keeps o s s' hs hstep, ih r (keeps o s s' hs hstep) hrest⟩

/-- A kill leaves a state of `I` when each step from a state that the run can be killed in keeps
`I`. -/
theorem wp_killed_seen {I Seen : σ → Prop} {p : Prog Op Reply ε α} {Q : Except ε α → σ → Prop}
    {s t : σ} (h : wp M G p Q s) (hs : I s) (seen : ∀ u, Killed M p s u → Seen u)
    (keeps : ∀ o u v, Seen u → I u → G o u v → I v) (run : Killed M p s t) : I t := by
  induction run with
  | here => exact hs
  | inside cut => exact keeps _ _ _ (seen _ (.here _ _)) hs (h.1 _ cut)
  | later step _ ih =>
    obtain ⟨hstep, hrest⟩ := h.2 _ _ step
    refine ih hrest (keeps _ _ _ (seen _ (.here _ _)) hs hstep) fun u killed => seen u ?_
    exact .later step killed

/-- One deterministic operation followed by the rest of a program. -/
theorem wp_interruptible {h : (o : Op) → σ → Reply o × σ} {cut : Op → σ → σ → Prop} {o : Op}
    {k : Reply o → Prog Op Reply ε α} {Q : Except ε α → σ → Prop} {s : σ} :
    wp (interruptible h cut) G (.call o k) Q s ↔ (∀ s', cut o s s' → G o s s') ∧
      G o s (h o s).2 ∧ wp (interruptible h cut) G (k (h o s).1) Q (h o s).2 := by
  refine and_congr Iff.rfl ⟨fun hd => hd _ _ rfl, ?_⟩
  rintro ⟨hstep, hrest⟩ r s' hd
  have answer : h o s = (r, s') := hd
  rw [answer] at hstep hrest
  exact ⟨hstep, hrest⟩

/-- Execution by a handler, with the final value or error. -/
def run (h : (o : Op) → σ → Reply o × σ) : Prog Op Reply ε α → σ → Except ε α × σ
  | .ret a, s => (.ok a, s)
  | .fail e, s => (.error e, s)
  | .call o k, s => run h (k (h o s).1) (h o s).2

/-- The state after the first `n` operations of a program. -/
def after (h : (o : Op) → σ → Reply o × σ) : ℕ → Prog Op Reply ε α → σ → σ
  | 0, _, s => s
  | _ + 1, .ret _, s => s
  | _ + 1, .fail _, s => s
  | n + 1, .call o k, s => after h n (k (h o s).1) (h o s).2

section Handler
variable {h : (o : Op) → σ → Reply o × σ}

/-- A handler stays within a semantics when each of its answers is allowed there. -/
def Within (h : (o : Op) → σ → Reply o × σ) (M : Semantics Op Reply σ) : Prop :=
  ∀ o s, M.done o s (h o s).1 (h o s).2

theorem within_ofHandler : Within h (ofHandler h) := fun _ _ => rfl

theorem Within.exec (hw : Within h M) (p : Prog Op Reply ε α) (s : σ) :
    Exec M p s (run h p s).1 (run h p s).2 := by
  induction p generalizing s with
  | ret a => exact .ret a s
  | fail e => exact .fail e s
  | call o k ih => exact .call (hw o s) (ih _ _)

theorem Within.killed (hw : Within h M) (n : ℕ) (p : Prog Op Reply ε α) (s : σ) :
    Killed M p s (after h n p s) := by
  induction n generalizing p s with
  | zero => exact .here p s
  | succ n ih =>
    cases p with
    | ret a => exact .here _ s
    | fail e => exact .here _ s
    | call o k => exact .later (hw o s) (ih _ _)

/-- Every step of the run with the handler `h` passes the check `allowed`. -/
def passing (h : (o : Op) → σ → Reply o × σ) (allowed : Op → σ → Bool) : Prog Op Reply ε α → σ → Bool
  | .ret _, _ => true
  | .fail _, _ => true
  | .call o k, s => allowed o s && passing h allowed (k (h o s).1) (h o s).2

section Passing
variable {allowed : Op → σ → Bool}

/-- A handler that leaves a semantics in some states is a run of it where it never comes to one. -/
theorem exec_passing (sound : ∀ o s, allowed o s = true → M.done o s (h o s).1 (h o s).2)
    {p : Prog Op Reply ε α} {s : σ} (passes : passing h allowed p s = true) :
    Exec M p s (run h p s).1 (run h p s).2 := by
  induction p generalizing s with
  | ret a => exact .ret a s
  | fail e => exact .fail e s
  | call o k ih =>
    obtain ⟨here, rest⟩ := Bool.and_eq_true_iff.mp passes
    exact .call (sound o s here) (ih _ rest)

theorem killed_passing (sound : ∀ o s, allowed o s = true → M.done o s (h o s).1 (h o s).2)
    {p : Prog Op Reply ε α} {s : σ} (passes : passing h allowed p s = true) (n : ℕ) :
    Killed M p s (after h n p s) := by
  induction n generalizing p s with
  | zero => exact .here p s
  | succ n ih =>
    cases p with
    | ret a => exact .here _ s
    | fail e => exact .here _ s
    | call o k =>
      obtain ⟨here, rest⟩ := Bool.and_eq_true_iff.mp passes
      exact .later (sound o s here) (ih rest)

end Passing

theorem exec_iff_run {p : Prog Op Reply ε α} {s t : σ} {out : Except ε α} :
    Exec (ofHandler h) p s out t ↔ run h p s = (out, t) := by
  constructor
  · intro hr
    induction hr with
    | ret a s => rfl
    | fail e s => rfl
    | @call o k s r s' out t step rest ih =>
      simp only [ofHandler, interruptible] at step
      simp only [run, step, ih]
  · intro hr
    have := within_ofHandler (h := h).exec p s
    rwa [hr] at this

end Handler

end PlatformConfig.CrashProgram
