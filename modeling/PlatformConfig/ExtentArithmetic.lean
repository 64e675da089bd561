import Mathlib

/-!
# Whole extents in machine arithmetic

Shell arithmetic computes on 64-bit two's-complement integers and wraps without an error, `awk`
prints a number it has read as a double, and a volume manager hands out whole extents. Expressions
none of whose steps wraps have their value over the integers, and requests are granted in every
order if and only if their sum is free.
-/
namespace PlatformConfig.ExtentArithmetic

/-! ## Shell expressions -/

def InRange (n : ℤ) : Prop := -2 ^ 63 ≤ n ∧ n < 2 ^ 63

instance (n : ℤ) : Decidable (InRange n) := by unfold InRange; infer_instance

/-- The 64-bit two's-complement integer with the residue of `n`. -/
def wrap (n : ℤ) : ℤ := n.bmod (2 ^ 64)

theorem wrap_of_inRange {n : ℤ} (h : InRange n) : wrap n = n := by
  obtain ⟨low, high⟩ := h
  simp only [wrap, Int.bmod]
  omega

theorem inRange_of_wrap {n : ℤ} (h : wrap n = n) : InRange n := by
  simp only [wrap, Int.bmod] at h
  simp only [InRange]
  omega

inductive Expr
  | num (n : ℤ)
  | add (a b : Expr)
  | sub (a b : Expr)
  | mul (a b : Expr)
  | div (a b : Expr)
  deriving DecidableEq, Repr

namespace Expr

/-- What the shell computes. -/
def value : Expr → ℤ
  | num n => wrap n
  | add a b => wrap (a.value + b.value)
  | sub a b => wrap (a.value - b.value)
  | mul a b => wrap (a.value * b.value)
  | div a b => wrap (a.value.tdiv b.value)

/-- The value over the integers. -/
def exact : Expr → ℤ
  | num n => n
  | add a b => a.exact + b.exact
  | sub a b => a.exact - b.exact
  | mul a b => a.exact * b.exact
  | div a b => a.exact.tdiv b.exact

/-- No operand and no intermediate result leaves the 64 bits. -/
def Unwrapped : Expr → Prop
  | num n => InRange n
  | add a b => a.Unwrapped ∧ b.Unwrapped ∧ InRange (a.exact + b.exact)
  | sub a b => a.Unwrapped ∧ b.Unwrapped ∧ InRange (a.exact - b.exact)
  | mul a b => a.Unwrapped ∧ b.Unwrapped ∧ InRange (a.exact * b.exact)
  | div a b => a.Unwrapped ∧ b.Unwrapped ∧ InRange (a.exact.tdiv b.exact)

theorem value_exact {e : Expr} (h : e.Unwrapped) : e.value = e.exact := by
  induction e with
  | num n => exact wrap_of_inRange h
  | add a b left right => rw [value, exact, left h.1, right h.2.1, wrap_of_inRange h.2.2]
  | sub a b left right => rw [value, exact, left h.1, right h.2.1, wrap_of_inRange h.2.2]
  | mul a b left right => rw [value, exact, left h.1, right h.2.1, wrap_of_inRange h.2.2]
  | div a b left right => rw [value, exact, left h.1, right h.2.1, wrap_of_inRange h.2.2]

end Expr

/-! ## Printed doubles -/

/-- `printf "%.0f"` of a natural number: the nearest multiple of the last place of its 53 bits, the
even one of two. -/
def printed (n : ℕ) : ℕ :=
  let place := 2 ^ (n.log2 + 1 - 53)
  if 2 * (n % place) < place ∨ (2 * (n % place) = place ∧ n / place % 2 = 0) then n / place * place
  else (n / place + 1) * place

/-- Whole sectors below `2 ^ 62` bytes are printed exactly. -/
theorem printed_sectors {n : ℕ} (whole : 512 ∣ n) (bounded : n < 2 ^ 62) : printed n = n := by
  have log : n.log2 + 1 - 53 ≤ 9 := by
    rcases Nat.eq_zero_or_pos n with rfl | positive
    · simp
    · have := (Nat.log2_lt positive.ne').mpr bounded
      omega
  have place : 2 ^ (n.log2 + 1 - 53) ∣ n :=
    ((Nat.pow_dvd_pow 2 log).trans (by norm_num)).trans whole
  have remainder := Nat.mod_eq_zero_of_dvd place
  have positive : 0 < 2 ^ (n.log2 + 1 - 53) := by positivity
  simp only [printed, remainder, mul_zero, positive, true_or, if_true]
  exact Nat.div_mul_cancel place

/-! ## Extents -/

/-- The fewest whole extents that hold `n` bytes. -/
def roundUp (n extent : ℕ) : ℕ := (n + extent - 1) / extent * extent

theorem dvd_roundUp (n extent : ℕ) : extent ∣ roundUp n extent := Dvd.intro_left _ rfl

theorem le_roundUp (n : ℕ) {extent : ℕ} (positive : 0 < extent) : n ≤ roundUp n extent := by
  have := Nat.div_add_mod (n + extent - 1) extent
  have := Nat.mod_lt (n + extent - 1) positive
  rw [mul_comm] at *
  simp only [roundUp]
  omega

theorem roundUp_lt (n : ℕ) {extent : ℕ} (positive : 0 < extent) : roundUp n extent < n + extent := by
  have := Nat.div_mul_le_self (n + extent - 1) extent
  simp only [roundUp]
  omega

theorem roundUp_mono {m n : ℕ} (h : m ≤ n) (extent : ℕ) : roundUp m extent ≤ roundUp n extent :=
  Nat.mul_le_mul_right _ (Nat.div_le_div_right (by omega))

/-! ## Requests against free space -/

/-- Requests are granted one after the other while they fit. -/
def allocate : ℕ → List ℕ → Option ℕ
  | free, [] => some free
  | free, n :: requests => if n ≤ free then allocate (free - n) requests else none

/-- All requests are granted if and only if the sum is free, and the rest is left. -/
theorem allocate_eq_some {requests : List ℕ} {free left : ℕ} :
    allocate free requests = some left ↔ requests.sum + left = free := by
  induction requests generalizing free with
  | nil => simp [allocate, eq_comm]
  | cons n requests ih =>
    by_cases fits : n ≤ free
    · rw [allocate, if_pos fits, ih, List.sum_cons]
      omega
    · rw [allocate, if_neg fits, List.sum_cons]
      constructor
      · intro h
        cases h
      · omega

/-- The order of the requests does not matter. -/
theorem allocate_perm {requests requests' : List ℕ} (h : requests.Perm requests') (free : ℕ) :
    allocate free requests = allocate free requests' := by
  ext left
  simp only [allocate_eq_some, h.sum_eq]

/-- `reserve` bytes are left behind the requests, however they are ordered. -/
def Room (free reserve : ℕ) (requests : List ℕ) : Prop :=
  ∀ order, order.Perm requests → ∃ left, allocate free order = some left ∧ reserve ≤ left

theorem room_iff {free reserve : ℕ} {requests : List ℕ} :
    Room free reserve requests ↔ requests.sum + reserve ≤ free := by
  constructor
  · intro h
    obtain ⟨left, granted, enough⟩ := h requests (List.Perm.refl _)
    rw [allocate_eq_some] at granted
    omega
  · intro h order perm
    refine ⟨free - requests.sum, ?_, by omega⟩
    rw [allocate_eq_some, perm.sum_eq]
    omega

end PlatformConfig.ExtentArithmetic
