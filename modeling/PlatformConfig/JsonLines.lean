import PlatformConfig.JsonText

/-!
# JSON text on one line

The text of a value has no character but the visible ones of ASCII and the blank, so it survives
every encoding and no reader of lines splits it.
-/
namespace PlatformConfig.JsonText

open CanonicalJson RecordText

/-- A character from the blank to `~`. -/
def Visible (c : Char) : Prop := 32 ≤ c.toNat ∧ c.toNat ≤ 126

lemma Visible.ascii {c : Char} (h : Visible c) : c.toNat < 128 := Nat.lt_of_le_of_lt h.2 (by decide)

lemma Visible.unbroken {c : Char} (h : Visible c) : isBreak c = false := by
  cases broken : isBreak c with
  | false => rfl
  | true =>
    have low := h.1
    simp only [isBreak, Bool.or_eq_true, decide_eq_true_eq] at broken
    rcases broken with (((((rfl | rfl) | rfl) | rfl) | rfl) | rfl) | rfl <;> revert low <;> decide

lemma Visible.ne_newline {c : Char} (h : Visible c) : c ≠ '\n' := by
  intro newline
  have whole := h.unbroken
  rw [newline] at whole
  exact absurd whole (by decide)

lemma visible_digit {c : Char} (digit : c.isDigit = true) : Visible c := by
  simp only [Char.isDigit, Bool.and_eq_true, decide_eq_true_eq] at digit
  have low : (48 : ℕ) ≤ c.toNat := digit.1
  have high : c.toNat ≤ 57 := digit.2
  exact ⟨by omega, by omega⟩

lemma visible_number {c : Char} (number : isNumberChar c = true) : Visible c := by
  simp only [isNumberChar, Bool.or_eq_true, decide_eq_true_eq] at number
  rcases number with (((digit | rfl) | rfl) | rfl) | rfl
  · exact visible_digit digit
  all_goals exact ⟨by decide, by decide⟩

lemma visible_hexDigit (n : ℕ) : Visible (hexDigit n) := by
  have small : ∀ k < 16, 32 ≤ (Nat.digitChar k).toNat ∧ (Nat.digitChar k).toNat ≤ 126 := by decide
  exact small _ (Nat.mod_lt n (by decide))

lemma visible_escapeUnit (n : ℕ) : ∀ c ∈ escapeUnit n, Visible c := by
  have slash : Visible '\\' := ⟨by decide, by decide⟩
  have mark : Visible 'u' := ⟨by decide, by decide⟩
  simp [escapeUnit, visible_hexDigit, slash, mark]

lemma visible_escapeChar (c : Char) : ∀ d ∈ escapeChar c, Visible d := by
  have slash : Visible '\\' := ⟨by decide, by decide⟩
  have pair {d : Char} (letter : Visible d) : ∀ e ∈ ['\\', d], Visible e := by
    simp [slash, letter]
  unfold escapeChar
  split_ifs with quote backslash newline carriage tab backspace formfeed plain short
  · exact pair ⟨by decide, by decide⟩
  · exact pair slash
  · exact pair ⟨by decide, by decide⟩
  · exact pair ⟨by decide, by decide⟩
  · exact pair ⟨by decide, by decide⟩
  · exact pair ⟨by decide, by decide⟩
  · exact pair ⟨by decide, by decide⟩
  · simpa [Visible] using plain
  · exact visible_escapeUnit _
  · intro d mem
    rcases List.mem_append.mp mem with high | low
    · exact visible_escapeUnit _ d high
    · exact visible_escapeUnit _ d low

lemma visible_quote (s : String) : ∀ c ∈ quote s, Visible c := by
  have mark : Visible '"' := ⟨by decide, by decide⟩
  intro c mem
  simp only [quote, List.cons_append, List.mem_cons, List.mem_append, List.mem_flatMap,
    List.not_mem_nil, or_false] at mem
  rcases mem with rfl | ⟨d, -, escaped⟩ | rfl
  · exact mark
  · exact visible_escapeChar d c escaped
  · exact mark

section Dumps
variable {gap : List Char}

mutual

/-- The text of a value is visible wherever the gap behind its separators is. -/
theorem dumps_visible (blank : ∀ c ∈ gap, Visible c) : ∀ (j : Json), ∀ c ∈ dumps gap j, Visible c
  | .null => by simp [dumps, Visible]
  | .bool b => by cases b <;> simp [dumps, Visible]
  | .int n => by
    intro c mem
    rw [dumps] at mem
    exact visible_number (List.all_eq_true.mp (int_number n) c mem)
  | .float t => by
    intro c mem
    rw [dumps] at mem
    exact visible_number (List.all_eq_true.mp t.number c mem)
  | .str s => by
    intro c mem
    rw [dumps] at mem
    exact visible_quote s c mem
  | .arr [] => by simp [dumps, Visible]
  | .arr (x :: xs) => by
    intro c mem
    simp only [dumps, List.mem_cons, List.mem_append] at mem
    rcases mem with rfl | first | rest
    · exact ⟨by decide, by decide⟩
    · exact dumps_visible blank x c first
    · exact dumpElements_visible blank xs c rest
  | .obj [] => by simp [dumps, Visible]
  | .obj ((k, v) :: fs) => by
    intro c mem
    simp only [dumps, List.mem_cons, List.mem_append] at mem
    rcases mem with rfl | key | rfl | space | value | rest
    · exact ⟨by decide, by decide⟩
    · exact visible_quote k c key
    · exact ⟨by decide, by decide⟩
    · exact blank c space
    · exact dumps_visible blank v c value
    · exact dumpFields_visible blank fs c rest

theorem dumpElements_visible (blank : ∀ c ∈ gap, Visible c) :
    ∀ (xs : List Json), ∀ c ∈ dumpElements gap xs, Visible c
  | [] => by simp [dumpElements, Visible]
  | x :: xs => by
    intro c mem
    simp only [dumpElements, List.mem_cons, List.mem_append] at mem
    rcases mem with rfl | space | first | rest
    · exact ⟨by decide, by decide⟩
    · exact blank c space
    · exact dumps_visible blank x c first
    · exact dumpElements_visible blank xs c rest

theorem dumpFields_visible (blank : ∀ c ∈ gap, Visible c) :
    ∀ (fs : List (String × Json)), ∀ c ∈ dumpFields gap fs, Visible c
  | [] => by simp [dumpFields, Visible]
  | (k, v) :: fs => by
    intro c mem
    simp only [dumpFields, List.mem_cons, List.mem_append] at mem
    rcases mem with rfl | space | key | rfl | space | value | rest
    · exact ⟨by decide, by decide⟩
    · exact blank c space
    · exact visible_quote k c key
    · exact ⟨by decide, by decide⟩
    · exact blank c space
    · exact dumps_visible blank v c value
    · exact dumpFields_visible blank fs c rest

end

end Dumps

theorem canonical_visible (j : Json) : ∀ c ∈ canonical j, Visible c := by
  rw [← dumps_nil]
  exact dumps_visible (by simp) j

end PlatformConfig.JsonText
