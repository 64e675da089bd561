import PlatformConfig.RecordText

/-!
# Lines of bytes

`bytes.splitlines` ends a line at a line feed, at a carriage return, or at both together; other readers
end it at a line feed only. A line in the second sense is split into lines in the first sense, the
first of which is its front up to a carriage return.
-/
namespace PlatformConfig.ByteLines

open RecordText

/-- A byte in front of the first line. -/
def consFirst (b : UInt8) : List Bytes → List Bytes
  | [] => [[b]]
  | l :: ls => (b :: l) :: ls

/-- `bytes.splitlines(keepends=True)`; a line feed behind a carriage return belongs to its line. -/
def splitKeep : Bytes → List Bytes
  | [] => []
  | b :: d =>
    if b = 10 ∨ (b = 13 ∧ d.head? ≠ some 10) then [b] :: splitKeep d else consFirst b (splitKeep d)

/-- The lines that end at line feeds only, with their ends. -/
def pieces : Bytes → List Bytes
  | [] => []
  | b :: d => if b = 10 then [b] :: pieces d else consFirst b (pieces d)

def isEnd (b : UInt8) : Bool := b = 10 || b = 13

/-- A line without its end. -/
def content (l : Bytes) : Bytes := l.takeWhile fun b => !isEnd b

/-- `bytes.splitlines()` -/
def splitLines (d : Bytes) : List Bytes := (splitKeep d).map content

@[simp] lemma consFirst_flatten (b : UInt8) (ls : List Bytes) : (consFirst b ls).flatten = b :: ls.flatten := by
  cases ls <;> simp [consFirst]

lemma consFirst_append (b : UInt8) {ls : List Bytes} (some_ : ls ≠ []) (ls' : List Bytes) :
    consFirst b (ls ++ ls') = consFirst b ls ++ ls' := by
  cases ls with
  | nil => exact absurd rfl some_
  | cons l ls => rfl

lemma consFirst_ne_nil (b : UInt8) (ls : List Bytes) : consFirst b ls ≠ [] := by
  cases ls <;> simp [consFirst]

lemma splitKeep_ne_nil {d : Bytes} (some_ : d ≠ []) : splitKeep d ≠ [] := by
  cases d with
  | nil => exact absurd rfl some_
  | cons b d =>
    rw [splitKeep]
    split_ifs
    · simp
    · exact consFirst_ne_nil _ _

@[simp] lemma pieces_flatten (d : Bytes) : (pieces d).flatten = d := by
  induction d with
  | nil => rfl
  | cons b d ih =>
    rw [pieces]
    split_ifs <;> simp [ih]

/-- No line reaches over a line feed. -/
lemma splitKeep_append (p r : Bytes) : splitKeep (p ++ 10 :: r) = splitKeep (p ++ [10]) ++ splitKeep r := by
  induction p with
  | nil => simp [splitKeep]
  | cons b p ih =>
    have same : (p ++ 10 :: r).head? = (p ++ [10]).head? := by cases p <;> rfl
    simp only [List.cons_append, splitKeep, same, ih]
    split_ifs
    · rfl
    · exact consFirst_append b (splitKeep_ne_nil (by simp)) _

lemma pieces_last {d : Bytes} (open_ : 10 ∉ d) : pieces d = if d = [] then [] else [d] := by
  induction d with
  | nil => rfl
  | cons b d ih =>
    simp only [List.mem_cons, not_or] at open_
    rw [pieces, if_neg (Ne.symm open_.1), ih open_.2, if_neg (List.cons_ne_nil b d)]
    split_ifs with empty
    · rw [empty]
      rfl
    · rfl

lemma pieces_line {p : Bytes} (open_ : 10 ∉ p) (r : Bytes) : pieces (p ++ 10 :: r) = (p ++ [10]) :: pieces r := by
  induction p with
  | nil => simp [pieces]
  | cons b p ih =>
    simp only [List.mem_cons, not_or] at open_
    rw [List.cons_append, pieces, if_neg (Ne.symm open_.1), ih open_.2]
    rfl

/-- Induction over the lines of a text. -/
theorem lines_induction {P : Bytes → Prop} (last : ∀ d, 10 ∉ d → P d)
    (line : ∀ p r, 10 ∉ p → P r → P (p ++ 10 :: r)) (d : Bytes) : P d := by
  induction size : d.length using Nat.strong_induction_on generalizing d with
  | _ n ih =>
    by_cases ends : 10 ∈ d
    · obtain ⟨p, r, rfl, open_⟩ := List.eq_append_cons_of_mem ends
      refine line p r open_ (ih r.length ?_ r rfl)
      simp only [List.length_append, List.length_cons] at size
      omega
    · exact last d ends

/-- Each line in one sense is split on its own in the other sense. -/
theorem splitKeep_pieces (d : Bytes) : splitKeep d = (pieces d).flatMap splitKeep := by
  induction d using lines_induction with
  | last d open_ =>
    rw [pieces_last open_]
    split_ifs with empty
    · rw [empty]
      rfl
    · simp
  | line p r open_ ih => rw [pieces_line open_, List.flatMap_cons, ← ih, splitKeep_append]

/-- A line that ends with a line feed. -/
def Terminated (l : Bytes) : Prop := ∃ p, l = p ++ [10]

lemma splitKeep_terminated {ls : List Bytes} (ended : ∀ l ∈ ls, Terminated l) (r : Bytes) :
    splitKeep (ls.flatten ++ r) = ls.flatMap splitKeep ++ splitKeep r := by
  induction ls with
  | nil => rfl
  | cons l ls ih =>
    obtain ⟨p, rfl⟩ := ended l List.mem_cons_self
    have rest := ih fun l mem => ended l (List.mem_cons_of_mem _ mem)
    simp only [List.flatten_cons, List.append_assoc, List.cons_append, List.nil_append, List.flatMap_cons]
    rw [splitKeep_append p (ls.flatten ++ r), rest]

/-- Only the last line can be without a line feed. -/
lemma pieces_terminated {d l : Bytes} {pre post : List Bytes} (lines : pieces d = pre ++ l :: post) :
    ∀ k ∈ pre, Terminated k := by
  induction d using lines_induction generalizing pre with
  | last d open_ =>
    rw [pieces_last open_] at lines
    by_cases empty : d = []
    · rw [if_pos empty] at lines
      cases pre <;> cases lines
    · rw [if_neg empty] at lines
      obtain rfl : pre = [] := by
        cases pre with
        | nil => rfl
        | cons k pre => simp at lines
      simp
  | line p r open_ ih =>
    rw [pieces_line open_] at lines
    cases pre with
    | nil => simp
    | cons k pre =>
      obtain ⟨rfl, rest⟩ := List.cons.inj lines
      exact List.forall_mem_cons.mpr ⟨⟨p, rfl⟩, ih rest⟩

/-- The lines from one on are the lines of the rest. -/
lemma pieces_suffix {d : Bytes} {pre post : List Bytes} (lines : pieces d = pre ++ post) :
    pieces post.flatten = post := by
  induction d using lines_induction generalizing pre with
  | last d open_ =>
    have whole := pieces_last open_
    by_cases empty : d = []
    · rw [if_pos empty, lines] at whole
      rw [(List.append_eq_nil_iff.mp whole).2]
      rfl
    · rw [if_neg empty] at whole
      cases pre with
      | nil =>
        rw [List.nil_append] at lines
        rw [← lines, pieces_flatten]
      | cons k pre =>
        rw [lines, List.cons_append] at whole
        rw [(List.append_eq_nil_iff.mp (List.cons.inj whole).2).2]
        rfl
  | line p r open_ ih =>
    cases pre with
    | nil =>
      rw [List.nil_append] at lines
      rw [← lines, pieces_flatten]
    | cons k pre =>
      rw [pieces_line open_] at lines
      exact ih (List.cons.inj lines).2

/-- The white space of `bytes.split` and of `isspace` in the C locale. -/
def isSpace (b : UInt8) : Bool := b = 32 || (9 ≤ b && b ≤ 13)

/-- `bytes.split()` -/
def fields (d : Bytes) : List Bytes := (d.splitOnP isSpace).filter (· ≠ [])

end PlatformConfig.ByteLines
