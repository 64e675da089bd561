import Mathlib

/-!
# Splitting a command line into words

The words of a line as a shell reads it: blanks separate words, single and double quotes enclose them,
and a backslash takes the next character as it is. A word of a line without quotes and backslashes
stands in the line as it is.
-/
namespace PlatformConfig.ShellWords

abbrev Text := List Char

def isBlank (c : Char) : Bool := c = ' ' || c = '\t' || c = '\r' || c = '\n'

def isQuote (c : Char) : Bool := c = '"' || c.toNat = 39

def isEscape (c : Char) : Bool := c = '\\'

/-- Between two words, in a word, behind an open quote, or behind a backslash in one of these. -/
inductive State
  | gap
  | word (token : Text) (quoted : Bool)
  | quote (q : Char) (token : Text)
  | escape (within : Option Char) (token : Text) (quoted : Bool)

/-- An empty word counts when it is quoted. -/
def emit (token : Text) (quoted : Bool) : List Text := if token = [] ∧ quoted = false then [] else [token]

/-- The words of the rest of a line, unless a quote stays open or a backslash ends it. -/
def scan : State → Text → Option (List Text)
  | .gap, [] => some []
  | .gap, c :: t =>
    if isBlank c then scan .gap t
    else if isEscape c then scan (.escape none [] false) t
    else if isQuote c then scan (.quote c []) t
    else scan (.word [c] false) t
  | .word token quoted, [] => some (emit token quoted)
  | .word token quoted, c :: t =>
    if isBlank c then (scan .gap t).map (emit token quoted ++ ·)
    else if isQuote c then scan (.quote c token) t
    else if isEscape c then scan (.escape none token quoted) t
    else scan (.word (token ++ [c]) quoted) t
  | .quote _ _, [] => none
  | .quote q token, c :: t =>
    if c = q then scan (.word token true) t
    else if isEscape c ∧ q = '"' then scan (.escape (some q) token true) t
    else scan (.quote q (token ++ [c])) t
  | .escape _ _ _, [] => none
  | .escape none token quoted, c :: t => scan (.word (token ++ [c]) quoted) t
  | .escape (some q) token _, c :: t =>
    -- Within quotes only the quote and the backslash lose their backslash.
    if isEscape c ∨ c = q then scan (.quote q (token ++ [c])) t
    else scan (.quote q (token ++ ['\\', c])) t

/-- The words of a line. -/
def split (t : Text) : Option (List Text) := scan .gap t

/-- Neither a quote nor a backslash. -/
def Unquoted (t : Text) : Prop := ∀ c ∈ t, isQuote c = false ∧ isEscape c = false

/-- A text stands in a line as it is, with a blank or the end of the line behind it. -/
def Stands (w line : Text) : Prop := ∃ pre post, line = pre ++ w ++ post ∧ ∀ c ∈ post.head?, isBlank c = true

/-- A text of which a line loses nothing. -/
def Bare (w : Text) : Prop := ∀ c ∈ w, isBlank c = false ∧ isQuote c = false ∧ isEscape c = false

lemma Stands.suffix {w u line : Text} (h : Stands w line) (end_ : u <:+ w) : Stands u line := by
  obtain ⟨pre, post, same, blank⟩ := h
  obtain ⟨front, rfl⟩ := end_
  exact ⟨pre ++ front, post, by simp [same], blank⟩

lemma Bare.suffix {w u : Text} (h : Bare w) (end_ : u <:+ w) : Bare u := fun c inside => h c (end_.subset inside)

lemma Stands.append {w line : Text} (h : Stands w line) (front : Text) : Stands w (front ++ line) := by
  obtain ⟨pre, post, same, blank⟩ := h
  exact ⟨front ++ pre, post, by simp [same], blank⟩

lemma Unquoted.cons {c : Char} {t : Text} (h : Unquoted (c :: t)) :
    (isQuote c = false ∧ isEscape c = false) ∧ Unquoted t :=
  List.forall_mem_cons.mp h

/-- A line without quotes and backslashes has words, and each of them stands in it. -/
lemma scan_unquoted {t : Text} (plain : Unquoted t) :
    (∃ ws, scan .gap t = some ws ∧ ∀ w ∈ ws, Bare w ∧ Stands w t) ∧
    ∀ token, Bare token → ∃ ws, scan (.word token false) t = some ws ∧
      ∀ w ∈ ws, Bare w ∧ Stands w (token ++ t) := by
  induction t with
  | nil =>
    refine ⟨⟨[], rfl, by simp⟩, fun token bare => ⟨emit token false, rfl, ?_⟩⟩
    intro w member
    have same : w = token := by
      unfold emit at member
      split at member <;> simp_all
    subst same
    exact ⟨bare, [], [], by simp, by simp⟩
  | cons c t ih =>
    obtain ⟨⟨quote, escape⟩, rest⟩ := plain.cons
    obtain ⟨⟨words, between, stand⟩, inside⟩ := ih rest
    constructor
    · by_cases blank : isBlank c = true
      · refine ⟨words, by simp [scan, blank, between], fun w member => ⟨(stand w member).1, ?_⟩⟩
        exact (stand w member).2.append [c]
      · have blank := eq_false_of_ne_true blank
        obtain ⟨ws, read, stand⟩ := inside [c] (by simp [Bare, blank, quote, escape])
        exact ⟨ws, by simp [scan, blank, quote, escape, read], stand⟩
    · intro token bare
      by_cases blank : isBlank c = true
      · refine ⟨emit token false ++ words, by simp [scan, blank, between], fun w member => ?_⟩
        rcases List.mem_append.mp member with first | later
        · have same : w = token := by
            unfold emit at first
            split at first <;> simp_all
          subst same
          exact ⟨bare, [], c :: t, by simp, by simp [blank]⟩
        · refine ⟨(stand w later).1, ?_⟩
          have behind := (stand w later).2.append (token ++ [c])
          simpa using behind
      · have blank := eq_false_of_ne_true blank
        have longer : Bare (token ++ [c]) := by
          intro d member
          rcases List.mem_append.mp member with old | new
          · exact bare d old
          · rw [List.mem_singleton.mp new]
            exact ⟨blank, quote, escape⟩
        obtain ⟨ws, read, stand⟩ := inside (token ++ [c]) longer
        refine ⟨ws, by simp [scan, blank, quote, escape, read], fun w member => ⟨(stand w member).1, ?_⟩⟩
        have whole := (stand w member).2
        simpa using whole

lemma split_unquoted {t : Text} (plain : Unquoted t) : ∃ ws, split t = some ws ∧ ∀ w ∈ ws, Bare w ∧ Stands w t :=
  (scan_unquoted plain).1

end PlatformConfig.ShellWords
