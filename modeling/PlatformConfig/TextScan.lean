import Mathlib

/-!
# Scanners of quoted text

Scanners that take a front of a text: literals, words behind white space, and double-quoted strings
without escapes. What a scanner takes can be put back in front of any rest; and two places of a text
with the same number of quotes before them lie between the same two quotes.
-/
namespace PlatformConfig.TextScan

abbrev Text := List Char

/-- A scanner: the value of a front of the text, and the rest. -/
abbrev Scan (α : Type) := StateT Text Option α

/-- The white space of ASCII. -/
def isBlank (c : Char) : Bool := (9 ≤ c.toNat && c.toNat ≤ 13) || (28 ≤ c.toNat && c.toNat ≤ 32)

/-- A gap between two words. -/
def Gap (u : Text) : Prop := ∀ c ∈ u, isBlank c = true

/-- `\s*` -/
def blanks : Scan Unit := fun t => some ((), t.dropWhile isBlank)

def literal (s : Text) : Scan Unit := fun t => if s <+: t then some ((), t.drop s.length) else none

/-- `\s*` and a literal. -/
def word (s : Text) : Scan Unit := do
  blanks
  literal s

/-- A character of a quoted string without escapes. -/
def isQuoted (c : Char) : Bool := c != '"' && c != '\\' && 32 ≤ c.toNat

def Unescaped (s : Text) : Prop := ∀ c ∈ s, isQuoted c = true

/-- The content of a quoted string. -/
def quoted : Scan Text := do
  literal ['"']
  let s ← fun t => some (t.takeWhile isQuoted, t.dropWhile isQuoted)
  literal ['"']
  return s

/-- `\s*` and a quoted string. -/
def value : Scan Text := do
  blanks
  quoted

/-- `\s*name\s*=\s*` and a quoted string. -/
def setting (name : Text) : Scan Text := do
  word name
  word ['=']
  value

variable {α β : Type}

/-- One scan after the other, as often as it succeeds. -/
def repeated (p : Scan Unit) : ℕ → Text → Text
  | 0, t => t
  | n + 1, t =>
    match p.run t with
    | some (_, r) => repeated p n r
    | none => t

/-- `(?:…)*` of a scanner that takes something. -/
def many (p : Scan Unit) : Scan Unit := fun t => some ((), repeated p t.length t)

section Searching
variable (scan : Option Char → Scan α)

/-- The matches after the first characters, which a match before has taken. -/
def finditerFrom : ℕ → Option Char → Text → List α
  | _, _, [] => []
  | n + 1, _, c :: t => finditerFrom n (some c) t
  | 0, last, c :: t =>
    match (scan last).run (c :: t) with
    | some (a, r) => a :: finditerFrom (t.length - r.length) (some c) t
    | none => finditerFrom 0 (some c) t

/-- The matches that do not overlap, from left to right; a scanner is told the character before. -/
def finditer (t : Text) : List α := finditerFrom scan 0 none t

/-- The match at a place, after the character before the text. -/
def matchAt : ℕ → Option Char → Text → Option α
  | 0, last, t => ((scan last).run t).map Prod.fst
  | _ + 1, _, [] => none
  | i + 1, _, c :: t => matchAt i (some c) t

/-- No match begins inside another. -/
def Isolated : Prop := ∀ {last c t a r}, (scan last).run (c :: t) = some (a, r) →
  ∀ i < t.length - r.length, matchAt scan i (some c) t = none

end Searching

section Taking

/-- A scanner takes the text `u`, whatever follows. -/
def Takes (p : Scan α) (u : Text) (a : α) : Prop := ∀ r, p.run (u ++ r) = some (a, r)

lemma Takes.bind {p : Scan α} {f : α → Scan β} {u v : Text} {a : α} {b : β} (h : Takes p u a)
    (h' : Takes (f a) v b) : Takes (p >>= f) (u ++ v) b := by
  intro r
  rw [List.append_assoc, StateT.run_bind, h]
  exact h' r

lemma Takes.map {p : Scan α} {g : α → β} {u : Text} {a : α} (h : Takes p u a) :
    Takes (p >>= fun a => pure (g a)) u (g a) := by
  intro r
  rw [StateT.run_bind, h]
  rfl

lemma Takes.text {p : Scan α} {u v : Text} {a : α} (h : Takes p u a) (same : u = v) : Takes p v a := same ▸ h

lemma takes_literal (s : Text) : Takes (literal s) s () := by
  intro r
  change (if s <+: s ++ r then some ((), (s ++ r).drop s.length) else none) = _
  rw [if_pos (List.prefix_append s r), List.drop_left]

/-- A word at the end of the text `u`, behind a gap. -/
lemma takes_word {s u : Text} (text : u.dropWhile isBlank = s) (some_ : s ≠ []) : Takes (word s) u () := by
  intro r
  have stop : ∃ c ∈ u, ¬isBlank c = true := by
    by_contra blank
    push Not at blank
    exact some_ (by rw [← text, List.dropWhile_eq_nil_iff.mpr blank])
  change literal s ((u ++ r).dropWhile isBlank) = _
  rw [List.dropWhile_append, text, if_neg (by simpa using some_)]
  exact takes_literal s r

lemma takes_quoted {s : Text} (plain : Unescaped s) : Takes quoted ('"' :: (s ++ ['"'])) s := by
  intro r
  have stop : isQuoted '"' = false := by decide
  have text : '"' :: (s ++ ['"']) ++ r = ['"'] ++ (s ++ '"' :: r) := by simp
  have taken : (s ++ '"' :: r).takeWhile isQuoted = s := by
    rw [List.takeWhile_append_of_pos plain, List.takeWhile_cons_of_neg (by simp [stop]), List.append_nil]
  have left : (s ++ '"' :: r).dropWhile isQuoted = ['"'] ++ r := by
    rw [List.dropWhile_append_of_pos plain, List.dropWhile_cons_of_neg (by simp [stop])]
    rfl
  rw [text, quoted, StateT.run_bind, takes_literal]
  change (StateT.run (do literal ['"']; return (s ++ '"' :: r).takeWhile isQuoted)
    ((s ++ '"' :: r).dropWhile isQuoted)) = _
  rw [taken, left, StateT.run_bind, takes_literal]
  rfl

/-- A quoted string behind a gap. -/
lemma takes_value {gap s : Text} (blank : Gap gap) (plain : Unescaped s) :
    Takes value (gap ++ '"' :: (s ++ ['"'])) s := by
  have took : (gap ++ '"' :: (s ++ ['"'])).dropWhile isBlank = '"' :: (s ++ ['"']) := by
    rw [List.dropWhile_append_of_pos blank, List.dropWhile_cons_of_neg (by decide)]
  intro r
  change quoted.run ((gap ++ '"' :: (s ++ ['"']) ++ r).dropWhile isBlank) = _
  rw [List.dropWhile_append, took]
  exact takes_quoted plain r

/-- A setting with gaps before its name, its sign and its value. -/
lemma takes_setting {name s u u' gap : Text} (named : u.dropWhile isBlank = name) (some_ : name ≠ [])
    (sign : u'.dropWhile isBlank = ['=']) (blank : Gap gap) (plain : Unescaped s) :
    Takes (setting name) (u ++ (u' ++ (gap ++ '"' :: (s ++ ['"'])))) s :=
  (takes_word named some_).bind ((takes_word sign (by simp)).bind (takes_value blank plain))

/-- Texts that a scanner takes, up to one that it refuses. -/
lemma repeated_taken {p : Scan Unit} {us : List Text} {r : Text} (taken : ∀ u ∈ us, Takes p u ())
    (stop : p.run r = none) {n : ℕ} (enough : us.length ≤ n) : repeated p n (us.flatten ++ r) = r := by
  induction us generalizing n with
  | nil =>
    cases n with
    | zero => rfl
    | succ n =>
      change (match p.run r with | some (_, r) => repeated p n r | none => r) = r
      rw [stop]
  | cons u us ih =>
    obtain ⟨m, rfl⟩ : ∃ m, n = m + 1 := ⟨n - 1, by simp at enough; omega⟩
    have first := taken u List.mem_cons_self (us.flatten ++ r)
    rw [List.flatten_cons, List.append_assoc, repeated, first]
    exact ih (fun v mem => taken v (List.mem_cons_of_mem u mem)) (by simpa using enough)

lemma many_taken {p : Scan Unit} {us : List Text} {r : Text} (taken : ∀ u ∈ us, Takes p u ())
    (some_ : ∀ u ∈ us, u ≠ []) (stop : p.run r = none) : (many p).run (us.flatten ++ r) = some ((), r) := by
  have enough : us.length ≤ (us.flatten ++ r).length := by
    rw [List.length_append, List.length_flatten]
    have bound : (us.map fun _ => 1).sum ≤ (us.map List.length).sum :=
      List.sum_le_sum fun u mem => List.length_pos_iff.mpr (some_ u mem)
    simp only [List.map_const', List.sum_replicate, smul_eq_mul, mul_one] at bound
    omega
  change some ((), repeated p (us.flatten ++ r).length (us.flatten ++ r)) = _
  rw [repeated_taken taken stop enough]

end Taking

section Reading

/-- What a scanner takes has the shape `R`. -/
def Reads (p : Scan α) (R : Text → Prop) : Prop :=
  ∀ t a r, p.run t = some (a, r) → ∃ u, t = u ++ r ∧ R u

/-- A text of one shape, and then one of another. -/
def Then (R R' : Text → Prop) (w : Text) : Prop := ∃ u v, w = u ++ v ∧ R u ∧ R' v

variable {p : Scan α} {f : α → Scan β} {R R' S : Text → Prop}

lemma run_bind {t r : Text} {b : β} (h : (p >>= f).run t = some (b, r)) :
    ∃ a s, p.run t = some (a, s) ∧ (f a).run s = some (b, r) := by
  rw [StateT.run_bind] at h
  obtain ⟨⟨a, s⟩, first, rest⟩ := Option.bind_eq_some_iff.mp h
  exact ⟨a, s, first, rest⟩

lemma Reads.bind (h : Reads p R) (h' : ∀ a, Reads (f a) R') : Reads (p >>= f) (Then R R') := by
  intro t b r ran
  obtain ⟨a, s, first, rest⟩ := run_bind ran
  obtain ⟨u, rfl, shape⟩ := h t a s first
  obtain ⟨v, rfl, shape'⟩ := h' a _ b r rest
  exact ⟨u ++ v, (List.append_assoc u v r).symm, u, v, rfl, shape, shape'⟩

lemma Reads.imp (h : Reads p R) (weaker : ∀ u, R u → S u) : Reads p S := by
  intro t a r ran
  obtain ⟨u, text, shape⟩ := h t a r ran
  exact ⟨u, text, weaker u shape⟩

lemma Reads.map {g : α → β} (h : Reads p R) : Reads (p >>= fun a => pure (g a)) R := by
  intro t b r ran
  obtain ⟨a, s, first, rest⟩ := run_bind ran
  cases rest
  exact h t a r first

lemma reads_literal (s : Text) : Reads (literal s) (· = s) := by
  intro t _ r ran
  change (if s <+: t then some ((), t.drop s.length) else none) = _ at ran
  split at ran
  · next front =>
    cases ran
    exact ⟨s, (List.prefix_iff_eq_append.mp front).symm, rfl⟩
  · cases ran

lemma reads_blanks : Reads blanks Gap := by
  intro t _ r ran
  cases ran
  exact ⟨t.takeWhile isBlank, (List.takeWhile_append_dropWhile ..).symm, fun c mem => List.mem_takeWhile_imp mem⟩

lemma reads_word (s : Text) : Reads (word s) fun u => ∃ gap, Gap gap ∧ u = gap ++ s := by
  refine (reads_blanks.bind fun _ => reads_literal s).imp ?_
  intro u taken
  obtain ⟨gap, _, text, blank, rfl⟩ := taken
  exact ⟨gap, blank, text⟩

lemma reads_quoted : Reads quoted fun u => ∃ s, Unescaped s ∧ u = '"' :: (s ++ ['"']) := by
  have inner : Reads (fun t => some (t.takeWhile isQuoted, t.dropWhile isQuoted) : Scan Text) Unescaped := by
    intro t _ r ran
    cases ran
    exact ⟨_, (List.takeWhile_append_dropWhile ..).symm, fun c mem => List.mem_takeWhile_imp mem⟩
  refine ((reads_literal ['"']).bind fun _ => inner.bind fun s => (reads_literal ['"']).map).imp ?_
  intro u taken
  obtain ⟨_, _, text, rfl, s, _, text', plain, rfl⟩ := taken
  exact ⟨s, plain, by rw [text, text']; rfl⟩

lemma reads_value : Reads value fun u => ∃ gap s, Gap gap ∧ Unescaped s ∧ u = gap ++ '"' :: (s ++ ['"']) := by
  refine (reads_blanks.bind fun _ => reads_quoted).imp ?_
  intro u taken
  obtain ⟨gap, _, text, blank, s, plain, rfl⟩ := taken
  exact ⟨gap, s, blank, plain, text⟩

lemma repeated_reads {p : Scan Unit} (h : Reads p R) (n : ℕ) (t : Text) :
    ∃ us : List Text, t = us.flatten ++ repeated p n t ∧ ∀ u ∈ us, R u := by
  induction n generalizing t with
  | zero => exact ⟨[], rfl, by simp⟩
  | succ n ih =>
    cases ran : p.run t with
    | none => exact ⟨[], by simp [repeated, ran], by simp⟩
    | some x =>
      obtain ⟨u, text, shape⟩ := h t x.1 x.2 ran
      obtain ⟨us, rest, shapes⟩ := ih x.2
      refine ⟨u :: us, ?_, List.forall_mem_cons.mpr ⟨shape, shapes⟩⟩
      rw [repeated, ran]
      simp only [List.flatten_cons, List.append_assoc]
      rw [← rest]
      exact text

lemma reads_many {p : Scan Unit} (h : Reads p R) :
    Reads (many p) fun u => ∃ us : List Text, u = us.flatten ∧ ∀ v ∈ us, R v := by
  intro t _ r ran
  cases ran
  obtain ⟨us, text, shapes⟩ := repeated_reads h t.length t
  exact ⟨us.flatten, text, us, rfl, shapes⟩

section Counting

/-- The quotes of a text. -/
def quotes (t : Text) : ℕ := t.count '"'

@[simp] lemma quotes_append (t u : Text) : quotes (t ++ u) = quotes t + quotes u := List.count_append

lemma quotes_cons (t : Text) : quotes ('"' :: t) = quotes t + 1 := List.count_cons_self

lemma quotes_eq_zero {u : Text} : quotes u = 0 ↔ '"' ∉ u := List.count_eq_zero

lemma Gap.quotes {u : Text} (h : Gap u) : quotes u = 0 := by
  rw [quotes_eq_zero]
  intro mem
  have blank : isBlank '"' = true := h _ mem
  revert blank
  decide

lemma Unescaped.quotes {s : Text} (h : Unescaped s) : quotes s = 0 := by
  rw [quotes_eq_zero]
  intro mem
  have quoted : isQuoted '"' = true := h _ mem
  revert quoted
  decide

/-- A scanner takes a text with `n` quotes. -/
def Spans (p : Scan α) (n : ℕ) : Prop := Reads p fun u => quotes u = n

lemma Spans.bind {n m : ℕ} (h : Spans p n) (h' : ∀ a, Spans (f a) m) : Spans (p >>= f) (n + m) := by
  refine (Reads.bind h h').imp ?_
  intro w taken
  obtain ⟨u, v, text, count, count'⟩ := taken
  rw [text, quotes_append, count, count']

lemma spans_word (s : Text) : Spans (word s) (quotes s) := by
  refine (reads_word s).imp ?_
  intro u taken
  obtain ⟨gap, blank, text⟩ := taken
  rw [text, quotes_append, blank.quotes, Nat.zero_add]

lemma spans_quoted : Spans quoted 2 := by
  refine reads_quoted.imp ?_
  intro u taken
  obtain ⟨s, plain, text⟩ := taken
  rw [text, quotes_cons, quotes_append, plain.quotes]
  rfl

lemma spans_value : Spans value 2 := by
  have blank : Spans blanks 0 := reads_blanks.imp fun _ gap => gap.quotes
  exact blank.bind fun _ => spans_quoted

lemma spans_setting {name : Text} (bare : quotes name = 0) : Spans (setting name) 2 := by
  have spans := (spans_word name).bind fun _ => (spans_word ['=']).bind fun _ => spans_value
  rwa [bare] at spans

/-- Two ends of a text that begin with a quote and hold equally many are the same. -/
lemma front_unique {u v r r' : Text} (text : u ++ '"' :: r = v ++ '"' :: r') (count : quotes r = quotes r') :
    u = v := by
  have whole := congrArg quotes text
  simp only [quotes_append, quotes_cons] at whole
  rcases List.append_eq_append_iff.mp text with ⟨a, rfl, rest⟩ | ⟨a, rfl, rest⟩
  all_goals
    cases a with
    | nil => simp
    | cons c a =>
      obtain ⟨rfl, -⟩ := List.cons_eq_cons.mp rest
      simp only [quotes_append, quotes_cons] at whole
      omega

end Counting

end Reading

section Searching
variable {scan : Option Char → Scan α} {last : Option Char} {t : Text}

lemma matchAt_append {p : Text} : matchAt scan p.length last (p ++ t) =
    ((scan (p.getLast?.or last)).run t).map Prod.fst := by
  induction p generalizing last with
  | nil => rfl
  | cons c p ih =>
    rw [List.cons_append, List.length_cons, matchAt, ih]
    cases p with
    | nil => rfl
    | cons d p => simp [List.getLast?_cons]

lemma matchAt_eq_some {i : ℕ} {a : α} (h : matchAt scan i last t = some a) : ∃ p s r,
    t = p ++ s ∧ p.length = i ∧ (scan (p.getLast?.or last)).run s = some (a, r) := by
  induction i generalizing last t with
  | zero =>
    obtain ⟨⟨b, r⟩, ran, rfl⟩ := Option.map_eq_some_iff.mp h
    exact ⟨[], t, r, rfl, rfl, ran⟩
  | succ i ih =>
    cases t with
    | nil => cases h
    | cons c t =>
      obtain ⟨p, s, r, rfl, rfl, ran⟩ := ih h
      refine ⟨c :: p, s, r, rfl, rfl, ?_⟩
      cases p with
      | nil => exact ran
      | cons d p => simpa [List.getLast?_cons] using ran

/-- A scanner of texts that begin with a letter they do not hold again. -/
lemma isolated_letter {c : Char} (begins : ∀ last t a r, (scan last).run t = some (a, r) →
    ∃ u, t = c :: (u ++ r) ∧ c ∉ u) : Isolated scan := by
  intro last d t a r ran i inside
  obtain ⟨u, text, free⟩ := begins last _ a r ran
  obtain ⟨rfl, rfl⟩ := List.cons_eq_cons.mp text
  cases found : matchAt scan i (some d) (u ++ r) with
  | none => rfl
  | some b =>
    obtain ⟨p, s, r', split, rfl, ran'⟩ := matchAt_eq_some found
    obtain ⟨u', rfl, -⟩ := begins _ s b r' ran'
    have short : p.length < u.length := by simpa using inside
    have letter : (u ++ r)[p.length]? = some d := by rw [split]; simp
    rw [List.getElem?_append_left short] at letter
    exact absurd (List.mem_of_getElem? letter) free

lemma finditerFrom_nil {n : ℕ} (none_ : ∀ i, n ≤ i → i < t.length → matchAt scan i last t = none) :
    finditerFrom scan n last t = [] := by
  induction t generalizing n last with
  | nil => cases n <;> rfl
  | cons c t ih =>
    cases n with
    | succ n => exact ih fun i low high => none_ (i + 1) (by omega) (by simpa using high)
    | zero =>
      have first : (scan last).run (c :: t) = none := Option.map_eq_none_iff.mp (none_ 0 le_rfl (by simp))
      rw [finditerFrom, first]
      exact ih fun i _ high => none_ (i + 1) (by omega) (by simpa using high)

/-- A text with one match. -/
lemma finditerFrom_single {i : ℕ} {a : α} (inside : i < t.length) (match_ : matchAt scan i last t = some a)
    (only : ∀ j < t.length, j ≠ i → matchAt scan j last t = none) : finditerFrom scan 0 last t = [a] := by
  induction t generalizing i last with
  | nil => simp at inside
  | cons c t ih =>
    cases i with
    | zero =>
      obtain ⟨⟨b, r⟩, ran, rfl⟩ := Option.map_eq_some_iff.mp match_
      rw [finditerFrom, ran]
      simp only [List.cons.injEq, true_and]
      exact finditerFrom_nil fun j _ high => only (j + 1) (by simpa using high) (by omega)
    | succ i =>
      have first : (scan last).run (c :: t) = none := Option.map_eq_none_iff.mp (only 0 (by simp) (by omega))
      rw [finditerFrom, first]
      exact ih (by simpa using inside) match_ fun j high other =>
        only (j + 1) (by simpa using high) (by omega)

/-- Isolated matches are all found. -/
lemma card_le_finditerFrom (isolated : Isolated scan) {n : ℕ} {places : Finset ℕ}
    (found : ∀ i ∈ places, n ≤ i ∧ i < t.length ∧ (matchAt scan i last t).isSome) :
    places.card ≤ (finditerFrom scan n last t).length := by
  induction t generalizing n last places with
  | nil =>
    have none_ : places = ∅ := Finset.eq_empty_of_forall_notMem fun i mem => by
      have high := (found i mem).2.1
      simp at high
    simp [none_]
  | cons c t ih =>
    have shifted : ((places.erase 0).image (· - 1)).card = (places.erase 0).card := by
      refine Finset.card_image_of_injOn fun i mem j mem' same => ?_
      have positive := Finset.ne_of_mem_erase (Finset.mem_coe.mp mem)
      have positive' := Finset.ne_of_mem_erase (Finset.mem_coe.mp mem')
      change i - 1 = j - 1 at same
      omega
    have later {i : ℕ} (mem : i ∈ (places.erase 0).image (· - 1)) :
        n ≤ i + 1 ∧ i < t.length ∧ (matchAt scan i (some c) t).isSome := by
      obtain ⟨j, there, rfl⟩ := Finset.mem_image.mp mem
      obtain ⟨positive, there⟩ := Finset.mem_erase.mp there
      obtain ⟨k, rfl⟩ : ∃ k, j = k + 1 := ⟨j - 1, by omega⟩
      obtain ⟨low, high, match_⟩ := found _ there
      exact ⟨low, by simpa using high, match_⟩
    cases n with
    | succ n =>
      have absent : 0 ∉ places := fun mem => absurd (found 0 mem).1 (by omega)
      have bound := ih fun i mem => (⟨Nat.le_of_succ_le_succ (later mem).1, (later mem).2⟩ :
        n ≤ i ∧ i < t.length ∧ (matchAt scan i (some c) t).isSome)
      rw [shifted, Finset.erase_eq_of_notMem absent] at bound
      exact bound
    | zero =>
      cases ran : (scan last).run (c :: t) with
      | none =>
        have absent : 0 ∉ places := fun mem => by
          have match_ := (found 0 mem).2.2
          simp [matchAt, ran] at match_
        have bound := ih fun i mem => (⟨Nat.zero_le i, (later mem).2⟩ :
          0 ≤ i ∧ i < t.length ∧ (matchAt scan i (some c) t).isSome)
        rw [shifted, Finset.erase_eq_of_notMem absent] at bound
        rw [finditerFrom, ran]
        exact bound
      | some p =>
        obtain ⟨a, r⟩ := p
        have after {i : ℕ} (mem : i ∈ (places.erase 0).image (· - 1)) : t.length - r.length ≤ i := by
          by_contra inside
          have match_ := (later mem).2.2
          rw [isolated ran i (by omega)] at match_
          cases match_
        have bound := ih fun i mem => (⟨after mem, (later mem).2⟩ :
          t.length - r.length ≤ i ∧ i < t.length ∧ (matchAt scan i (some c) t).isSome)
        have whole : places.card - 1 ≤ (places.erase 0).card := Finset.pred_card_le_card_erase
        rw [finditerFrom, ran]
        rw [shifted] at bound
        simp only [List.length_cons]
        omega

end Searching

end PlatformConfig.TextScan
