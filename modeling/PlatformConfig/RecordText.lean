import Mathlib

/-!
# Records of named text fields

A record is one `name=value` line for each of a fixed list of fields. The readers split ASCII text
into lines as `str.splitlines` does and ask for the names in their order; they differ in what they
require of the text and of each value. What is written from printable values is read back.
-/
namespace PlatformConfig.RecordText

abbrev Text := List Char

abbrev Bytes := List UInt8

/-- `str.encode("ascii")` of text below 128. -/
def encode (t : Text) : Bytes := t.map fun c => UInt8.ofNat c.toNat

/-- `bytes.decode("ascii")` -/
def decode (d : Bytes) : Option Text :=
  if d.all (· < 128) then some (d.map fun b => Char.ofNat b.toNat) else none

/-- The line boundaries of `str.splitlines` below 128. -/
def isBreak (c : Char) : Bool :=
  c = '\n' || c = '\r' || c = '\x0b' || c = '\x0c' || c = '\x1c' || c = '\x1d' || c = '\x1e'

/-- The lines behind the reversed beginning of a line; a line feed behind a carriage return is a
part of its boundary. -/
def linesFrom (cr : Bool) (line : Text) : Text → List Text
  | [] => if line = [] then [] else [line.reverse]
  | c :: t =>
    if cr && c = '\n' then linesFrom false line t
    else if isBreak c then line.reverse :: linesFrom (c = '\r') [] t
    else linesFrom false (c :: line) t

/-- `str.splitlines` -/
def splitLines (t : Text) : List Text := linesFrom false [] t

def unlines (lines : List Text) : Text := lines.flatMap fun l => l ++ ['\n']

/-- A line without a boundary in it. -/
def Unbroken (line : Text) : Prop := ∀ c ∈ line, isBreak c = false

lemma linesFrom_line {line t : Text} (h : Unbroken line) (start : Text) :
    linesFrom false start (line ++ '\n' :: t) = (start.reverse ++ line) :: linesFrom false [] t := by
  induction line generalizing start with
  | nil => simp [linesFrom, isBreak]
  | cons c line ih =>
    have here : isBreak c = false := h c List.mem_cons_self
    have later : Unbroken line := fun d mem => h d (List.mem_cons_of_mem c mem)
    simp [linesFrom, here, ih later]

theorem splitLines_unlines {lines : List Text} (h : ∀ l ∈ lines, Unbroken l) :
    splitLines (unlines lines) = lines := by
  unfold splitLines unlines
  induction lines with
  | nil => rfl
  | cons l lines ih =>
    have first := linesFrom_line (h l List.mem_cons_self) [] (t := unlines lines)
    simp only [List.flatMap_cons, List.append_assoc, List.singleton_append]
    rw [unlines] at first
    rw [first, ih fun l mem => h l (List.mem_cons_of_mem _ mem)]
    rfl

lemma linesFrom_unbroken {t line : Text} {cr : Bool} (h : Unbroken line.reverse) :
    ∀ l ∈ linesFrom cr line t, Unbroken l := by
  induction t generalizing cr line with
  | nil =>
    intro l mem
    rw [linesFrom] at mem
    split_ifs at mem
    · cases mem
    · rw [List.mem_singleton.mp mem]
      exact h
  | cons c t ih =>
    rw [linesFrom]
    split_ifs with feed break_
    · exact ih h
    · refine List.forall_mem_cons.mpr ⟨h, ih ?_⟩
      simp [Unbroken]
    · refine ih fun d mem => ?_
      rw [List.reverse_cons, List.mem_append, List.mem_singleton] at mem
      rcases mem with mem | rfl
      · exact h d mem
      · exact Bool.eq_false_iff.mpr break_

lemma splitLines_unbroken (t : Text) : ∀ l ∈ splitLines t, Unbroken l :=
  linesFrom_unbroken (by simp [Unbroken])

lemma mem_linesFrom {t line l : Text} {cr : Bool} {c : Char} (mem : l ∈ linesFrom cr line t)
    (in_ : c ∈ l) : c ∈ line ∨ c ∈ t := by
  induction t generalizing cr line with
  | nil =>
    rw [linesFrom] at mem
    split_ifs at mem
    · cases mem
    · rw [List.mem_singleton.mp mem, List.mem_reverse] at in_
      exact .inl in_
  | cons d t ih =>
    rw [linesFrom] at mem
    split_ifs at mem
    · exact (ih mem).imp_right (List.mem_cons_of_mem d)
    · rcases List.mem_cons.mp mem with rfl | mem
      · exact .inl (List.mem_reverse.mp in_)
      · rcases ih mem with none_ | later
        · cases none_
        · exact .inr (List.mem_cons_of_mem d later)
    · rcases ih mem with here | later
      · rcases List.mem_cons.mp here with rfl | here
        · exact .inr List.mem_cons_self
        · exact .inl here
      · exact .inr (List.mem_cons_of_mem d later)

lemma mem_splitLines {t l : Text} {c : Char} (mem : l ∈ splitLines t) (in_ : c ∈ l) : c ∈ t := by
  rcases mem_linesFrom mem in_ with none_ | there
  · cases none_
  · exact there

/-- The end of a text that is empty or ends with a line feed, behind the beginning of a line. -/
def Closed (line t : Text) : Prop := t.getLast? = some '\n' ∨ (t = [] ∧ line = [])

lemma Closed.next {line t : Text} {c : Char} (h : Closed line (c :: t)) (start : Text)
    (feed : t = [] → c = '\n' → start = []) : Closed start t := by
  rcases h with last | ⟨none_, -⟩
  · cases t with
    | nil => exact .inr ⟨rfl, feed rfl (Option.some.inj last)⟩
    | cons d t => exact .inl (by rwa [List.getLast?_cons_cons] at last)
  · cases none_

lemma unlines_linesFrom {t line : Text} (plain : ∀ c ∈ t, isBreak c = true → c = '\n')
    (closed : Closed line t) : unlines (linesFrom false line t) = line.reverse ++ t := by
  induction t generalizing line with
  | nil =>
    rcases closed with last | ⟨-, rfl⟩
    · cases last
    · rfl
  | cons c t ih =>
    have later : ∀ d ∈ t, isBreak d = true → d = '\n' := fun d mem =>
      plain d (List.mem_cons_of_mem c mem)
    by_cases break_ : isBreak c = true
    · obtain rfl := plain c List.mem_cons_self break_
      have rest : unlines (linesFrom false [] t) = t := ih later (closed.next [] fun _ _ => rfl)
      rw [unlines] at rest
      simp [linesFrom, break_, unlines, rest]
    · have other : c ≠ '\n' := by
        rintro rfl
        exact break_ rfl
      have rest := ih later (closed.next (c :: line) fun _ same => absurd same other)
      simp [linesFrom, break_, rest]

/-- Lines whose only boundaries are line feeds, put together again. -/
theorem unlines_splitLines {t : Text} (plain : ∀ c ∈ t, isBreak c = true → c = '\n')
    (ends : t.getLast? = some '\n') : unlines (splitLines t) = t :=
  unlines_linesFrom plain (.inl ends)

lemma length_linesFrom {t line : Text} (plain : '\r' ∉ t) (closed : Closed line t) :
    (linesFrom false line t).length = t.countP isBreak := by
  induction t generalizing line with
  | nil =>
    rcases closed with last | ⟨-, rfl⟩
    · cases last
    · rfl
  | cons c t ih =>
    have here : c ≠ '\r' := fun same => plain (same ▸ List.mem_cons_self)
    have later : '\r' ∉ t := fun mem => plain (List.mem_cons_of_mem c mem)
    by_cases break_ : isBreak c = true
    · have rest := ih later (closed.next [] fun _ _ => rfl)
      simp [linesFrom, break_, here, rest]
    · have other : c ≠ '\n' := by
        rintro rfl
        exact break_ rfl
      have rest := ih later (closed.next (c :: line) fun _ same => absurd same other)
      simp [linesFrom, break_, rest]

/-- A text without carriage returns has a line for each boundary. -/
lemma length_splitLines {t : Text} (plain : '\r' ∉ t) (ends : t.getLast? = some '\n') :
    (splitLines t).length = t.countP isBreak := length_linesFrom plain (.inl ends)

/-- Lines, each with the boundary behind it. -/
def joined (l : List (Text × Char)) : Text := l.flatMap fun p => p.1 ++ [p.2]

lemma linesFrom_boundary {line t : Text} {c : Char} (h : Unbroken line) (break_ : isBreak c = true)
    (other : c ≠ '\r') (start : Text) :
    linesFrom false start (line ++ c :: t) = (start.reverse ++ line) :: linesFrom false [] t := by
  induction line generalizing start with
  | nil => simp [linesFrom, break_, other]
  | cons d line ih =>
    have here : isBreak d = false := h d List.mem_cons_self
    have later : Unbroken line := fun e mem => h e (List.mem_cons_of_mem d mem)
    simp [linesFrom, here, ih later]

lemma splitLines_joined {l : List (Text × Char)}
    (h : ∀ p ∈ l, Unbroken p.1 ∧ isBreak p.2 = true ∧ p.2 ≠ '\r') :
    splitLines (joined l) = l.map Prod.fst := by
  unfold splitLines joined
  induction l with
  | nil => rfl
  | cons p l ih =>
    obtain ⟨unbroken, break_, other⟩ := h p List.mem_cons_self
    have first := linesFrom_boundary unbroken break_ other []
      (t := l.flatMap fun p => p.1 ++ [p.2])
    have rest := ih fun q mem => h q (List.mem_cons_of_mem p mem)
    simp only [List.flatMap_cons, List.append_assoc, List.singleton_append]
    rw [first, rest]
    rfl

lemma exists_joined_from {t line : Text} (closed : Closed line t) (unbroken : Unbroken line.reverse) :
    ∃ l, line.reverse ++ t = joined l ∧ ∀ p ∈ l, Unbroken p.1 ∧ isBreak p.2 = true := by
  induction t generalizing line with
  | nil =>
    rcases closed with last | ⟨-, rfl⟩
    · cases last
    · exact ⟨[], rfl, by simp⟩
  | cons c t ih =>
    by_cases break_ : isBreak c = true
    · obtain ⟨l, whole, parts⟩ := ih (closed.next [] fun _ _ => rfl) (by simp [Unbroken])
      refine ⟨(line.reverse, c) :: l, ?_, List.forall_mem_cons.mpr ⟨⟨unbroken, break_⟩, parts⟩⟩
      simp only [List.reverse_nil, List.nil_append] at whole
      simp [joined, whole]
    · have other : c ≠ '\n' := by
        rintro rfl
        exact break_ rfl
      have longer : Unbroken (c :: line).reverse := by
        intro d mem
        rw [List.reverse_cons, List.mem_append, List.mem_singleton] at mem
        rcases mem with mem | rfl
        · exact unbroken d mem
        · exact Bool.eq_false_iff.mpr break_
      obtain ⟨l, whole, parts⟩ := ih (closed.next (c :: line) fun _ same => absurd same other) longer
      exact ⟨l, by rw [← whole]; simp, parts⟩

/-- A text that ends with a line feed is made of lines and their boundaries. -/
lemma exists_joined {t : Text} (ends : t.getLast? = some '\n') :
    ∃ l, t = joined l ∧ ∀ p ∈ l, Unbroken p.1 ∧ isBreak p.2 = true :=
  exists_joined_from (.inl ends) (show Unbroken [].reverse by simp [Unbroken])

/-- `line.split("=", 1)` of a line with an equals sign. -/
def splitField (line : Text) : Option (Text × Text) :=
  match line.span (· ≠ '=') with
  | (name, '=' :: value) => some (name, value)
  | _ => none

def field (name : String) (value : String) : Text := name.toList ++ '=' :: value.toList

lemma splitField_field {name value : String} (plain : '=' ∉ name.toList) :
    splitField (field name value) = some (name.toList, value.toList) := by
  have names : ∀ c ∈ name.toList, decide (c ≠ '=') = true := fun c mem =>
    decide_eq_true fun same => plain (same ▸ mem)
  have span : (field name value).span (· ≠ '=') = (name.toList, '=' :: value.toList) := by
    rw [field, List.span_eq_takeWhile_dropWhile, List.takeWhile_append_of_pos names,
      List.dropWhile_append_of_pos names]
    simp
  rw [splitField, span]
  simp

/-- The values of the fields `names`, each on its line and accepted by `valid`. -/
def readFields (valid : Text → Bool) : List String → List Text → Option (List String)
  | [], [] => some []
  | n :: names, l :: lines => do
    let (name, value) ← splitField l
    if name = n.toList && valid value then
      let rest ← readFields valid names lines
      some (String.ofList value :: rest)
    else none
  | _, _ => none

theorem readFields_field {valid : Text → Bool} {names values : List String}
    (plain : ∀ n ∈ names, '=' ∉ n.toList) (valids : ∀ v ∈ values, valid v.toList = true)
    (same : names.length = values.length) :
    readFields valid names (List.zipWith field names values) = some values := by
  induction names generalizing values with
  | nil =>
    cases values with
    | nil => rfl
    | cons v values => cases same
  | cons n names ih =>
    cases values with
    | nil => cases same
    | cons v values =>
      have rest := ih (fun m mem => plain m (List.mem_cons_of_mem n mem))
        (fun w mem => valids w (List.mem_cons_of_mem v mem)) (Nat.succ.inj same)
      simp [readFields, splitField_field (plain n List.mem_cons_self), valids v List.mem_cons_self, rest]

lemma splitField_eq {line name value : Text} (h : splitField line = some (name, value)) :
    line = name ++ '=' :: value ∧ '=' ∉ name := by
  rw [splitField, List.span_eq_takeWhile_dropWhile] at h
  have whole := List.takeWhile_append_dropWhile (p := fun c => decide (c ≠ '=')) (l := line)
  split at h
  · next n v span =>
    obtain ⟨names, values⟩ := Prod.mk.inj span
    cases h
    refine ⟨by rw [← names, ← values, whole], fun mem => ?_⟩
    rw [← names] at mem
    simpa using List.mem_takeWhile_imp mem
  · cases h

lemma readFields_eq {valid : Text → Bool} {names values : List String} {lines : List Text}
    (h : readFields valid names lines = some values) :
    lines = List.zipWith field names values ∧ names.length = values.length ∧
      (∀ n ∈ names, '=' ∉ n.toList) ∧ ∀ v ∈ values, valid v.toList = true := by
  induction names generalizing lines values with
  | nil =>
    cases lines with
    | nil =>
      cases h
      simp
    | cons l lines => cases h
  | cons n names ih =>
    cases lines with
    | nil => cases h
    | cons l lines =>
      rw [readFields] at h
      obtain ⟨⟨name, value⟩, split, h⟩ := Option.bind_eq_some_iff.mp h
      simp only [Bool.and_eq_true, decide_eq_true_eq] at h
      obtain ⟨⟨same, ok⟩, h⟩ := Option.ite_none_right_eq_some.mp h
      obtain ⟨rest, read, h⟩ := Option.bind_eq_some_iff.mp h
      obtain ⟨whole, plain⟩ := splitField_eq split
      obtain ⟨lines_, length, plains, oks⟩ := ih read
      cases h
      subst same lines_ whole
      refine ⟨?_, ?_, List.forall_mem_cons.mpr ⟨plain, plains⟩, List.forall_mem_cons.mpr ⟨?_, oks⟩⟩
      · simp [field]
      · simp [length]
      · rwa [String.toList_ofList]

/-- A character that a record can hold in a value: visible and ASCII. -/
def isVisible (c : Char) : Bool := 0x21 ≤ c.toNat && c.toNat ≤ 0x7e

/-- A non-empty text of visible characters. -/
def isToken (t : Text) : Bool := t ≠ [] && t.all isVisible

lemma isVisible_unbroken {c : Char} (h : isVisible c = true) : isBreak c = false := by
  simp only [isVisible, Bool.and_eq_true, decide_eq_true_eq] at h
  have other : ∀ d : Char, d.toNat < 0x21 → c ≠ d := by
    rintro d small rfl
    omega
  simp [isBreak, other '\n' (by decide), other '\r' (by decide), other '\x0b' (by decide),
    other '\x0c' (by decide), other '\x1c' (by decide), other '\x1d' (by decide), other '\x1e' (by decide)]

lemma decode_encode {t : Text} (h : ∀ c ∈ t, c.toNat < 128) : decode (encode t) = some t := by
  have small : ∀ c ∈ t, (UInt8.ofNat c.toNat).toNat = c.toNat := by
    intro c mem
    have := h c mem
    simp only [UInt8.toNat_ofNat']
    omega
  rw [decode, if_pos]
  · rw [encode, List.map_map]
    refine congrArg some ((List.map_congr_left fun c mem => ?_).trans (List.map_id t))
    simp only [Function.comp_apply, small c mem]
    exact Char.ofNat_toNat c
  · rw [encode, List.all_map, List.all_eq_true]
    intro c mem
    simp only [Function.comp_apply, decide_eq_true_eq, UInt8.lt_iff_toNat_lt, small c mem]
    exact h c mem

lemma ofNat_toNat_ascii : ∀ n < 128, (Char.ofNat n).toNat = n := by decide

lemma encode_decode {d : Bytes} {t : Text} (h : decode d = some t) :
    encode t = d ∧ ∀ c ∈ t, c.toNat < 128 := by
  rw [decode] at h
  obtain ⟨small, same⟩ := Option.ite_none_right_eq_some.mp h
  cases same
  have ascii : ∀ b ∈ d, (Char.ofNat b.toNat).toNat = b.toNat := by
    intro b mem
    have := List.all_eq_true.mp small b mem
    simp only [decide_eq_true_eq, UInt8.lt_iff_toNat_lt] at this
    exact ofNat_toNat_ascii _ this
  constructor
  · rw [encode, List.map_map]
    refine (List.map_congr_left fun b mem => ?_).trans (List.map_id d)
    simp only [Function.comp_apply, ascii b mem]
    exact UInt8.ofNat_toNat
  · intro c mem
    obtain ⟨b, in_, rfl⟩ := List.mem_map.mp mem
    have := List.all_eq_true.mp small b in_
    simp only [decide_eq_true_eq, UInt8.lt_iff_toNat_lt] at this
    rw [ascii b in_]
    exact this

lemma encode_injective {t u : Text} (ht : ∀ c ∈ t, c.toNat < 128) (hu : ∀ c ∈ u, c.toNat < 128)
    (h : encode t = encode u) : t = u := by
  have read := decode_encode ht
  rw [h, decode_encode hu] at read
  exact (Option.some.inj read).symm

lemma byte_eq {c d : Char} (hc : c.toNat < 128) (hd : d.toNat < 128) :
    UInt8.ofNat c.toNat = UInt8.ofNat d.toNat ↔ c = d := by
  rw [← UInt8.toNat_inj, UInt8.toNat_ofNat', UInt8.toNat_ofNat', Nat.mod_eq_of_lt (by omega),
    Nat.mod_eq_of_lt (by omega)]
  exact Char.toNat_inj

lemma mem_encode {t : Text} {c : Char} (ascii : ∀ c ∈ t, c.toNat < 128) (hc : c.toNat < 128) :
    UInt8.ofNat c.toNat ∈ encode t ↔ c ∈ t := by
  rw [encode, List.mem_map]
  constructor
  · rintro ⟨d, mem, same⟩
    rwa [← (byte_eq (ascii d mem) hc).mp same]
  · exact fun mem => ⟨c, mem, rfl⟩

lemma getLast_encode {t : Text} {c : Char} (ascii : ∀ c ∈ t, c.toNat < 128) (hc : c.toNat < 128) :
    (encode t).getLast? = some (UInt8.ofNat c.toNat) ↔ t.getLast? = some c := by
  rw [encode, List.getLast?_map, Option.map_eq_some_iff]
  constructor
  · rintro ⟨d, last, same⟩
    rw [last, (byte_eq (ascii d (List.mem_of_getLast? last)) hc).mp same]
  · exact fun last => ⟨c, last, rfl⟩

/-! ## Numbers -/

/-- `0|[1-9][0-9]*`, read as a number. -/
def decimal (t : Text) : Option ℕ :=
  if t = ['0'] ∨ (t.head?.any (fun c => c ≠ '0') = true ∧ t.all Char.isDigit = true) then
    some (Nat.ofDigitChars 10 t 0)
  else none

/-- `str.isdigit` of ASCII text. -/
def isDigits (t : Text) : Bool := t ≠ [] && t.all Char.isDigit

/-- `str` of a natural number. -/
def str (n : ℕ) : String := n.repr

lemma str_toList (n : ℕ) : (str n).toList = Nat.toDigits 10 n := Nat.toList_repr

lemma str_digit {n : ℕ} {c : Char} (mem : c ∈ (str n).toList) : c.isDigit = true := by
  rw [str_toList] at mem
  exact Nat.isDigit_of_mem_toDigits (b := 10) (by decide) (by decide) mem

lemma isDigits_str (n : ℕ) : isDigits (str n).toList = true := by
  simp only [isDigits, Bool.and_eq_true, decide_eq_true_eq, List.all_eq_true]
  exact ⟨by rw [str_toList]; exact Nat.toDigits_ne_nil, fun c mem => str_digit mem⟩

lemma toDigits_head {n : ℕ} (pos : 0 < n) :
    (Nat.toDigits 10 n).head?.any (fun c => c ≠ '0') = true := by
  induction n using Nat.strong_induction_on with
  | _ n ih =>
    by_cases small : n < 10
    · rw [Nat.toDigits_of_lt_base small]
      interval_cases n <;> decide
    · rw [Nat.toDigits_of_base_le (by decide) (by omega), List.head?_append]
      have rest := ih (n / 10) (by omega) (by omega)
      cases first : (Nat.toDigits 10 (n / 10)).head? with
      | none => simp [first] at rest
      | some c => simpa [first] using rest

theorem decimal_str (n : ℕ) : decimal (str n).toList = some n := by
  have read : Nat.ofDigitChars 10 (Nat.toDigits 10 n) 0 = n := Nat.ofDigitChars_ten_toDigits
  rw [decimal, str_toList, read, if_pos]
  by_cases zero : n = 0
  · subst zero
    exact .inl (Nat.toDigits_zero 10)
  · refine .inr ⟨toDigits_head (by omega), List.all_eq_true.mpr fun c mem => ?_⟩
    exact str_digit (by rwa [str_toList])

/-! ## Whole records -/

/-- The text of a record. -/
def recordText (names values : List String) : Text := unlines (List.zipWith field names values)

/-- The bytes of a record. -/
def serialize (names values : List String) : Bytes := encode (recordText names values)

/-- Field names and values that make a record. -/
structure Printable (names values : List String) : Prop where
  plain : ∀ n ∈ names, n.toList.all isVisible = true ∧ '=' ∉ n.toList
  tokens : ∀ v ∈ values, isToken v.toList = true
  same : names.length = values.length

section Printable
variable {names values : List String}

lemma Printable.visible (h : Printable names values) :
    ∀ l ∈ List.zipWith field names values, ∀ c ∈ l, isVisible c = true := by
  intro l mem c in_
  rw [← List.map_uncurry_zip_eq_zipWith, List.mem_map] at mem
  obtain ⟨⟨n, v⟩, pair, rfl⟩ := mem
  obtain ⟨name, value⟩ := List.of_mem_zip pair
  have value := h.tokens v value
  simp only [isToken, Bool.and_eq_true, List.all_eq_true] at value
  rcases List.mem_append.mp in_ with in_ | in_
  · exact List.all_eq_true.mp (h.plain n name).1 c in_
  · rcases List.mem_cons.mp in_ with rfl | in_
    · decide
    · exact value.2 c in_

lemma recordText_mem {c : Char} (h : Printable names values) (mem : c ∈ recordText names values) :
    isVisible c = true ∨ c = '\n' := by
  obtain ⟨l, in_, mem⟩ := List.mem_flatMap.mp mem
  rcases List.mem_append.mp mem with mem | mem
  · exact .inl (h.visible l in_ c mem)
  · exact .inr (List.mem_singleton.mp mem)

lemma decode_serialize (h : Printable names values) :
    decode (serialize names values) = some (recordText names values) := by
  refine decode_encode fun c mem => ?_
  rcases recordText_mem h mem with visible | rfl
  · simp only [isVisible, Bool.and_eq_true, decide_eq_true_eq] at visible
    omega
  · decide

lemma splitLines_recordText (h : Printable names values) :
    splitLines (recordText names values) = List.zipWith field names values :=
  splitLines_unlines fun l mem c in_ => isVisible_unbroken (h.visible l mem c in_)

lemma readFields_recordText {valid : Text → Bool} (h : Printable names values)
    (valids : ∀ t, isToken t = true → valid t = true) :
    readFields valid names (splitLines (recordText names values)) = some values := by
  rw [splitLines_recordText h]
  exact readFields_field (fun n mem => (h.plain n mem).2) (fun v mem => valids _ (h.tokens v mem)) h.same

/-- A record ends with a line feed behind a visible character. -/
lemma recordText_end (h : Printable names values) (some_ : names ≠ []) :
    ∃ t c, recordText names values = t ++ [c, '\n'] ∧ isVisible c = true := by
  have lines : List.zipWith field names values ≠ [] := by
    intro none_
    have length := congrArg List.length none_
    rw [List.length_zipWith, ← h.same, min_self] at length
    exact some_ (List.length_eq_zero_iff.mp length)
  obtain ⟨front, last, same⟩ := List.eq_nil_or_concat _ |>.resolve_left lines
  have in_ : last ∈ List.zipWith field names values := by
    rw [same]
    simp
  have nonempty : last ≠ [] := by
    rw [← List.map_uncurry_zip_eq_zipWith, List.mem_map] at in_
    obtain ⟨p, -, rfl⟩ := in_
    simp [field, Function.uncurry]
  obtain ⟨line, c, split⟩ := List.eq_nil_or_concat _ |>.resolve_left nonempty
  refine ⟨unlines front ++ line, c, ?_, h.visible last in_ c (by rw [split]; simp)⟩
  rw [recordText, same, split]
  simp [unlines]

/-- A record has a line boundary for each field. -/
lemma countP_recordText (h : Printable names values) :
    (recordText names values).countP isBreak = names.length := by
  have lines : ∀ lines : List Text, (∀ l ∈ lines, Unbroken l) →
      (unlines lines).countP isBreak = lines.length := by
    intro lines unbroken
    induction lines with
    | nil => rfl
    | cons l lines ih =>
      have first : l.countP isBreak = 0 := List.countP_eq_zero.mpr fun c mem => by
        simp [unbroken l List.mem_cons_self c mem]
      have rest := ih fun m mem => unbroken m (List.mem_cons_of_mem l mem)
      rw [unlines] at rest
      simp only [unlines, List.flatMap_cons, List.countP_append, first, rest, List.length_cons]
      simp [isBreak, Nat.add_comm]
  rw [recordText, lines _ fun l mem c in_ => isVisible_unbroken (h.visible l mem c in_),
    List.length_zipWith, h.same, min_self]

/-- A part of a record that ends with a line feed has fewer lines than the record has fields. -/
lemma splitLines_front {front : Text} (h : Printable names values)
    (part : front <+: recordText names values) (torn : front ≠ recordText names values)
    (ends : front.getLast? = some '\n') : (splitLines front).length < names.length := by
  obtain ⟨rest, whole⟩ := part
  have some_ : rest ≠ [] := by
    rintro rfl
    exact torn (by rwa [List.append_nil] at whole)
  have plain : '\r' ∉ front := by
    intro mem
    have there : '\r' ∈ recordText names values := whole ▸ List.mem_append_left rest mem
    rcases recordText_mem h there with visible | feed
    · exact absurd visible (by decide)
    · exact absurd feed (by decide)
  have names_ : names ≠ [] := by
    rintro rfl
    have empty : recordText [] values = [] := rfl
    rw [empty, List.append_eq_nil_iff] at whole
    exact some_ whole.2
  obtain ⟨t, c, last, -⟩ := recordText_end h names_
  have feed : '\n' ∈ rest := by
    have last_ : (front ++ rest).getLast? = some '\n' := by rw [whole, last]; simp
    rw [List.getLast?_append_of_ne_nil front some_] at last_
    exact List.mem_of_getLast? last_
  have more : 0 < rest.countP isBreak := List.countP_pos_iff.mpr ⟨'\n', feed, by decide⟩
  have count := countP_recordText h
  rw [← whole, List.countP_append] at count
  rw [length_splitLines plain ends]
  omega

end Printable

end PlatformConfig.RecordText
