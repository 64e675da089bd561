import PlatformConfig.CanonicalJson
import PlatformConfig.RecordText

/-!
# JSON text

`json.dumps` with a gap behind its separators, and `json.loads` with a hook that refuses a key
twice. Strings with unpaired surrogates and the constants for infinite floats are no JSON values and
are refused here. What is written from a value is read back as that value.
-/
namespace PlatformConfig.JsonText

open CanonicalJson

mutual

/-- `json.dumps` with `gap` behind each comma and each colon. -/
def dumps (gap : List Char) : Json → List Char
  | .arr (x :: xs) => '[' :: (dumps gap x ++ dumpElements gap xs)
  | .obj ((k, v) :: fs) => '{' :: (quote k ++ ':' :: (gap ++ (dumps gap v ++ dumpFields gap fs)))
  | .arr [] => ['[', ']']
  | .obj [] => ['{', '}']
  | .null => ['n', 'u', 'l', 'l']
  | .bool true => ['t', 'r', 'u', 'e']
  | .bool false => ['f', 'a', 'l', 's', 'e']
  | .int n => n.repr.toList
  | .float t => t.text
  | .str s => quote s

def dumpElements (gap : List Char) : List Json → List Char
  | [] => [']']
  | x :: xs => ',' :: (gap ++ (dumps gap x ++ dumpElements gap xs))

def dumpFields (gap : List Char) : List (String × Json) → List Char
  | [] => ['}']
  | (k, v) :: fs =>
    ',' :: (gap ++ (quote k ++ ':' :: (gap ++ (dumps gap v ++ dumpFields gap fs))))

end

mutual

/-- The commas and colons between the parts of a value. -/
def separators : Json → ℕ
  | .arr (x :: xs) => separators x + elementSeparators xs
  | .obj ((_, v) :: fs) => 1 + separators v + fieldSeparators fs
  | _ => 0

def elementSeparators : List Json → ℕ
  | [] => 0
  | x :: xs => 1 + separators x + elementSeparators xs

def fieldSeparators : List (String × Json) → ℕ
  | [] => 0
  | (_, v) :: fs => 2 + separators v + fieldSeparators fs

end

mutual

/-- Every separator is followed by its gap. -/
theorem dumps_length (gap : List Char) : ∀ j : Json,
    (dumps gap j).length = (canonical j).length + gap.length * separators j
  | .arr [] => by simp [dumps, canonical, separators]
  | .arr (x :: xs) => by
    have head := dumps_length gap x
    have tail := dumpElements_length gap xs
    simp only [dumps, canonical, separators, List.length_cons, List.length_append, mul_add]
    omega
  | .obj [] => by simp [dumps, canonical, separators]
  | .obj ((k, v) :: fs) => by
    have head := dumps_length gap v
    have tail := dumpFields_length gap fs
    simp only [dumps, canonical, separators, List.length_cons, List.length_append, mul_add, mul_one]
    omega
  | .null => by simp [dumps, canonical, separators]
  | .bool b => by cases b <;> simp [dumps, canonical, separators]
  | .int n => by simp [dumps, canonical, separators]
  | .float t => by simp [dumps, canonical, separators]
  | .str s => by simp [dumps, canonical, separators]

theorem dumpElements_length (gap : List Char) : ∀ xs : List Json,
    (dumpElements gap xs).length = (elements xs).length + gap.length * elementSeparators xs
  | [] => by simp [dumpElements, elements, elementSeparators]
  | x :: xs => by
    have head := dumps_length gap x
    have tail := dumpElements_length gap xs
    simp only [dumpElements, elements, elementSeparators, List.length_cons, List.length_append,
      mul_add, mul_one]
    omega

theorem dumpFields_length (gap : List Char) : ∀ fs : List (String × Json),
    (dumpFields gap fs).length = (fields fs).length + gap.length * fieldSeparators fs
  | [] => by simp [dumpFields, fields, fieldSeparators]
  | (k, v) :: fs => by
    have head := dumps_length gap v
    have tail := dumpFields_length gap fs
    simp only [dumpFields, fields, fieldSeparators, List.length_cons, List.length_append, mul_add,
      mul_two]
    omega

end

mutual

/-- Without a gap the text is the canonical one. -/
theorem dumps_nil : ∀ j : Json, dumps [] j = canonical j
  | .arr [] => by simp only [dumps, canonical]
  | .arr (x :: xs) => by simp only [dumps, canonical, dumps_nil x, dumpElements_nil xs]
  | .obj [] => by simp only [dumps, canonical]
  | .obj ((k, v) :: fs) => by
    simp only [dumps, canonical, dumps_nil v, dumpFields_nil fs, List.nil_append]
  | .null => by simp only [dumps, canonical]
  | .bool b => by cases b <;> simp only [dumps, canonical]
  | .int n => by simp only [dumps, canonical]
  | .float t => by simp only [dumps, canonical]
  | .str s => by simp only [dumps, canonical]

theorem dumpElements_nil : ∀ xs : List Json, dumpElements [] xs = elements xs
  | [] => by simp only [dumpElements, elements]
  | x :: xs => by
    simp only [dumpElements, elements, dumps_nil x, dumpElements_nil xs, List.nil_append]

theorem dumpFields_nil : ∀ fs : List (String × Json), dumpFields [] fs = fields fs
  | [] => by simp only [dumpFields, fields]
  | (k, v) :: fs => by
    simp only [dumpFields, fields, dumps_nil v, dumpFields_nil fs, List.nil_append]

end

/-! ## Reading -/

def isBlank (c : Char) : Bool := c = ' ' || c = '\t' || c = '\n' || c = '\r'

def skip (t : List Char) : List Char := t.dropWhile isBlank

/-- The value of a hexadecimal digit of either case. -/
def hexDigit? (c : Char) : Option ℕ :=
  (List.range 16).find? fun n => hexDigit n = c || (hexDigit n).toUpper = c

/-- The four digits of a `\u` escape. -/
def readUnit : List Char → Option (ℕ × List Char)
  | a :: b :: c :: d :: r => do
    let a ← hexDigit? a
    let b ← hexDigit? b
    let c ← hexDigit? c
    let d ← hexDigit? d
    return (a * 4096 + b * 256 + c * 16 + d, r)
  | _ => none

/-- The second half of a surrogate pair. -/
def readLow (high : ℕ) : List Char → Option (Char × List Char)
  | '\\' :: 'u' :: r => do
    let (low, r) ← readUnit r
    if low / 1024 = 0x37 then
      some (Char.ofNat (65536 + high % 1024 * 1024 + low % 1024), r)
    else none
  | _ => none

/-- An escape behind its backslash. -/
def readEscape : List Char → Option (Char × List Char)
  | '"' :: r => some ('"', r)
  | '\\' :: r => some ('\\', r)
  | '/' :: r => some ('/', r)
  | 'b' :: r => some (Char.ofNat 8, r)
  | 'f' :: r => some (Char.ofNat 12, r)
  | 'n' :: r => some ('\n', r)
  | 'r' :: r => some ('\r', r)
  | 't' :: r => some ('\t', r)
  | 'u' :: r => do
    let (n, r) ← readUnit r
    if n / 1024 = 0x36 then readLow n r
    else if n / 1024 = 0x37 then none
    else some (Char.ofNat n, r)
  | _ => none

def readStringChar : List Char → Option (Char × List Char)
  | '\\' :: r => readEscape r
  | c :: r => if c.toNat < 32 then none else some (c, r)
  | [] => none

/-- A string behind its quotation mark, of at most `n` characters. -/
def readString : ℕ → List Char → Option (List Char × List Char)
  | n, t =>
    match t, n with
    | '"' :: r, _ => some ([], r)
    | _, 0 => none
    | t, n + 1 => do
      let (c, r) ← readStringChar t
      let (cs, r) ← readString n r
      return (c :: cs, r)

/-- `-?(0|[1-9][0-9]*)` -/
def intToken? : List Char → Option ℤ
  | '-' :: r => (RecordText.decimal r).map fun n => -Int.ofNat n
  | t => (RecordText.decimal t).map Int.ofNat

/-- `([eE][-+]?[0-9]+)?` -/
def isExponent : List Char → Bool
  | [] => true
  | c :: '+' :: r => (c = 'e' || c = 'E') && RecordText.isDigits r
  | c :: '-' :: r => (c = 'e' || c = 'E') && RecordText.isDigits r
  | c :: r => (c = 'e' || c = 'E') && RecordText.isDigits r

/-- `(\.[0-9]+)?` before an exponent. -/
def isFraction : List Char → Bool
  | '.' :: r => r.takeWhile Char.isDigit ≠ [] && isExponent (r.dropWhile Char.isDigit)
  | t => isExponent t

def unsigned : List Char → List Char
  | '-' :: r => r
  | t => t

/-- A number with a fraction or an exponent. -/
def isFloatToken (t : List Char) : Bool :=
  (RecordText.decimal ((unsigned t).takeWhile Char.isDigit)).isSome &&
    (unsigned t).dropWhile Char.isDigit ≠ [] && isFraction ((unsigned t).dropWhile Char.isDigit)

def isTokenChar (c : Char) : Bool := isNumberChar c || c = 'E'

section Loads
variable (float : List Char → Option FloatText)

/-- A whole number token; `float` reads the text of a float. -/
def readNumber (t : List Char) : Option Json :=
  match intToken? t with
  | some n => some (.int n)
  | none => if isFloatToken t then (float t).map .float else none

/-- A literal or a number; non-finite constants have no value here. -/
def readScalar : List Char → Option (Json × List Char)
  | 'n' :: 'u' :: 'l' :: 'l' :: r => some (.null, r)
  | 't' :: 'r' :: 'u' :: 'e' :: r => some (.bool true, r)
  | 'f' :: 'a' :: 'l' :: 's' :: 'e' :: r => some (.bool false, r)
  | t => (readNumber float (t.takeWhile isTokenChar)).map fun j => (j, t.dropWhile isTokenChar)

/-- The dictionary of the fields of an object, unless a key stands twice. -/
def dictionary (fs : List (String × Json)) : Option Json :=
  if (fs.map Prod.fst).Nodup then some (.obj (fs.insertionSort fun f g => f.1 ≤ g.1)) else none

mutual

def readValue : ℕ → List Char → Option (Json × List Char)
  | 0, _ => none
  | n + 1, t =>
    match t with
    | '"' :: r => (readString r.length r).map fun p => (.str (String.ofList p.1), p.2)
    | '[' :: r =>
      match skip r with
      | ']' :: r => some (.arr [], r)
      | r => (readElements n r).map fun p => (.arr p.1, p.2)
    | '{' :: r =>
      match skip r with
      | '}' :: r => some (.obj [], r)
      | r => (readFields n r).bind fun p => (dictionary p.1).map fun j => (j, p.2)
    | t => readScalar float t

/-- The elements of an array from the first one on. -/
def readElements : ℕ → List Char → Option (List Json × List Char)
  | 0, _ => none
  | n + 1, t => do
    let (x, r) ← readValue n t
    match skip r with
    | ']' :: r => some ([x], r)
    | ',' :: r => (readElements n (skip r)).map fun p => (x :: p.1, p.2)
    | _ => none

/-- The fields of an object from the first one on. -/
def readFields : ℕ → List Char → Option (List (String × Json) × List Char)
  | n + 1, '"' :: t => do
    let (k, r) ← readString t.length t
    match skip r with
    | ':' :: r =>
      let (v, r) ← readValue n (skip r)
      match skip r with
      | '}' :: r => some ([(String.ofList k, v)], r)
      | ',' :: r => (readFields n (skip r)).map fun p => ((String.ofList k, v) :: p.1, p.2)
      | _ => none
    | _ => none
  | _, _ => none

end

/-- `json.loads` -/
def loads (t : List Char) : Option Json :=
  (readValue float (skip t).length (skip t)).bind fun p => if skip p.2 = [] then some p.1 else none

end Loads

/-! ## What is written is read back -/

section Strings

lemma hexDigit?_hexDigit (n : ℕ) : hexDigit? (hexDigit n) = some (n % 16) := by
  have small : ∀ k < 16, hexDigit? (Nat.digitChar k) = some k := by
    decide
  exact small _ (Nat.mod_lt _ (by decide))

lemma readUnit_digits {n : ℕ} (short : n < 65536) (r : List Char) :
    readUnit (hexDigit (n / 4096) :: hexDigit (n / 256) :: hexDigit (n / 16) :: hexDigit n :: r) =
      some (n, r) := by
  have whole : n / 4096 % 16 * 4096 + n / 256 % 16 * 256 + n / 16 % 16 * 16 + n % 16 = n := by omega
  simp [readUnit, hexDigit?_hexDigit, whole]

lemma toNat_not_low (c : Char) : c.toNat / 1024 ≠ 0x37 := by
  have := c.valid
  simp only [UInt32.isValidChar, Nat.isValidChar] at this
  have hc : c.toNat = c.val.toNat := rfl
  omega

lemma readStringChar_unit {n : ℕ} (short : n < 65536) (r : List Char) :
    readStringChar (escapeUnit n ++ r) =
      if n / 1024 = 0x36 then readLow n r
      else if n / 1024 = 0x37 then none else some (Char.ofNat n, r) := by
  simp only [escapeUnit, List.cons_append, List.nil_append, readStringChar, readEscape,
    readUnit_digits short, Option.bind_eq_bind, Option.bind_some]

lemma readLow_unit {high low : ℕ} (short : low < 65536) (half : low / 1024 = 0x37) (r : List Char) :
    readLow high (escapeUnit low ++ r) =
      some (Char.ofNat (65536 + high % 1024 * 1024 + low % 1024), r) := by
  simp only [escapeUnit, List.cons_append, List.nil_append, readLow, readUnit_digits short,
    Option.bind_eq_bind, Option.bind_some, if_pos half]

lemma readStringChar_escapeChar (c : Char) (r : List Char) :
    readStringChar (escapeChar c ++ r) = some (c, r) := by
  unfold escapeChar
  split_ifs with quote backslash newline carriage tab backspace formfeed plain short
  · subst quote; rfl
  · subst backslash; rfl
  · subst newline; rfl
  · subst carriage; rfl
  · subst tab; rfl
  · simp only [List.cons_append, List.nil_append, readStringChar, readEscape]
    rw [← backspace, Char.ofNat_toNat]
  · simp only [List.cons_append, List.nil_append, readStringChar, readEscape]
    rw [← formfeed, Char.ofNat_toNat]
  · have visible : ¬c.toNat < 32 := by omega
    simp only [List.cons_append, List.nil_append]
    unfold readStringChar
    split <;> simp_all
  · rw [readStringChar_unit short, if_neg (toNat_not_surrogate c), if_neg (toNat_not_low c),
      Char.ofNat_toNat]
  · have bound := toNat_lt c
    have high : 0xd800 + (c.toNat - 65536) / 1024 < 65536 := by omega
    have low : 0xdc00 + (c.toNat - 65536) % 1024 < 65536 := by omega
    have first : (0xd800 + (c.toNat - 65536) / 1024) / 1024 = 0x36 := by omega
    have second : (0xdc00 + (c.toNat - 65536) % 1024) / 1024 = 0x37 := by omega
    have value : 65536 + (0xd800 + (c.toNat - 65536) / 1024) % 1024 * 1024
        + (0xdc00 + (c.toNat - 65536) % 1024) % 1024 = c.toNat := by omega
    rw [List.append_assoc, readStringChar_unit high, if_pos first, readLow_unit low second, value,
      Char.ofNat_toNat]

lemma readString_step {n : ℕ} {t : List Char} (inside : t.head? ≠ some '"') :
    readString (n + 1) t = (readStringChar t).bind fun p =>
      (readString n p.2).map fun q => (p.1 :: q.1, q.2) := by
  rw [readString]
  · simp only [Option.bind_eq_bind, Option.pure_def, Option.map_eq_bind]
    rfl
  · rintro r rfl
    exact inside rfl

lemma escapeChar_cons (c : Char) : ∃ d r, escapeChar c = d :: r ∧ d ≠ '"' := by
  cases text : escapeChar c with
  | nil =>
    exfalso
    revert text
    unfold escapeChar escapeUnit
    split_ifs <;> simp
  | cons d r =>
    refine ⟨d, r, rfl, ?_⟩
    rintro rfl
    exact escapeChar_head c [] r (by rw [text, List.append_nil])

lemma readString_escaped (s : List Char) {n : ℕ} (enough : s.length ≤ n) (r : List Char) :
    readString n (s.flatMap escapeChar ++ '"' :: r) = some (s, r) := by
  induction s generalizing n with
  | nil => cases n <;> simp [readString]
  | cons c s ih =>
    obtain ⟨n, rfl⟩ : ∃ m, n = m + 1 := ⟨n - 1, by simp at enough; omega⟩
    obtain ⟨d, u, text, inside⟩ := escapeChar_cons c
    rw [List.flatMap_cons, List.append_assoc, readString_step (by simp [text, inside]),
      readStringChar_escapeChar, Option.bind_some, ih (by simpa using enough)]
    rfl

/-- A quoted string is read back, behind its quotation mark. -/
lemma readString_quote (s : String) (r : List Char) :
    ∃ t, quote s ++ r = '"' :: t ∧ readString t.length t = some (s.toList, r) := by
  refine ⟨s.toList.flatMap escapeChar ++ '"' :: r, by simp [quote], readString_escaped _ ?_ r⟩
  have longer : s.toList.length ≤ (s.toList.flatMap escapeChar).length := by
    rw [List.length_flatMap]
    have one : ∀ c ∈ s.toList, 1 ≤ (escapeChar c).length := by
      intro c _
      obtain ⟨d, u, text, -⟩ := escapeChar_cons c
      simp [text]
    simpa using List.length_le_sum_of_one_le (s.toList.map fun c => (escapeChar c).length)
      (by simpa using one)
  rw [List.length_append]
  omega

end Strings

section Numbers
variable {float : List Char → Option FloatText}

/-- A text that does not continue a number token. -/
def Ends (r : List Char) : Prop := ∀ c ∈ r.head?, isTokenChar c = false

lemma token_append {x r : List Char} (token : ∀ c ∈ x, isTokenChar c = true) (ends : Ends r) :
    (x ++ r).takeWhile isTokenChar = x ∧ (x ++ r).dropWhile isTokenChar = r := by
  rw [List.takeWhile_append_of_pos token, List.dropWhile_append_of_pos token]
  cases r with
  | nil => simp
  | cons c r => simp [ends c (by simp)]

lemma number_token {x : List Char} (number : x.all isNumberChar = true) :
    ∀ c ∈ x, isTokenChar c = true := by
  intro c mem
  simp [isTokenChar, List.all_eq_true.mp number c mem]

lemma natural_head {m : ℕ} {r : List Char} : m.repr.toList ≠ '-' :: r := by
  intro signed
  have digit := RecordText.str_digit (n := m) (c := '-') (by rw [RecordText.str, signed]; simp)
  revert digit
  decide

lemma intToken_repr (n : ℤ) : intToken? n.repr.toList = some n := by
  have natural (m : ℕ) : RecordText.decimal m.repr.toList = some m := RecordText.decimal_str m
  rw [Int.repr_eq_if]
  split_ifs with positive
  · unfold intToken?
    split
    · next r signed => exact absurd signed natural_head
    · rw [natural, Option.map_some, Int.ofNat_eq_natCast, Int.toNat_of_nonneg positive]
  · have signed : ("-" ++ (-n).toNat.repr).toList = '-' :: (-n).toNat.repr.toList := by
      rw [String.toList_append]
      rfl
    rw [signed, intToken?, natural, Option.map_some, Int.ofNat_eq_natCast,
      Int.toNat_of_nonneg (by omega), neg_neg]

/-- A scalar that is a number token. -/
lemma readScalar_number {x r : List Char} {j : Json} (some_ : x ≠ []) (number : x.all isNumberChar = true)
    (ends : Ends r) (read : readNumber float x = some j) : readScalar float (x ++ r) = some (j, r) := by
  obtain ⟨c, y, rfl⟩ := List.exists_cons_of_ne_nil some_
  obtain ⟨taken, dropped⟩ := token_append (number_token number) ends
  have first : isNumberChar c = true := (List.all_eq_true.mp number) c List.mem_cons_self
  unfold readScalar
  split
  any_goals
    rename_i heq
    obtain ⟨rfl, -⟩ := List.cons.inj heq
    exact absurd first (by decide)
  rw [taken, dropped, read]
  rfl

end Numbers

section Values
variable (float : List Char → Option FloatText)

mutual

/-- A value as a reader holds it: floats by their `repr`, the keys of each object in order. -/
def WellFormed : Json → Prop
  | .float t => readNumber float t.text = some (.float t)
  | .arr xs => ElementsWellFormed xs
  | .obj fs => (fs.map Prod.fst).Pairwise (· < ·) ∧ FieldsWellFormed fs
  | _ => True

def ElementsWellFormed : List Json → Prop
  | [] => True
  | x :: xs => WellFormed x ∧ ElementsWellFormed xs

def FieldsWellFormed : List (String × Json) → Prop
  | [] => True
  | (_, v) :: fs => WellFormed v ∧ FieldsWellFormed fs

end

mutual

/-- A value as a writer may have it: floats by their `repr`, no object with a key twice. -/
def Readable : Json → Prop
  | .float t => readNumber float t.text = some (.float t)
  | .arr xs => ElementsReadable xs
  | .obj fs => (fs.map Prod.fst).Nodup ∧ FieldsReadable fs
  | _ => True

def ElementsReadable : List Json → Prop
  | [] => True
  | x :: xs => Readable x ∧ ElementsReadable xs

def FieldsReadable : List (String × Json) → Prop
  | [] => True
  | (_, v) :: fs => Readable v ∧ FieldsReadable fs

end

mutual

/-- The value with the keys of each object in order. -/
def normal : Json → Json
  | .arr xs => .arr (normalElements xs)
  | .obj fs => .obj ((normalFields fs).insertionSort fun f g => f.1 ≤ g.1)
  | .null => .null
  | .bool b => .bool b
  | .int n => .int n
  | .float t => .float t
  | .str s => .str s

def normalElements : List Json → List Json
  | [] => []
  | x :: xs => normal x :: normalElements xs

def normalFields : List (String × Json) → List (String × Json)
  | [] => []
  | (k, v) :: fs => (k, normal v) :: normalFields fs

end

lemma normalFields_eq (fs : List (String × Json)) : normalFields fs = fs.map fun f => (f.1, normal f.2) := by
  induction fs with
  | nil => rfl
  | cons f fs ih =>
    obtain ⟨k, v⟩ := f
    rw [normalFields, ih, List.map_cons]

lemma normalFields_keys (fs : List (String × Json)) : (normalFields fs).map Prod.fst = fs.map Prod.fst := by
  rw [normalFields_eq, List.map_map]
  rfl

variable {float} {gap : List Char}

lemma insertionSort_ordered {fs : List (String × Json)} (ordered : (fs.map Prod.fst).Pairwise (· < ·)) :
    fs.insertionSort (fun f g => f.1 ≤ g.1) = fs := by
  have sorted : fs.Pairwise fun f g => f.1 ≤ g.1 := by
    rw [List.pairwise_map] at ordered
    exact ordered.imp fun lt => le_of_lt lt
  exact List.Pairwise.insertionSort_eq sorted

mutual

/-- A value as a reader holds it is in order. -/
theorem WellFormed.normal : ∀ {j : Json}, WellFormed float j → Readable float j ∧ JsonText.normal j = j
  | .null, _ | .bool _, _ | .int _, _ | .str _, _ => ⟨trivial, rfl⟩
  | .float _, exact_ => ⟨exact_, rfl⟩
  | .arr xs, good => by
    obtain ⟨readable, same⟩ := ElementsWellFormed.normal good
    exact ⟨readable, by rw [JsonText.normal, same]⟩
  | .obj fs, good => by
    obtain ⟨readable, same⟩ := FieldsWellFormed.normal good.2
    exact ⟨⟨good.1.imp fun lt => ne_of_lt lt, readable⟩, by rw [JsonText.normal, same, insertionSort_ordered good.1]⟩

theorem ElementsWellFormed.normal : ∀ {xs : List Json}, ElementsWellFormed float xs →
    ElementsReadable float xs ∧ normalElements xs = xs
  | [], _ => ⟨trivial, rfl⟩
  | x :: xs, good => by
    obtain ⟨first, same⟩ := WellFormed.normal good.1
    obtain ⟨rest, same'⟩ := ElementsWellFormed.normal good.2
    exact ⟨⟨first, rest⟩, by rw [normalElements, same, same']⟩

theorem FieldsWellFormed.normal : ∀ {fs : List (String × Json)}, FieldsWellFormed float fs →
    FieldsReadable float fs ∧ normalFields fs = fs
  | [], _ => ⟨trivial, rfl⟩
  | (k, v) :: fs, good => by
    obtain ⟨first, same⟩ := WellFormed.normal good.1
    obtain ⟨rest, same'⟩ := FieldsWellFormed.normal good.2
    exact ⟨⟨first, rest⟩, by rw [normalFields, same, same']⟩

end

lemma dictionary_distinct {fs : List (String × Json)} (distinct : (fs.map Prod.fst).Nodup) :
    dictionary fs = some (.obj (fs.insertionSort fun f g => f.1 ≤ g.1)) := by
  rw [dictionary, if_pos distinct]

/-- No value begins with a blank or a closing bracket. -/
def Opens (c : Char) : Prop := isBlank c = false ∧ c ≠ ']' ∧ c ≠ '}'

lemma opens_number {c : Char} (number : isNumberChar c = true) : Opens c := by
  refine ⟨?_, ?_, ?_⟩
  · cases blank : isBlank c with
    | false => rfl
    | true =>
      simp only [isBlank, Bool.or_eq_true, decide_eq_true_eq] at blank
      rcases blank with ((rfl | rfl) | rfl) | rfl <;> revert number <;> decide
  · rintro rfl
    revert number
    decide
  · rintro rfl
    revert number
    decide

lemma dumps_head (gap : List Char) (j : Json) (r : List Char) : ∃ c t, dumps gap j ++ r = c :: t ∧ Opens c := by
  have token {x : List Char} (some_ : x ≠ []) (number : x.all isNumberChar = true) :
      ∃ c t, x ++ r = c :: t ∧ Opens c := by
    obtain ⟨c, y, rfl⟩ := List.exists_cons_of_ne_nil some_
    exact ⟨c, y ++ r, rfl, opens_number (List.all_eq_true.mp number c List.mem_cons_self)⟩
  have fixed {c : Char} {t : List Char} (opens : Opens c) : ∃ d u, c :: t ++ r = d :: u ∧ Opens d :=
    ⟨c, t ++ r, rfl, opens⟩
  cases j with
  | null => simpa only [dumps] using fixed ⟨by decide, by decide, by decide⟩
  | bool b => cases b <;> simpa only [dumps] using fixed ⟨by decide, by decide, by decide⟩
  | int n => simpa only [dumps] using token (int_ne_nil n) (int_number n)
  | float t => simpa only [dumps] using token t.ne_nil t.number
  | str s =>
    rw [dumps, quote, List.cons_append]
    exact fixed ⟨by decide, by decide, by decide⟩
  | arr xs => cases xs <;> simpa only [dumps] using fixed ⟨by decide, by decide, by decide⟩
  | obj fs =>
    rcases fs with _ | ⟨⟨k, v⟩, fs⟩ <;>
      simpa only [dumps] using fixed ⟨by decide, by decide, by decide⟩

lemma skip_solid {c : Char} (solid : isBlank c = false) (t : List Char) : skip (c :: t) = c :: t := by
  rw [skip, List.dropWhile_cons, solid]
  rfl

lemma skip_append (blank : ∀ c ∈ gap, isBlank c = true) {c : Char} (solid : isBlank c = false)
    (t : List Char) : skip (gap ++ c :: t) = c :: t := by
  rw [skip, List.dropWhile_append_of_pos blank]
  exact skip_solid solid t

lemma skip_gap (blank : ∀ c ∈ gap, isBlank c = true) (j : Json) (r : List Char) :
    skip (gap ++ (dumps gap j ++ r)) = dumps gap j ++ r := by
  obtain ⟨c, t, text, opens⟩ := dumps_head gap j r
  rw [text]
  exact skip_append blank opens.1 t

lemma readValue_array {n : ℕ} {c : Char} {t : List Char} (opens : Opens c) :
    readValue float (n + 1) ('[' :: c :: t) =
      (readElements float n (c :: t)).map fun p => (.arr p.1, p.2) := by
  rw [readValue, skip_solid opens.1]
  split
  · next r closing => exact absurd (List.cons.inj closing).1 opens.2.1
  · rfl

lemma readValue_object {n : ℕ} {c : Char} {t : List Char} (opens : Opens c) :
    readValue float (n + 1) ('{' :: c :: t) = (readFields float n (c :: t)).bind fun p =>
      (dictionary p.1).map fun j => (j, p.2) := by
  rw [readValue, skip_solid opens.1]
  split
  · next r closing => exact absurd (List.cons.inj closing).1 opens.2.2
  · rfl

lemma readValue_number {x r : List Char} {j : Json} {n : ℕ} (some_ : x ≠ [])
    (number : x.all isNumberChar = true) (ends : Ends r) (read : readNumber float x = some j)
    (enough : x.length ≤ n) : readValue float n (x ++ r) = some (j, r) := by
  obtain ⟨m, rfl⟩ : ∃ m, n = m + 1 :=
    ⟨n - 1, by have := List.length_pos_iff_ne_nil.mpr some_; omega⟩
  have scalar := readScalar_number some_ number ends read
  obtain ⟨c, y, rfl⟩ := List.exists_cons_of_ne_nil some_
  have first : isNumberChar c = true := (List.all_eq_true.mp number) c List.mem_cons_self
  rw [List.cons_append] at scalar ⊢
  unfold readValue
  split
  any_goals
    rename_i heq
    obtain ⟨rfl, -⟩ := List.cons.inj heq
    exact absurd first (by decide)
  exact scalar

/-- The elements of an array behind its bracket. -/
def elementText (gap : List Char) : List Json → List Char
  | [] => []
  | x :: xs => dumps gap x ++ dumpElements gap xs

/-- The fields of an object behind its brace. -/
def fieldText (gap : List Char) : List (String × Json) → List Char
  | [] => []
  | (k, v) :: fs => quote k ++ ':' :: (gap ++ (dumps gap v ++ dumpFields gap fs))

lemma fuel (j : Json) {n : ℕ} (enough : (dumps gap j).length ≤ n) : ∃ m, n = m + 1 := by
  obtain ⟨c, t, text, -⟩ := dumps_head gap j []
  have some_ : 0 < (dumps gap j).length := by
    rw [List.append_nil] at text
    simp [text]
  exact ⟨n - 1, by omega⟩

lemma ends_of {c : Char} (other : isTokenChar c = false) (r : List Char) : Ends (c :: r) := by
  rintro d ⟨⟩
  exact other

lemma ends_elements (xs : List Json) (r : List Char) : Ends (dumpElements gap xs ++ r) := by
  cases xs <;> exact ends_of (by decide) _

lemma ends_fields (fs : List (String × Json)) (r : List Char) : Ends (dumpFields gap fs ++ r) := by
  rcases fs with _ | ⟨⟨k, v⟩, fs⟩ <;> exact ends_of (by decide) _

mutual

theorem readValue_dumps (blank : ∀ c ∈ gap, isBlank c = true) : ∀ (j : Json) {n : ℕ} {r : List Char},
    Readable float j → (dumps gap j).length ≤ n → Ends r →
    readValue float n (dumps gap j ++ r) = some (normal j, r)
  | .null, n, r, _, enough, _ => by
    obtain ⟨m, rfl⟩ := fuel .null enough
    simp only [dumps]
    rfl
  | .bool b, n, r, _, enough, _ => by
    obtain ⟨m, rfl⟩ := fuel (.bool b) enough
    cases b <;> simp only [dumps] <;> rfl
  | .int m, n, r, _, enough, ends => by
    simp only [dumps] at enough ⊢
    refine readValue_number (int_ne_nil m) (int_number m) ends ?_ enough
    rw [readNumber, intToken_repr]
    rfl
  | .float t, n, r, exact_, enough, ends => by
    simp only [dumps] at enough ⊢
    exact readValue_number t.ne_nil t.number ends exact_ enough
  | .str s, n, r, _, enough, _ => by
    obtain ⟨m, rfl⟩ := fuel (.str s) enough
    obtain ⟨t, text, read⟩ := readString_quote s r
    rw [dumps, text, readValue, read]
    simp [normal]
  | .arr [], n, r, _, enough, _ => by
    obtain ⟨m, rfl⟩ := fuel (.arr []) enough
    simp [dumps, readValue, skip, isBlank, normal, normalElements]
  | .arr (x :: xs), n, r, good, enough, _ => by
    obtain ⟨m, rfl⟩ := fuel (.arr (x :: xs)) enough
    have short : (elementText gap (x :: xs)).length ≤ m := by
      simp only [dumps, elementText, List.length_cons] at enough ⊢
      omega
    have read := readElements_dumps blank (x :: xs) (r := r) (by simp) good short
    obtain ⟨c, t, text, opens⟩ := dumps_head gap x (dumpElements gap xs ++ r)
    rw [elementText, List.append_assoc, text] at read
    rw [dumps, List.cons_append, List.append_assoc, text, readValue_array opens, read]
    rfl
  | .obj [], n, r, _, enough, _ => by
    obtain ⟨m, rfl⟩ := fuel (.obj []) enough
    simp [dumps, readValue, skip, isBlank, normal, normalFields]
  | .obj ((k, v) :: fs), n, r, good, enough, _ => by
    obtain ⟨m, rfl⟩ := fuel (.obj ((k, v) :: fs)) enough
    have short : (fieldText gap ((k, v) :: fs)).length ≤ m := by
      simp only [dumps, fieldText, List.length_cons] at enough ⊢
      omega
    have read := readFields_dumps blank ((k, v) :: fs) (r := r) (by simp) good.2 short
    obtain ⟨t, text, -⟩ := readString_quote k (':' :: (gap ++ (dumps gap v ++ dumpFields gap fs)) ++ r)
    rw [fieldText, List.append_assoc, text] at read
    have distinct : ((normalFields ((k, v) :: fs)).map Prod.fst).Nodup := by
      rw [normalFields_keys]
      exact good.1
    rw [dumps, List.cons_append, List.append_assoc, text,
      readValue_object ⟨by decide, by decide, by decide⟩, read, Option.bind_some, dictionary_distinct distinct]
    rfl

theorem readElements_dumps (blank : ∀ c ∈ gap, isBlank c = true) :
    ∀ (xs : List Json) {n : ℕ} {r : List Char}, xs ≠ [] → ElementsReadable float xs →
    (elementText gap xs).length ≤ n → readElements float n (elementText gap xs ++ r) = some (normalElements xs, r)
  | [], n, r, some_, _, _ => absurd rfl some_
  | x :: xs, n, r, _, good, enough => by
    simp only [elementText, List.length_append] at enough
    have longer : 0 < (dumpElements gap xs).length := by cases xs <;> simp [dumpElements]
    obtain ⟨m, rfl⟩ : ∃ m, n = m + 1 := ⟨n - 1, by omega⟩
    have short : (dumps gap x).length ≤ m := by omega
    rw [elementText, List.append_assoc, readElements,
      readValue_dumps blank x good.1 short (ends_elements xs r)]
    simp only [Option.bind_eq_bind, Option.bind_some]
    cases xs with
    | nil =>
      rw [dumpElements, List.singleton_append, skip_solid (by decide)]
      rfl
    | cons y ys =>
      have rest : (elementText gap (y :: ys)).length ≤ m := by
        simp only [dumpElements, elementText, List.length_cons, List.length_append] at enough ⊢
        omega
      have later := readElements_dumps blank (y :: ys) (r := r) (by simp) good.2 rest
      have text : dumpElements gap (y :: ys) ++ r =
          ',' :: (gap ++ (dumps gap y ++ (dumpElements gap ys ++ r))) := by
        simp only [dumpElements, List.cons_append, List.append_assoc]
      rw [elementText, List.append_assoc] at later
      rw [text, skip_solid (by decide)]
      simp only [skip_gap blank, later, Option.map_some]
      rfl

theorem readFields_dumps (blank : ∀ c ∈ gap, isBlank c = true) :
    ∀ (fs : List (String × Json)) {n : ℕ} {r : List Char}, fs ≠ [] → FieldsReadable float fs →
    (fieldText gap fs).length ≤ n → readFields float n (fieldText gap fs ++ r) = some (normalFields fs, r)
  | [], n, r, some_, _, _ => absurd rfl some_
  | (k, v) :: fs, n, r, _, good, enough => by
    have longer : 0 < (dumpFields gap fs).length := by
      rcases fs with _ | ⟨⟨k, v⟩, fs⟩ <;> simp [dumpFields]
    simp only [fieldText, List.length_append, List.length_cons] at enough
    obtain ⟨m, rfl⟩ : ∃ m, n = m + 1 := ⟨n - 1, by omega⟩
    have short : (dumps gap v).length ≤ m := by omega
    obtain ⟨t, text, key⟩ := readString_quote k
      (':' :: (gap ++ (dumps gap v ++ (dumpFields gap fs ++ r))))
    have whole : fieldText gap ((k, v) :: fs) ++ r = '"' :: t := by
      rw [← text]
      simp only [fieldText, List.append_assoc, List.cons_append]
    rw [whole, readFields, key]
    simp only [Option.bind_eq_bind, Option.bind_some, skip_solid (show isBlank ':' = false by decide),
      skip_gap blank, readValue_dumps blank v good.1 short (ends_fields fs r), String.ofList_toList]
    cases fs with
    | nil =>
      rw [dumpFields, List.singleton_append, skip_solid (by decide)]
      rfl
    | cons g gs =>
      obtain ⟨k', v'⟩ := g
      have rest : (fieldText gap ((k', v') :: gs)).length ≤ m := by
        simp only [dumpFields, fieldText, List.length_cons, List.length_append] at enough ⊢
        omega
      have later := readFields_dumps blank ((k', v') :: gs) (r := r) (by simp) good.2 rest
      obtain ⟨u, text', -⟩ := readString_quote k'
        (':' :: (gap ++ (dumps gap v' ++ (dumpFields gap gs ++ r))))
      have head : fieldText gap ((k', v') :: gs) ++ r = '"' :: u := by
        rw [← text']
        simp only [fieldText, List.append_assoc, List.cons_append]
      have tail : dumpFields gap ((k', v') :: gs) ++ r = ',' :: (gap ++ '"' :: u) := by
        rw [← text']
        simp only [dumpFields, List.append_assoc, List.cons_append]
      rw [head] at later
      rw [tail, skip_solid (by decide)]
      simp only [skip_append blank (show isBlank '"' = false by decide), later, Option.map_some]
      rfl

end

/-- What is written from a value, with blanks behind it, is read back with its keys in order. -/
theorem loads_written (blank : ∀ c ∈ gap, isBlank c = true) {j : Json} (good : Readable float j)
    {end_ : List Char} (blanks : ∀ c ∈ end_, isBlank c = true) :
    loads float (dumps gap j ++ end_) = some (normal j) := by
  have start : skip (dumps gap j ++ end_) = dumps gap j ++ end_ := by
    obtain ⟨c, t, text, opens⟩ := dumps_head gap j end_
    rw [text]
    exact skip_solid opens.1 t
  have ends : Ends end_ := by
    intro c first
    have blank_ := blanks c (List.mem_of_mem_head? first)
    simp only [isBlank, Bool.or_eq_true, decide_eq_true_eq] at blank_
    rcases blank_ with ((rfl | rfl) | rfl) | rfl <;> decide
  have rest : skip end_ = [] := List.dropWhile_eq_nil_iff.mpr blanks
  rw [loads, start, readValue_dumps blank j good (by simp) ends, Option.bind_some, if_pos rest]

/-- What is written from a value in order, with blanks behind it, is read back as the value. -/
theorem loads_dumps (blank : ∀ c ∈ gap, isBlank c = true) {j : Json} (good : WellFormed float j)
    {end_ : List Char} (blanks : ∀ c ∈ end_, isBlank c = true) :
    loads float (dumps gap j ++ end_) = some j := by
  obtain ⟨readable, same⟩ := good.normal
  rw [loads_written blank readable blanks, same]

/-- The canonical text of a value is read back as the value. -/
theorem loads_canonical {j : Json} (good : WellFormed float j) {end_ : List Char}
    (blanks : ∀ c ∈ end_, isBlank c = true) : loads float (canonical j ++ end_) = some j := by
  rw [← dumps_nil]
  exact loads_dumps (by simp) good blanks

end Values

end PlatformConfig.JsonText
