import Mathlib

/-!
# Canonical JSON text

JSON values and the compact ASCII text of `json.dumps` with sorted keys. Objects
are lists of fields in key order, since neither dictionary equality nor the text
depends on the insertion order. Equal texts come from equal values.
-/
namespace PlatformConfig.CanonicalJson

def isNumberChar (c : Char) : Bool :=
  c.isDigit || c = '-' || c = '+' || c = '.' || c = 'e'

/-- The `repr` of a finite float: a number token with a point or an exponent. -/
structure FloatText where
  text : List Char
  number : text.all isNumberChar = true
  marked : (text.any fun c => c = '.' || c = 'e') = true

inductive Json
  | null
  | bool (b : Bool)
  | int (n : ℤ)
  | float (t : FloatText)
  | str (s : String)
  | arr (xs : List Json)
  | obj (fields : List (String × Json))

namespace Json

/-- The value of a field of an object. -/
def get? (j : Json) (key : String) : Option Json :=
  match j with
  | .obj fields => fields.lookup key
  | _ => none

/-- The keys of an object, in order. -/
def keys? : Json → Option (List String)
  | .obj fields => some (fields.map Prod.fst)
  | _ => none

def str? : Json → Option String
  | .str s => some s
  | _ => none

def int? : Json → Option ℤ
  | .int n => some n
  | _ => none

end Json

/-- One of the sixteen lowercase hexadecimal digits. -/
def hexDigit (n : ℕ) : Char := Nat.digitChar (n % 16)

def hexValue (c : Char) : ℕ := (List.range 16).findIdx fun n => hexDigit n = c

/-- A `\u` escape of one UTF-16 unit. -/
def escapeUnit (n : ℕ) : List Char :=
  ['\\', 'u', hexDigit (n / 4096), hexDigit (n / 256), hexDigit (n / 16), hexDigit n]

def unitValue (a b c d : Char) : ℕ :=
  hexValue a * 4096 + hexValue b * 256 + hexValue c * 16 + hexValue d

/-- The text of one character inside a JSON string, in ASCII only. -/
def escapeChar (c : Char) : List Char :=
  if c = '"' then ['\\', '"']
  else if c = '\\' then ['\\', '\\']
  else if c = '\n' then ['\\', 'n']
  else if c = '\r' then ['\\', 'r']
  else if c = '\t' then ['\\', 't']
  else if c.toNat = 8 then ['\\', 'b']
  else if c.toNat = 12 then ['\\', 'f']
  else if 32 ≤ c.toNat ∧ c.toNat ≤ 126 then [c]
  else if c.toNat < 65536 then escapeUnit c.toNat
  else escapeUnit (0xd800 + (c.toNat - 65536) / 1024) ++
    escapeUnit (0xdc00 + (c.toNat - 65536) % 1024)

def quote (s : String) : List Char := '"' :: s.toList.flatMap escapeChar ++ ['"']

mutual

def canonical : Json → List Char
  | .null => ['n', 'u', 'l', 'l']
  | .bool true => ['t', 'r', 'u', 'e']
  | .bool false => ['f', 'a', 'l', 's', 'e']
  | .int n => n.repr.toList
  | .float t => t.text
  | .str s => quote s
  | .arr [] => ['[', ']']
  | .arr (x :: xs) => '[' :: (canonical x ++ elements xs)
  | .obj [] => ['{', '}']
  | .obj ((k, v) :: fs) => '{' :: (quote k ++ ':' :: (canonical v ++ fields fs))

/-- The rest of an array after its first element. -/
def elements : List Json → List Char
  | [] => [']']
  | x :: xs => ',' :: (canonical x ++ elements xs)

/-- The rest of an object after its first field. -/
def fields : List (String × Json) → List Char
  | [] => ['}']
  | (k, v) :: fs => ',' :: (quote k ++ ':' :: (canonical v ++ fields fs))

end

/-- Read back one character of a string text, with the rest of the text. -/
def readChar : List Char → Option (Char × List Char)
  | '\\' :: '"' :: r => some ('"', r)
  | '\\' :: '\\' :: r => some ('\\', r)
  | '\\' :: 'n' :: r => some ('\n', r)
  | '\\' :: 'r' :: r => some ('\r', r)
  | '\\' :: 't' :: r => some ('\t', r)
  | '\\' :: 'b' :: r => some (Char.ofNat 8, r)
  | '\\' :: 'f' :: r => some (Char.ofNat 12, r)
  | '\\' :: 'u' :: a :: b :: c :: d :: r =>
    if unitValue a b c d / 1024 = 0x36 then
      match r with
      | '\\' :: 'u' :: a' :: b' :: c' :: d' :: r' =>
        some (Char.ofNat (65536 + unitValue a b c d % 1024 * 1024
          + unitValue a' b' c' d' % 1024), r')
      | _ => none
    else some (Char.ofNat (unitValue a b c d), r)
  | c :: r => some (c, r)
  | [] => none

theorem hexValue_hexDigit (n : ℕ) : hexValue (hexDigit n) = n % 16 := by
  have small : ∀ k < 16, hexValue (Nat.digitChar k) = k := by decide
  exact small _ (Nat.mod_lt _ (by decide))

theorem unitValue_digits {n : ℕ} (h : n < 65536) :
    unitValue (hexDigit (n / 4096)) (hexDigit (n / 256)) (hexDigit (n / 16)) (hexDigit n) = n := by
  simp only [unitValue, hexValue_hexDigit]
  omega

/-- A character is never a surrogate, so the two kinds of escape do not overlap. -/
theorem toNat_not_surrogate (c : Char) : c.toNat / 1024 ≠ 0x36 := by
  have := c.valid
  simp only [UInt32.isValidChar, Nat.isValidChar] at this
  have hc : c.toNat = c.val.toNat := rfl
  omega

theorem toNat_lt (c : Char) : c.toNat < 0x110000 := by
  have := c.valid
  simp only [UInt32.isValidChar, Nat.isValidChar] at this
  have hc : c.toNat = c.val.toNat := rfl
  omega

theorem readChar_escapeChar (c : Char) (r : List Char) :
    readChar (escapeChar c ++ r) = some (c, r) := by
  unfold escapeChar
  split_ifs with quote backslash newline carriage tab backspace formfeed plain short
  · subst quote; rfl
  · subst backslash; rfl
  · subst newline; rfl
  · subst carriage; rfl
  · subst tab; rfl
  · simp only [List.cons_append, List.nil_append, readChar]
    rw [← backspace, Char.ofNat_toNat]
  · simp only [List.cons_append, List.nil_append, readChar]
    rw [← formfeed, Char.ofNat_toNat]
  · simp only [List.cons_append, List.nil_append]
    unfold readChar
    split <;> simp_all
  · simp only [escapeUnit, List.cons_append, List.nil_append, readChar, unitValue_digits short,
      if_neg (toNat_not_surrogate c), Char.ofNat_toNat]
  · have bound := toNat_lt c
    have high : 0xd800 + (c.toNat - 65536) / 1024 < 65536 := by omega
    have low : 0xdc00 + (c.toNat - 65536) % 1024 < 65536 := by omega
    have pair : (0xd800 + (c.toNat - 65536) / 1024) / 1024 = 0x36 := by omega
    have value : 65536 + (0xd800 + (c.toNat - 65536) / 1024) % 1024 * 1024
        + (0xdc00 + (c.toNat - 65536) % 1024) % 1024 = c.toNat := by omega
    simp only [escapeUnit, List.cons_append, List.nil_append, readChar, unitValue_digits high,
      unitValue_digits low, if_pos pair, value, Char.ofNat_toNat]


theorem escapeChar_inj {c d : Char} {r r' : List Char}
    (h : escapeChar c ++ r = escapeChar d ++ r') : c = d ∧ r = r' := by
  have := congrArg readChar h
  simpa only [readChar_escapeChar, Option.some.injEq, Prod.mk.injEq] using this

theorem escapeChar_head (c : Char) (r r' : List Char) : escapeChar c ++ r ≠ '"' :: r' := by
  unfold escapeChar escapeUnit
  split_ifs <;> simp_all

theorem escaped_inj : ∀ (s t : List Char) {r r' : List Char},
    s.flatMap escapeChar ++ '"' :: r = t.flatMap escapeChar ++ '"' :: r' → s = t ∧ r = r'
  | [], [], _, _, h => by simpa using h
  | [], d :: t, r, r', h => by
    rw [List.flatMap_cons, List.append_assoc] at h
    exact (escapeChar_head _ _ _ h.symm).elim
  | c :: s, [], r, r', h => by
    rw [List.flatMap_cons, List.append_assoc] at h
    exact (escapeChar_head _ _ _ h).elim
  | c :: s, d :: t, r, r', h => by
    rw [List.flatMap_cons, List.append_assoc, List.flatMap_cons, List.append_assoc] at h
    obtain ⟨rfl, htail⟩ := escapeChar_inj h
    obtain ⟨rfl, rfl⟩ := escaped_inj s t htail
    exact ⟨rfl, rfl⟩

theorem quote_inj {s t : String} {r r' : List Char} (h : quote s ++ r = quote t ++ r') :
    s = t ∧ r = r' := by
  have hbody : s.toList.flatMap escapeChar ++ '"' :: r
      = t.toList.flatMap escapeChar ++ '"' :: r' := by
    simpa [quote] using h
  obtain ⟨hs, hr⟩ := escaped_inj _ _ hbody
  exact ⟨String.toList_inj.mp hs, hr⟩

/-- A text that does not continue a number. -/
def Delimited (r : List Char) : Prop := ∀ c ∈ r.head?, isNumberChar c = false

/-- Two number tokens at the head of one delimited text are the same token. -/
theorem token_inj {x y r r' : List Char} (hx : x.all isNumberChar = true)
    (hy : y.all isNumberChar = true) (hr : Delimited r) (hr' : Delimited r')
    (h : x ++ r = y ++ r') : x = y ∧ r = r' := by
  have munch : ∀ {z s : List Char}, z.all isNumberChar = true → Delimited s →
      (z ++ s).takeWhile isNumberChar = z := by
    intro z s hz hs
    rw [List.takeWhile_append_of_pos (by simpa using hz)]
    cases s with
    | nil => simp
    | cons c s => simp [hs c (by simp)]
  have hxy : x = y := by rw [← munch hx hr, h, munch hy hr']
  subst hxy
  exact ⟨rfl, List.append_cancel_left h⟩

theorem digits_number (n : ℕ) : n.repr.toList.all Char.isDigit = true := by
  rw [List.all_eq_true]
  intro c hc
  exact Nat.isDigit_of_mem_toDigits (b := 10) (by decide) (by decide) (by simpa [Nat.repr] using hc)

theorem int_chars (n : ℤ) : ∀ c ∈ n.repr.toList, c.isDigit = true ∨ c = '-' := by
  intro c hc
  rw [Int.repr_eq_if] at hc
  split_ifs at hc
  · exact .inl (List.all_eq_true.mp (digits_number _) c hc)
  · rw [String.toList_append, List.mem_append] at hc
    rcases hc with sign | digit
    · exact .inr (by simpa using sign)
    · exact .inl (List.all_eq_true.mp (digits_number _) c digit)

theorem int_number (n : ℤ) : n.repr.toList.all isNumberChar = true := by
  rw [List.all_eq_true]
  intro c hc
  rcases int_chars n c hc with digit | rfl
  · simp [isNumberChar, digit]
  · rfl

theorem int_unmarked (n : ℤ) : (n.repr.toList.any fun c => c = '.' || c = 'e') = false := by
  rw [List.any_eq_false]
  intro c hc
  rcases int_chars n c hc with digit | rfl
  · rintro mark
    simp only [Bool.or_eq_true, decide_eq_true_eq] at mark
    rcases mark with rfl | rfl <;> simp [Char.isDigit] at digit
  · decide

theorem int_ne_nil (n : ℤ) : n.repr.toList ≠ [] := by
  rw [Int.repr_eq_if]
  split_ifs
  · simp [Nat.repr]
  · simp [String.toList_append]

theorem FloatText.ne_nil (t : FloatText) : t.text ≠ [] := by
  intro empty
  simpa [empty] using t.marked

theorem FloatText.ext {t u : FloatText} (h : t.text = u.text) : t = u := by
  cases t; cases u; simp_all

/-- The first character tells which constructor a text comes from, numbers together. -/
def leadingKind : List Char → ℕ
  | 'n' :: _ => 0
  | 't' :: _ => 1
  | 'f' :: _ => 2
  | '"' :: _ => 3
  | '[' :: _ => 4
  | '{' :: _ => 5
  | _ => 6

def Json.kind : Json → ℕ
  | .null => 0
  | .bool true => 1
  | .bool false => 2
  | .str _ => 3
  | .arr _ => 4
  | .obj _ => 5
  | .int _ => 6
  | .float _ => 6

theorem leadingKind_number {t : List Char} (hne : t ≠ []) (ht : t.all isNumberChar = true)
    (r : List Char) : leadingKind (t ++ r) = 6 := by
  obtain ⟨c, t, rfl⟩ := List.exists_cons_of_ne_nil hne
  have hc : isNumberChar c = true := by simp_all
  rw [List.cons_append]
  unfold leadingKind
  split
  any_goals (rename_i heq; obtain ⟨rfl, -⟩ := List.cons.inj heq; exact absurd hc (by decide))
  rfl

theorem leadingKind_canonical (a : Json) (r : List Char) :
    leadingKind (canonical a ++ r) = a.kind := by
  cases a with
  | null => rfl
  | bool b => cases b <;> rfl
  | int n => exact leadingKind_number (int_ne_nil n) (int_number n) r
  | float t => exact leadingKind_number t.ne_nil t.number r
  | str s => simp [canonical, quote, leadingKind, Json.kind]
  | arr xs => cases xs <;> simp [canonical, leadingKind, Json.kind]
  | obj fs => cases fs <;> simp [canonical, leadingKind, Json.kind]

theorem kind_eq {a b : Json} {r r' : List Char} (h : canonical a ++ r = canonical b ++ r') :
    a.kind = b.kind := by
  rw [← leadingKind_canonical a r, h, leadingKind_canonical]

theorem delimited_elements (xs : List Json) (r : List Char) : Delimited (elements xs ++ r) := by
  cases xs <;> simp [elements, Delimited] <;> decide

theorem delimited_fields (fs : List (String × Json)) (r : List Char) :
    Delimited (fields fs ++ r) := by
  cases fs <;> simp [fields, Delimited] <;> decide

/-- An integer and a float never share a token, since only the float is marked. -/
theorem int_float_disjoint {n : ℤ} {t : FloatText} (h : n.repr.toList = t.text) : False := by
  have marked := t.marked
  rw [← h, int_unmarked] at marked
  exact Bool.false_ne_true marked

/-- A closing bracket does not begin a value. -/
theorem canonical_not_closing (a : Json) (r : List Char) {c : Char} (hc : c = ']' ∨ c = '}')
    (r' : List Char) : canonical a ++ r ≠ c :: r' := by
  intro h
  cases a with
  | null => rcases hc with rfl | rfl <;> simp [canonical] at h
  | bool b => rcases hc with rfl | rfl <;> cases b <;> simp [canonical] at h
  | int n =>
    have := int_number n
    obtain ⟨d, t, ht⟩ := List.exists_cons_of_ne_nil (int_ne_nil n)
    simp only [canonical, ht, List.cons_append, List.cons.injEq] at h this
    rcases hc with rfl | rfl <;> simp [h.1, isNumberChar, Char.isDigit] at this
  | float u =>
    have := u.number
    obtain ⟨d, t, ht⟩ := List.exists_cons_of_ne_nil u.ne_nil
    simp only [canonical, ht, List.cons_append, List.cons.injEq] at h this
    rcases hc with rfl | rfl <;> simp [h.1, isNumberChar, Char.isDigit] at this
  | str s => rcases hc with rfl | rfl <;> simp [canonical, quote] at h
  | arr xs => rcases hc with rfl | rfl <;> cases xs <;> simp [canonical] at h
  | obj fs => rcases hc with rfl | rfl <;> cases fs <;> simp [canonical] at h

mutual

/-- Two values whose texts head the same delimited text are equal. -/
theorem canonical_head : ∀ (a b : Json) {r r' : List Char}, Delimited r → Delimited r' →
    canonical a ++ r = canonical b ++ r' → a = b ∧ r = r'
  | .null, b, r, r', hr, hr', h => by
    have := kind_eq h
    cases b with
    | null => exact ⟨rfl, by simpa [canonical] using h⟩
    | bool c => cases c <;> cases this
    | _ => cases this
  | .bool x, b, r, r', hr, hr', h => by
    have := kind_eq h
    cases b with
    | bool y =>
      cases x <;> cases y <;> first
        | exact ⟨rfl, by simpa [canonical] using h⟩
        | cases this
    | _ => cases x <;> cases this
  | .int n, b, r, r', hr, hr', h => by
    have := kind_eq h
    cases b with
    | int m =>
      obtain ⟨ht, hs⟩ := token_inj (int_number n) (int_number m) hr hr' h
      exact ⟨by rw [Int.repr_inj.mp (String.toList_inj.mp ht)], hs⟩
    | float u =>
      exact (int_float_disjoint (token_inj (int_number n) u.number hr hr' h).1).elim
    | bool c => cases c <;> cases this
    | _ => cases this
  | .float t, b, r, r', hr, hr', h => by
    have := kind_eq h
    cases b with
    | int m =>
      exact (int_float_disjoint (token_inj t.number (int_number m) hr hr' h).1.symm).elim
    | float u =>
      obtain ⟨ht, hs⟩ := token_inj t.number u.number hr hr' h
      exact ⟨by rw [FloatText.ext ht], hs⟩
    | bool c => cases c <;> cases this
    | _ => cases this
  | .str s, b, r, r', hr, hr', h => by
    have := kind_eq h
    cases b with
    | str t =>
      obtain ⟨rfl, hs⟩ := quote_inj h
      exact ⟨rfl, hs⟩
    | bool c => cases c <;> cases this
    | _ => cases this
  | .arr [], b, r, r', hr, hr', h => by
    have := kind_eq h
    cases b with
    | arr ys =>
      cases ys with
      | nil => exact ⟨rfl, by simpa [canonical] using h⟩
      | cons y ys =>
        simp only [canonical, List.cons_append, List.append_assoc, List.nil_append,
          List.cons.injEq, true_and] at h
        exact (canonical_not_closing y _ (.inl rfl) _ h.symm).elim
    | bool c => cases c <;> cases this
    | _ => cases this
  | .arr (x :: xs), b, r, r', hr, hr', h => by
    have := kind_eq h
    cases b with
    | arr ys =>
      cases ys with
      | nil =>
        simp only [canonical, List.cons_append, List.append_assoc, List.nil_append,
          List.cons.injEq, true_and] at h
        exact (canonical_not_closing x _ (.inl rfl) _ h).elim
      | cons y ys =>
        simp only [canonical, List.cons_append, List.append_assoc, List.cons.injEq,
          true_and] at h
        obtain ⟨rfl, hrest⟩ :=
          canonical_head x y (delimited_elements xs r) (delimited_elements ys r') h
        obtain ⟨rfl, hs⟩ := elements_head xs ys hrest
        exact ⟨rfl, hs⟩
    | bool c => cases c <;> cases this
    | _ => cases this
  | .obj [], b, r, r', hr, hr', h => by
    have := kind_eq h
    cases b with
    | obj ys =>
      cases ys with
      | nil => exact ⟨rfl, by simpa [canonical] using h⟩
      | cons y ys => simp [canonical, quote] at h
    | bool c => cases c <;> cases this
    | _ => cases this
  | .obj ((k, v) :: fs), b, r, r', hr, hr', h => by
    have := kind_eq h
    cases b with
    | obj ys =>
      rcases ys with _ | ⟨⟨k', v'⟩, gs⟩
      · simp [canonical, quote] at h
      · simp only [canonical, List.cons_append, List.append_assoc, List.cons.injEq,
          true_and] at h
        obtain ⟨rfl, hvalue⟩ := quote_inj h
        obtain ⟨rfl, hrest⟩ := canonical_head v v' (delimited_fields fs r)
          (delimited_fields gs r') (List.cons.inj hvalue).2
        obtain ⟨rfl, hs⟩ := fields_head fs gs hrest
        exact ⟨rfl, hs⟩
    | bool c => cases c <;> cases this
    | _ => cases this

theorem elements_head : ∀ (xs ys : List Json) {r r' : List Char},
    elements xs ++ r = elements ys ++ r' → xs = ys ∧ r = r'
  | [], [], r, r', h => ⟨rfl, by simpa [elements] using h⟩
  | [], y :: ys, r, r', h => by simp [elements] at h
  | x :: xs, [], r, r', h => by simp [elements] at h
  | x :: xs, y :: ys, r, r', h => by
    simp only [elements, List.cons_append, List.append_assoc, List.cons.injEq, true_and] at h
    obtain ⟨rfl, hrest⟩ :=
      canonical_head x y (delimited_elements xs r) (delimited_elements ys r') h
    obtain ⟨rfl, hs⟩ := elements_head xs ys hrest
    exact ⟨rfl, hs⟩

theorem fields_head : ∀ (fs gs : List (String × Json)) {r r' : List Char},
    fields fs ++ r = fields gs ++ r' → fs = gs ∧ r = r'
  | [], [], r, r', h => ⟨rfl, by simpa [fields] using h⟩
  | [], (k, v) :: gs, r, r', h => by simp [fields] at h
  | (k, v) :: fs, [], r, r', h => by simp [fields] at h
  | (k, v) :: fs, (k', v') :: gs, r, r', h => by
    simp only [fields, List.cons_append, List.append_assoc, List.cons.injEq, true_and] at h
    obtain ⟨rfl, hvalue⟩ := quote_inj h
    obtain ⟨rfl, hrest⟩ := canonical_head v v' (delimited_fields fs r)
      (delimited_fields gs r') (List.cons.inj hvalue).2
    obtain ⟨rfl, hs⟩ := fields_head fs gs hrest
    exact ⟨rfl, hs⟩

end

/-- The canonical text determines the value, so comparing texts compares values. -/
theorem canonical_injective : Function.Injective canonical := by
  intro a b h
  have ended : Delimited [] := by simp [Delimited]
  exact (canonical_head a b ended ended (by rw [h])).1

/-- A character that stands for itself inside a string. -/
structure Plain (c : Char) : Prop where
  lower : 32 ≤ c.toNat
  upper : c.toNat ≤ 126
  quote : c ≠ '"'
  backslash : c ≠ '\\'

theorem escapeChar_plain {c : Char} (h : Plain c) : escapeChar c = [c] := by
  have low : c ≠ '\n' ∧ c ≠ '\r' ∧ c ≠ '\t' := by
    refine ⟨?_, ?_, ?_⟩ <;> rintro rfl <;> exact absurd h.lower (by decide)
  have := h.lower
  simp only [escapeChar, h.quote, h.backslash, low, if_false, if_neg (by omega : ¬c.toNat = 8),
    if_neg (by omega : ¬c.toNat = 12), if_pos (And.intro h.lower h.upper)]

theorem quote_length {s : String} (h : ∀ c ∈ s.toList, Plain c) :
    (quote s).length = s.toList.length + 2 := by
  have same : ∀ l : List Char, (∀ c ∈ l, Plain c) → l.flatMap escapeChar = l := by
    intro l hl
    induction l with
    | nil => rfl
    | cons c l ih =>
      rw [List.flatMap_cons, escapeChar_plain (hl c (by simp)),
        ih fun d hd => hl d (by simp [hd]), List.singleton_append]
  simp [quote, same s.toList h]

theorem canonical_str (s : String) : canonical (.str s) = quote s := by
  simp only [canonical]

theorem canonical_obj_length (k : String) (v : Json) (fs : List (String × Json)) :
    (canonical (.obj ((k, v) :: fs))).length
      = (quote k).length + (canonical v).length + (fields fs).length + 2 := by
  simp only [canonical, List.length_cons, List.length_append]
  omega

theorem fields_length : ∀ fs : List (String × Json), (fields fs).length
    = 1 + (fs.map fun f => (quote f.1).length + (canonical f.2).length + 2).sum
  | [] => by simp [fields]
  | (k, v) :: fs => by
    simp only [fields, List.length_cons, List.length_append, fields_length fs, List.map_cons,
      List.sum_cons]
    omega

end PlatformConfig.CanonicalJson
