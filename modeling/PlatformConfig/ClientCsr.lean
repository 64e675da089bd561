import Mathlib

/-!
# The attributes of a client CSR

`der_fields` reads the DER fields of one level without looking into them. It accepts exactly the
encodings of lists of fields, so the check on the attributes of a client request decides exactly
the structure that it names.
-/
namespace PlatformConfig.ClientCsr

abbrev Data := List UInt8

/-- A tag and the bytes of its value. -/
structure Field where
  tag : UInt8
  value : Data
  deriving DecidableEq

/-- `int.from_bytes(data, "big")` -/
def fromBytes (d : Data) : ℕ := Nat.ofDigits 256 (d.reverse.map UInt8.toNat)

/-- The length behind a tag, and what follows it. -/
def readLength : Data → Except String (ℕ × Data)
  | [] => .error "CSR DER structure is malformed"
  | size :: rest =>
    if size &&& 0x80 = 0 then .ok (size.toNat, rest)
    else
      let count := (size &&& 0x7F).toNat
      if count < 1 ∨ 4 < count ∨ rest.length < count ∨ rest.head? = some 0 then
        .error "CSR DER length is malformed"
      else if fromBytes (rest.take count) < 128 then .error "CSR DER length is noncanonical"
      else .ok (fromBytes (rest.take count), rest.drop count)

/-- One field, and what follows it. -/
def readField : Data → Except String (Field × Data)
  | tag :: size :: rest =>
    if tag &&& 0x1F = 0x1F then .error "CSR DER tag is unsupported"
    else do
      let (size, rest) ← readLength (size :: rest)
      if rest.length < size then .error "CSR DER value is truncated"
      else .ok (⟨tag, rest.take size⟩, rest.drop size)
  | _ => .error "CSR DER structure is malformed"

lemma readLength_shorter {d rest : Data} {n : ℕ} (h : readLength d = .ok (n, rest)) :
    rest.length < d.length := by
  cases d with
  | nil => cases h
  | cons size d =>
    simp only [readLength] at h
    split_ifs at h
    · cases h
      simp
    · cases h
      simp only [List.length_drop, List.length_cons]
      omega

lemma readField_shorter {d rest : Data} {f : Field} (h : readField d = .ok (f, rest)) :
    rest.length < d.length := by
  rcases d with - | ⟨tag, - | ⟨size, d⟩⟩
  · cases h
  · cases h
  · simp only [readField] at h
    split_ifs at h
    cases read : readLength (size :: d) with
    | error e =>
      rw [read] at h
      cases h
    | ok p =>
      obtain ⟨n, after⟩ := p
      have shorter := readLength_shorter read
      rw [read] at h
      simp only [bind, Except.bind] at h
      split_ifs at h
      cases h
      simp only [List.length_drop, List.length_cons] at shorter ⊢
      omega

/-- `der_fields` -/
def derFields (d : Data) : Except String (List Field) :=
  if d = [] then .ok []
  else match _h : readField d with
    | .error e => .error e
    | .ok (f, rest) => do
      let fields ← derFields rest
      .ok (f :: fields)
  termination_by d.length
  decreasing_by exact readField_shorter _h

/-- `validate_client_csr_attributes` -/
def validateClientCsrAttributes (der : Data) : Except String Unit := do
  let outer ← derFields der
  match outer with
  | [⟨0x30, body⟩] => do
    let request ← derFields body
    if request.map (·.tag) = [0x30, 0x30, 0x03] then
      let info ← derFields ((request.map (·.value)).headD [])
      if info.map (·.tag) = [0x02, 0x30, 0x30, 0xA0] ∧ (info.map (·.value))[0]? = some [0x00] ∧
          (info.map (·.value))[3]? = some [] then .ok ()
      else .error "client CSR must contain zero ASN.1 attributes"
    else .error "CSR DER structure is malformed"
  | _ => .error "CSR DER structure is malformed"

/-! ## Encodings -/

/-- The octets of a number, the highest first and none of them superfluous. -/
def octets (n : ℕ) : Data := (Nat.digits 256 n).reverse.map UInt8.ofNat

/-- A definite length in its shortest form. -/
def encodeLength (n : ℕ) : Data :=
  if n < 128 then [UInt8.ofNat n] else UInt8.ofNat (128 + (octets n).length) :: octets n

def Field.encode (f : Field) : Data := f.tag :: (encodeLength f.value.length ++ f.value)

/-- A one-byte tag, and a length of at most four octets. -/
structure Field.Formed (f : Field) : Prop where
  low : f.tag.toNat % 32 ≠ 31
  fits : f.value.length < 256 ^ 4

def encodeAll (l : List Field) : Data := l.flatMap Field.encode

/-! ## Lengths -/

lemma short_iff (b : UInt8) : b &&& 0x80 = 0 ↔ b.toNat < 128 := by
  have top : b.toNat &&& 2 ^ 7 = 2 ^ 7 * (b.toNat / 2 ^ 7 % 2) := by
    rw [Nat.and_two_pow, Nat.testBit_eq_decide_div_mod_eq, mul_comm]
    rcases Nat.mod_two_eq_zero_or_one (b.toNat / 2 ^ 7) with h | h <;> rw [h] <;> rfl
  have range := b.toNat_lt
  rw [← UInt8.toNat_inj, UInt8.toNat_and]
  change b.toNat &&& 2 ^ 7 = 0 ↔ _
  rw [top]
  omega

lemma count_eq (b : UInt8) : (b &&& 0x7F).toNat = b.toNat % 128 := by
  rw [UInt8.toNat_and]
  exact Nat.and_two_pow_sub_one_eq_mod b.toNat 7

lemma low_iff (b : UInt8) : b &&& 0x1F = 0x1F ↔ b.toNat % 32 = 31 := by
  rw [← UInt8.toNat_inj, UInt8.toNat_and]
  exact Eq.congr_left (Nat.and_two_pow_sub_one_eq_mod b.toNat 5)

lemma ofNat_toNat {n : ℕ} (h : n < 256) : (UInt8.ofNat n).toNat = n := by
  rw [UInt8.toNat_ofNat']
  exact Nat.mod_eq_of_lt h

lemma fromBytes_octets (n : ℕ) : fromBytes (octets n) = n := by
  have digits : (octets n).reverse.map UInt8.toNat = Nat.digits 256 n := by
    simp only [octets, List.map_reverse, List.reverse_reverse, List.map_map]
    refine (List.map_congr_left fun d mem => ?_).trans (List.map_id _)
    exact ofNat_toNat (Nat.digits_lt_base (by decide) mem)
  rw [fromBytes, digits, Nat.ofDigits_digits]

lemma octets_fromBytes {d : Data} (lead : d.head? ≠ some 0) : octets (fromBytes d) = d := by
  have small : ∀ x ∈ d.reverse.map UInt8.toNat, x < 256 := by
    intro x mem
    obtain ⟨b, -, rfl⟩ := List.mem_map.mp mem
    exact b.toNat_lt
  have last : ∀ h : d.reverse.map UInt8.toNat ≠ [], (d.reverse.map UInt8.toNat).getLast h ≠ 0 := by
    intro h zero
    have nonempty : d ≠ [] := by
      rintro rfl
      exact h rfl
    obtain ⟨b, rest, rfl⟩ := List.exists_cons_of_ne_nil nonempty
    simp only [List.reverse_cons, List.map_append, List.map_cons, List.map_nil,
      List.getLast_append_singleton] at zero
    exact lead (congrArg some (UInt8.toNat_inj.mp zero))
  rw [octets, fromBytes, Nat.digits_ofDigits 256 (by decide) _ small last]
  simp only [List.map_reverse, List.reverse_reverse, List.map_map]
  refine (List.map_congr_left fun b _ => ?_).trans (List.map_id d)
  exact UInt8.ofNat_toNat

lemma fromBytes_lt (d : Data) : fromBytes d < 256 ^ d.length := by
  have small : ∀ x ∈ d.reverse.map UInt8.toNat, x < 256 := by
    intro x mem
    obtain ⟨b, -, rfl⟩ := List.mem_map.mp mem
    exact b.toNat_lt
  have bound := Nat.ofDigits_lt_base_pow_length (by decide) small
  rwa [List.length_map, List.length_reverse] at bound

lemma octets_length {n k : ℕ} : (octets n).length ≤ k ↔ n < 256 ^ k := by
  rw [octets, List.length_map, List.length_reverse]
  exact Nat.digits_length_le_iff (by decide) n

/-- No way to write a number needs fewer octets. -/
lemma octets_shortest (d : Data) : (octets (fromBytes d)).length ≤ d.length :=
  octets_length.mpr (fromBytes_lt d)

lemma octets_lead {n : ℕ} (pos : 0 < n) : (octets n).head? ≠ some 0 := by
  have nonempty : Nat.digits 256 n ≠ [] := Nat.digits_ne_nil_iff_ne_zero.mpr (by omega)
  intro zero
  rw [octets, List.map_reverse, List.head?_reverse, List.getLast?_map,
    List.getLast?_eq_some_getLast nonempty] at zero
  have last := Option.some.inj zero
  have small : (Nat.digits 256 n).getLast nonempty < 256 :=
    Nat.digits_lt_base (by decide) (List.getLast_mem nonempty)
  have same := congrArg UInt8.toNat last
  rw [ofNat_toNat small] at same
  exact Nat.getLast_digit_ne_zero 256 (by omega) same

lemma readLength_encode {n : ℕ} (fits : n < 256 ^ 4) (rest : Data) :
    readLength (encodeLength n ++ rest) = .ok (n, rest) := by
  by_cases short : n < 128
  · have size : (UInt8.ofNat n).toNat = n := ofNat_toNat (by omega)
    have bit : UInt8.ofNat n &&& 0x80 = 0 := (short_iff _).mpr (by omega)
    simp only [encodeLength, if_pos short, List.singleton_append, readLength, if_pos bit, size]
  · have few : (octets n).length ≤ 4 := octets_length.mpr fits
    have some_ : 0 < (octets n).length := by
      by_contra none_
      have zero : n < 256 ^ 0 := octets_length.mp (by omega)
      omega
    have size : (UInt8.ofNat (128 + (octets n).length)).toNat = 128 + (octets n).length :=
      ofNat_toNat (by omega)
    have bit : ¬UInt8.ofNat (128 + (octets n).length) &&& 0x80 = 0 := by
      rw [short_iff]
      omega
    have count : (UInt8.ofNat (128 + (octets n).length) &&& 0x7F).toNat = (octets n).length := by
      rw [count_eq]
      omega
    have lead : (octets n ++ rest).head? ≠ some 0 := by
      rw [List.head?_append_of_ne_nil _ (List.length_pos_iff.mp some_)]
      exact octets_lead (by omega)
    have ok : ¬((octets n).length < 1 ∨ 4 < (octets n).length ∨
        (octets n ++ rest).length < (octets n).length ∨ (octets n ++ rest).head? = some 0) := by
      rintro (h | h | h | h)
      · omega
      · omega
      · rw [List.length_append] at h
        omega
      · exact lead h
    simp only [encodeLength, if_neg short, List.cons_append, readLength, if_neg bit, count, if_neg ok,
      List.take_left, fromBytes_octets, List.drop_left]

lemma readLength_eq {d rest : Data} {n : ℕ} (h : readLength d = .ok (n, rest)) :
    n < 256 ^ 4 ∧ d = encodeLength n ++ rest := by
  cases d with
  | nil => cases h
  | cons size d =>
    simp only [readLength] at h
    split_ifs at h with bit bad low
    · cases h
      have short := (short_iff size).mp bit
      refine ⟨by omega, ?_⟩
      rw [encodeLength, if_pos short, UInt8.ofNat_toNat]
      rfl
    · cases h
      have long := mt (short_iff size).mpr bit
      have range := size.toNat_lt
      simp only [count_eq, not_or, not_lt] at bad low ⊢
      obtain ⟨least, most, there, lead⟩ := bad
      have length : (d.take (size.toNat % 128)).length = size.toNat % 128 := List.length_take_of_le there
      have same : octets (fromBytes (d.take (size.toNat % 128))) = d.take (size.toNat % 128) := by
        refine octets_fromBytes fun zero => lead ?_
        rw [List.head?_take] at zero
        split_ifs at zero
        exact zero
      constructor
      · calc fromBytes (d.take (size.toNat % 128))
            < 256 ^ (d.take (size.toNat % 128)).length := fromBytes_lt _
          _ ≤ 256 ^ 4 := Nat.pow_le_pow_right (by decide) (by omega)
      · have head : UInt8.ofNat (128 + size.toNat % 128) = size := by
          rw [← UInt8.toNat_inj, ofNat_toNat (by omega)]
          omega
        rw [encodeLength, if_neg (by omega), same, length, head, List.cons_append, List.take_append_drop]

/-! ## Fields -/

lemma readField_encode {f : Field} (formed : f.Formed) (rest : Data) :
    readField (f.encode ++ rest) = .ok (f, rest) := by
  have tag : ¬f.tag &&& 0x1F = 0x1F := mt (low_iff f.tag).mp formed.low
  have length := readLength_encode formed.fits (f.value ++ rest)
  obtain ⟨size, more, split⟩ : ∃ size more, encodeLength f.value.length = size :: more := by
    rw [encodeLength]
    split_ifs <;> exact ⟨_, _, rfl⟩
  rw [split, List.cons_append] at length
  have long : ¬(f.value ++ rest).length < f.value.length := by simp
  simp only [Field.encode, split, List.cons_append, List.append_assoc, readField, if_neg tag, length,
    bind, Except.bind, if_neg long, List.take_left, List.drop_left]

lemma readField_eq {d rest : Data} {f : Field} (h : readField d = .ok (f, rest)) :
    f.Formed ∧ d = f.encode ++ rest := by
  rcases d with - | ⟨tag, - | ⟨size, d⟩⟩
  · cases h
  · cases h
  · simp only [readField] at h
    split_ifs at h with bit
    cases read : readLength (size :: d) with
    | error e =>
      rw [read] at h
      cases h
    | ok p =>
      obtain ⟨n, after⟩ := p
      obtain ⟨fits, split⟩ := readLength_eq read
      rw [read] at h
      simp only [bind, Except.bind] at h
      split_ifs at h with short
      cases h
      have length : (after.take n).length = n := List.length_take_of_le (by omega)
      refine ⟨⟨mt (low_iff tag).mpr bit, by rw [length]; exact fits⟩, ?_⟩
      rw [Field.encode, length, split, List.cons_append, List.append_assoc, List.take_append_drop]

lemma derFields_step {d : Data} (some_ : d ≠ []) :
    derFields d = (readField d).bind fun p => (derFields p.2).map fun l => p.1 :: l := by
  rw [derFields, if_neg some_]
  split
  · next e read => rw [read]; rfl
  · next f rest read =>
    rw [read]
    simp only [Except.bind]
    cases derFields rest <;> rfl

/-- `der_fields` accepts the encodings of lists of formed fields, and returns these. -/
theorem derFields_iff {d : Data} {l : List Field} :
    derFields d = .ok l ↔ (∀ f ∈ l, f.Formed) ∧ d = encodeAll l := by
  constructor
  · intro h
    induction l generalizing d with
    | nil =>
      by_cases none_ : d = []
      · exact ⟨by simp, none_⟩
      · rw [derFields_step none_] at h
        cases read : readField d with
        | error e =>
          rw [read] at h
          cases h
        | ok p =>
          rw [read] at h
          simp only [Except.bind] at h
          cases rest : derFields p.2 with
          | error e =>
            rw [rest] at h
            cases h
          | ok m =>
            rw [rest] at h
            cases h
    | cons f l ih =>
      have some_ : d ≠ [] := by
        rintro rfl
        rw [derFields] at h
        cases h
      rw [derFields_step some_] at h
      cases read : readField d with
      | error e =>
        rw [read] at h
        cases h
      | ok p =>
        rw [read] at h
        simp only [Except.bind] at h
        cases rest : derFields p.2 with
        | error e =>
          rw [rest] at h
          cases h
        | ok m =>
          rw [rest] at h
          cases h
          obtain ⟨formed, split⟩ := readField_eq read
          obtain ⟨others, tail⟩ := ih rest
          refine ⟨List.forall_mem_cons.mpr ⟨formed, others⟩, ?_⟩
          rw [split, tail]
          rfl
  · rintro ⟨formed, rfl⟩
    induction l with
    | nil =>
      rw [encodeAll, List.flatMap_nil, derFields]
      rfl
    | cons f l ih =>
      have first := readField_encode (formed f List.mem_cons_self) (encodeAll l)
      have rest := ih fun g mem => formed g (List.mem_cons_of_mem f mem)
      have whole : encodeAll (f :: l) = f.encode ++ encodeAll l := rfl
      have some_ : encodeAll (f :: l) ≠ [] := by simp [whole, Field.encode]
      rw [derFields_step some_, whole, first]
      simp only [Except.bind, rest]
      rfl

/-! ## The check -/

/-- A field of the given tag. -/
def tagged (tag : UInt8) (value : Data) : Field := ⟨tag, value⟩

/-- One `SEQUENCE` of `SEQUENCE`, `SEQUENCE` and `BIT STRING`, of which the first holds the integer
zero, two sequences and an empty `[0]`. -/
def Attributeless (der : Data) : Prop :=
  ∃ subject key algorithm signature,
    let info := [tagged 0x02 [0x00], tagged 0x30 subject, tagged 0x30 key, tagged 0xA0 []]
    let request := [tagged 0x30 (encodeAll info), tagged 0x30 algorithm, tagged 0x03 signature]
    let outer := tagged 0x30 (encodeAll request)
    outer.Formed ∧ der = outer.encode

lemma encodeAll_length {l : List Field} {f : Field} (mem : f ∈ l) :
    f.value.length ≤ (encodeAll l).length := by
  induction l with
  | nil => cases mem
  | cons g l ih =>
    have split : (encodeAll (g :: l)).length = g.encode.length + (encodeAll l).length := by
      simp [encodeAll]
    rcases List.mem_cons.mp mem with rfl | mem
    · have : f.value.length ≤ f.encode.length := by
        simp only [Field.encode, List.length_cons, List.length_append]
        omega
      omega
    · have := ih mem
      omega

/-- Fields of low tags inside a value that fits are formed. -/
lemma formed_inside {l : List Field} (low : ∀ f ∈ l, f.tag.toNat % 32 ≠ 31)
    (fits : (encodeAll l).length < 256 ^ 4) : ∀ f ∈ l, f.Formed := by
  intro f mem
  have := encodeAll_length mem
  exact ⟨low f mem, by omega⟩

lemma tags_four {l : List Field} {a b c d : UInt8} (h : l.map (·.tag) = [a, b, c, d]) :
    ∃ v w x y, l = [⟨a, v⟩, ⟨b, w⟩, ⟨c, x⟩, ⟨d, y⟩] := by
  obtain ⟨f, l₁, rfl, rfl, h₁⟩ := List.map_eq_cons_iff.mp h
  obtain ⟨g, l₂, rfl, rfl, h₂⟩ := List.map_eq_cons_iff.mp h₁
  obtain ⟨i, l₃, rfl, rfl, h₃⟩ := List.map_eq_cons_iff.mp h₂
  obtain ⟨j, l₄, rfl, rfl, h₄⟩ := List.map_eq_cons_iff.mp h₃
  rw [List.map_eq_nil_iff] at h₄
  subst h₄
  exact ⟨f.value, g.value, i.value, j.value, rfl⟩

lemma tags_three {l : List Field} {a b c : UInt8} (h : l.map (·.tag) = [a, b, c]) :
    ∃ v w x, l = [⟨a, v⟩, ⟨b, w⟩, ⟨c, x⟩] := by
  obtain ⟨f, l₁, rfl, rfl, h₁⟩ := List.map_eq_cons_iff.mp h
  obtain ⟨g, l₂, rfl, rfl, h₂⟩ := List.map_eq_cons_iff.mp h₁
  obtain ⟨i, l₃, rfl, rfl, h₃⟩ := List.map_eq_cons_iff.mp h₂
  rw [List.map_eq_nil_iff] at h₃
  subst h₃
  exact ⟨f.value, g.value, i.value, rfl⟩

lemma validate_sound {der : Data} (h : validateClientCsrAttributes der = .ok ()) :
    Attributeless der := by
  simp only [validateClientCsrAttributes, bind, Except.bind] at h
  split at h
  · cases h
  rename_i outer outside
  split at h
  · rename_i body
    split at h
    · cases h
    rename_i request inside
    split_ifs at h with tags
    obtain ⟨first, algorithm, signature, rfl⟩ := tags_three tags
    split at h
    · cases h
    rename_i info fields
    split_ifs at h with checks
    obtain ⟨infoTags, zero, empty⟩ := checks
    obtain ⟨version, subject, key, attributes, rfl⟩ := tags_four infoTags
    simp only [List.map_cons, List.map_nil, List.getElem?_cons_zero, List.getElem?_cons_succ,
      Option.some.injEq] at zero empty
    subst zero empty
    obtain ⟨formed, rfl⟩ := derFields_iff.mp outside
    obtain ⟨-, rfl⟩ := derFields_iff.mp inside
    obtain ⟨-, same⟩ := derFields_iff.mp fields
    simp only [List.map_cons, List.headD_cons] at same
    subst same
    exact ⟨subject, key, algorithm, signature, formed _ List.mem_cons_self,
      by simp [encodeAll, tagged]⟩
  · cases h

lemma validate_complete {der : Data} (h : Attributeless der) :
    validateClientCsrAttributes der = .ok () := by
  obtain ⟨subject, key, algorithm, signature, formed, rfl⟩ := h
  set info := [tagged 0x02 [0x00], tagged 0x30 subject, tagged 0x30 key, tagged 0xA0 []] with infoEq
  set request := [tagged 0x30 (encodeAll info), tagged 0x30 algorithm, tagged 0x03 signature]
    with requestEq
  have outside : derFields (tagged 0x30 (encodeAll request)).encode =
      .ok [tagged 0x30 (encodeAll request)] := by
    refine derFields_iff.mpr ⟨List.forall_mem_singleton.mpr formed, ?_⟩
    simp [encodeAll]
  have fits : (encodeAll request).length < 256 ^ 4 := formed.fits
  have inside : derFields (encodeAll request) = .ok request := by
    refine derFields_iff.mpr ⟨formed_inside ?_ fits, rfl⟩
    rw [requestEq]
    simp [tagged]
  have within : (encodeAll info).length ≤ (encodeAll request).length :=
    encodeAll_length (f := tagged 0x30 (encodeAll info)) (by rw [requestEq]; exact List.mem_cons_self)
  have fields : derFields (encodeAll info) = .ok info := by
    refine derFields_iff.mpr ⟨formed_inside ?_ (by omega), rfl⟩
    rw [infoEq]
    simp [tagged]
  have head : (request.map (·.value)).headD [] = encodeAll info := rfl
  simp only [validateClientCsrAttributes, bind, Except.bind, outside]
  rw [show tagged 0x30 (encodeAll request) = ⟨0x30, encodeAll request⟩ from rfl]
  simp only [inside, head, fields]
  rfl

/-- `der_fields` accepts exactly the concatenations of fields and returns them, and a client request
is accepted exactly when it has no attributes. -/
theorem csr_attributes_exact :
    (∀ d l, derFields d = .ok l ↔ (∀ f ∈ l, f.Formed) ∧ d = encodeAll l) ∧
      ∀ der, validateClientCsrAttributes der = .ok () ↔ Attributeless der :=
  ⟨fun _ _ => derFields_iff, fun _ => ⟨validate_sound, validate_complete⟩⟩

end PlatformConfig.ClientCsr
