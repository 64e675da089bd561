import PlatformConfig.AllowedSigners
import PlatformConfig.RecordCodec
import PlatformConfig.TrustHistory

/-!
# The journal of a trust installation

The text of the journal, its parser, and the check that it belongs to the requested trust identity.
The check takes two directory identities out of the record as integers and compares the record with
the one that they make.
-/
namespace PlatformConfig.TrustJournal

open AllowedSigners RecordCodec RecordText
open GuardPlan (matchesHex isLowerHex)
open TrustHistory (isTrustId)
open TrustInstall (Transaction)
open TrustTree (TrustName validateText maxTrustSize)

/-- `JOURNAL_FIELDS` -/
def journalFields : List String := ["schema", "trust_id", "transaction_id", "ingress_name", "stage_name", "target_name",
  "ingress_device", "ingress_inode", "stage_device", "stage_inode", "approvers_sha256", "policy_sha256",
  "requesters_sha256", "responses_sha256"]

/-- `serialize_journal`, which raises for a value that is missing or not ASCII. -/
def serializeJournal (m : Values) : Option Bytes :=
  (journalFields.mapM fun n => m.lookup n).bind fun values => encodeAscii (recordText journalFields values)

/-- `parse_journal` -/
def parseJournal (d : Bytes) : Option Values :=
  (validateText d).bind fun text =>
    (readFields (· ≠ []) journalFields (splitLines text)).map (collect journalFields)

/-- What `validate_bindings` has accepted. -/
structure Reviewed where
  trustId : String
  digest : TrustName → String
  named : isTrustId trustId = true
  digests : ∀ n, matchesHex 64 (digest n) = true

/-- The values of a journal in the order of its fields. -/
def journalTexts (a : Reviewed) (tx : String) (ingress stage : ℤ × ℤ) : List String :=
  ["3", a.trustId, tx, ".ingress-" ++ a.trustId, ".stage-" ++ a.trustId ++ "-" ++ tx, a.trustId,
    ingress.1.repr, ingress.2.repr, stage.1.repr, stage.2.repr,
    a.digest .approvers, a.digest .policy, a.digest .requesters, a.digest .responses]

/-- `journal_values` -/
def journalValues (a : Reviewed) (tx : String) (ingress stage : ℤ × ℤ) : Values :=
  collect journalFields (journalTexts a tx ingress stage)

/-- The white space of ASCII. -/
def isSpace (c : Char) : Bool := c = ' ' || 9 ≤ c.toNat && c.toNat ≤ 13 || 28 ≤ c.toNat && c.toNat ≤ 31

def strip (t : Text) : Text := ((t.dropWhile isSpace).reverse.dropWhile isSpace).reverse

/-- Digits, with single underscores between them. -/
def natural (t : Text) : Option ℕ :=
  if (t.splitOn '_').all isDigits && (t.splitOn '_').flatten.length ≤ 4300 then
    some (Nat.ofDigitChars 10 (t.splitOn '_').flatten 0)
  else none

/-- `int` of ASCII text. -/
def integer (s : String) : Option ℤ :=
  match strip s.toList with
  | '-' :: t => (natural t).map fun n => -(n : ℤ)
  | '+' :: t => (natural t).map Nat.cast
  | t => (natural t).map Nat.cast

/-- The identity that two fields of a record have. -/
def identityOf (m : Values) (device inode : String) : Option (ℤ × ℤ) := do
  let d ← (m.lookup device).bind integer
  let i ← (m.lookup inode).bind integer
  return (d, i)

/-- `validate_journal` -/
def validateJournal (a : Reviewed) (m : Values) : Bool :=
  match m.lookup "transaction_id", identityOf m "ingress_device" "ingress_inode",
    identityOf m "stage_device" "stage_inode" with
  | some tx, some ingress, some stage =>
    m.lookup "schema" = some "3" && matchesHex 32 tx && m = journalValues a tx ingress stage
  | _, _, _ => false

/-- Device and inode of a directory, as the system reports them. -/
structure Directory where
  device : UInt64
  inode : UInt64

def Directory.identity (d : Directory) : ℤ × ℤ := (d.device.toNat, d.inode.toNat)

/-! ## Values of a record -/

section Collected
variable {names values : List String}

lemma lookup_zip (distinct : names.Nodup) (same : names.length = values.length) {n v : String}
    (mem : (n, v) ∈ names.zip values) : (collect names values).lookup n = some v := by
  obtain ⟨w, found, there⟩ := collect_value same (List.of_mem_zip mem).1
  have keys : ((names.zip values).map Prod.fst).Nodup := by rwa [List.map_fst_zip (by omega)]
  have pair := List.inj_on_of_nodup_map keys there mem rfl
  rw [found, (Prod.mk.inj pair).2]

lemma mapM_of_forall₂ {α β : Type} {f : α → Option β} {xs : List α} {ys : List β}
    (h : List.Forall₂ (fun x y => f x = some y) xs ys) : xs.mapM f = some ys := by
  induction h with
  | nil => rfl
  | cons first _ ih =>
    rw [List.mapM_cons, first, ih]
    rfl

/-- The values of the fields, in their order. -/
lemma mapM_lookup (distinct : names.Nodup) (same : names.length = values.length) :
    (names.mapM fun n => (collect names values).lookup n) = some values := by
  refine mapM_of_forall₂ (List.forall₂_iff_zip.mpr ⟨same, fun mem => ?_⟩)
  exact lookup_zip distinct same mem

end Collected

lemma fields_distinct : journalFields.Nodup := by decide

/-! ## Integers of a record -/

lemma strip_digits {t : Text} (digits : ∀ c ∈ t, c.isDigit = true) : strip t = t := by
  have solid : ∀ c ∈ t, isSpace c = false := by
    intro c mem
    have digit := digits c mem
    simp only [Char.isDigit, Bool.and_eq_true, decide_eq_true_eq, ge_iff_le, UInt32.le_iff_toNat_le] at digit
    have low : 48 ≤ c.toNat := digit.1
    have other : c ≠ ' ' := by
      rintro rfl
      exact absurd low (by decide)
    simp only [isSpace, Bool.or_eq_false_iff, Bool.and_eq_false_iff, decide_eq_false_iff_not]
    exact ⟨⟨other, .inr (by omega)⟩, .inr (by omega)⟩
  have front {u : Text} (solid : ∀ c ∈ u, isSpace c = false) : u.dropWhile isSpace = u := by
    cases u with
    | nil => rfl
    | cons c u => rw [List.dropWhile_cons, solid c List.mem_cons_self, if_neg Bool.false_ne_true]
  rw [strip, front solid, front fun c mem => solid c (List.mem_reverse.mp mem), List.reverse_reverse]

/-- A number of 64 bits is read back from its digits. -/
lemma integer_repr {n : ℕ} (short : n < 2 ^ 64) : integer (n : ℤ).repr = some (n : ℤ) := by
  have digits : ∀ c ∈ Nat.toDigits 10 n, c.isDigit = true := fun c mem =>
    Nat.isDigit_of_mem_toDigits (by decide) (by decide) mem
  have text : (n : ℤ).repr.toList = Nat.toDigits 10 n := Nat.toList_repr
  have whole : (Nat.toDigits 10 n).splitOn '_' = [Nat.toDigits 10 n] := by
    refine List.splitOnP_eq_singleton fun c mem => beq_eq_false_iff_ne.mpr fun same => ?_
    exact absurd (digits '_' (same ▸ mem)) (by decide)
  have length : (Nat.toDigits 10 n).length ≤ 20 :=
    (Nat.length_toDigits_le_iff (by decide) (by decide)).mpr (lt_trans short (by decide))
  have read : natural (Nat.toDigits 10 n) = some n := by
    have all : isDigits (Nat.toDigits 10 n) = true := by
      rw [isDigits, Bool.and_eq_true, decide_eq_true_eq, List.all_eq_true]
      exact ⟨Nat.toDigits_ne_nil, digits⟩
    rw [natural, whole, List.flatten_cons, List.flatten_nil, List.append_nil, Nat.ofDigitChars_ten_toDigits, if_pos]
    simp only [List.all_cons, List.all_nil, all, Bool.and_true, Bool.true_and, decide_eq_true_eq]
    omega
  rw [integer, text, strip_digits digits]
  split
  · next t signed => exact absurd (digits '-' (by rw [signed]; simp)) (by decide)
  · next t signed => exact absurd (digits '+' (by rw [signed]; simp)) (by decide)
  · rw [read, Option.map_some]

/-! ## A journal and its text -/

lemma journal_visible : ∀ n ∈ journalFields, n.toList.all isVisible = true ∧ '=' ∉ n.toList := by decide

/-- A list of values for the fields, as a record and as a text. -/
lemma serialize_collect {values : List String} (same : journalFields.length = values.length)
    (ascii : ∀ c ∈ recordText journalFields values, c.toNat < 128) :
    serializeJournal (collect journalFields values) = some (encode (recordText journalFields values)) := by
  have small : (recordText journalFields values).all (·.toNat < 128) = true :=
    List.all_eq_true.mpr fun c mem => decide_eq_true (ascii c mem)
  rw [serializeJournal, mapM_lookup fields_distinct same, Option.bind_some, encodeAscii, if_pos small]

/-- What the parser accepts is the text of the values that it returns. -/
theorem parse_serialize {d : Bytes} {m : Values} (parsed : parseJournal d = some m) : serializeJournal m = some d := by
  obtain ⟨text, valid, read⟩ := Option.bind_eq_some_iff.mp parsed
  obtain ⟨values, fields, rfl⟩ := Option.map_eq_some_iff.mp read
  obtain ⟨⟨-, last, -, printable⟩, decoded⟩ := validateText_eq.mp valid
  obtain ⟨lines, same, -, -⟩ := readFields_eq fields
  obtain ⟨whole, ascii⟩ := encode_decode decoded
  have ends : text.getLast? = some '\n' := (getLast_encode ascii (by decide)).mp (by rw [whole, last]; rfl)
  have plain : ∀ c ∈ text, isBreak c = true → c = '\n' := by
    intro c mem break_
    refine printable_control ascii (by rwa [whole]) c mem ?_
    simp only [isBreak, Bool.or_eq_true, decide_eq_true_eq] at break_
    rcases break_ with (((((rfl | rfl) | rfl) | rfl) | rfl) | rfl) | rfl
    all_goals decide
  have record : recordText journalFields values = text := by
    rw [recordText, ← lines, unlines_splitLines plain ends]
  rw [serialize_collect same (by rwa [record]), record, whole]

/-! ## The values of a journal are words -/

/-- A nonempty text of visible characters with a bound on its length. -/
def Word (bound : ℕ) (s : String) : Prop := isToken s.toList = true ∧ s.toList.length ≤ bound

lemma Word.append {s t : String} {m n : ℕ} (hs : Word m s) (ht : Word n t) : Word (m + n) (s ++ t) := by
  obtain ⟨first, short⟩ := hs
  obtain ⟨second, short'⟩ := ht
  simp only [isToken, Bool.and_eq_true, decide_eq_true_eq] at first second
  refine ⟨?_, by rw [String.toList_append, List.length_append]; omega⟩
  rw [isToken, String.toList_append, List.all_append, first.2, second.2]
  simp [first.1]

lemma visible_alphanum {c : Char} (h : c.isAlphanum = true) : isVisible c = true := by
  simp only [Char.isAlphanum, Char.isAlpha, Char.isUpper, Char.isLower, Char.isDigit, Bool.or_eq_true, Bool.and_eq_true,
    decide_eq_true_eq, ge_iff_le, UInt32.le_iff_toNat_le] at h
  have bounds : 48 ≤ c.toNat ∧ c.toNat ≤ 122 := by
    rcases h with (⟨low, high⟩ | ⟨low, high⟩) | ⟨low, high⟩
    all_goals exact ⟨le_trans (by decide) low, le_trans high (by decide)⟩
  simp only [isVisible, Bool.and_eq_true, decide_eq_true_eq]
  omega

lemma word_trustId {s : String} (h : isTrustId s = true) : Word 128 s := by
  unfold isTrustId at h
  split at h
  · cases h
  · next c cs text =>
    simp only [Bool.and_eq_true, decide_eq_true_eq, List.all_eq_true, Bool.or_eq_true] at h
    obtain ⟨⟨first, short⟩, others⟩ := h
    refine ⟨?_, by rw [text, List.length_cons]; omega⟩
    rw [isToken, text]
    simp only [ne_eq, reduceCtorEq, not_false_eq_true, decide_true, Bool.true_and, List.all_cons, Bool.and_eq_true,
      List.all_eq_true]
    refine ⟨visible_alphanum first, fun d mem => ?_⟩
    rcases others d mem with ((alphanum | rfl) | rfl) | rfl
    · exact visible_alphanum alphanum
    all_goals decide

lemma word_hex {n : ℕ} {s : String} (some_ : 0 < n) (h : matchesHex n s = true) : Word n s := by
  simp only [matchesHex, Bool.and_eq_true, decide_eq_true_eq, List.all_eq_true] at h
  obtain ⟨length, digits⟩ := h
  refine ⟨?_, le_of_eq length⟩
  simp only [isToken, Bool.and_eq_true, decide_eq_true_eq, List.all_eq_true]
  refine ⟨fun none_ => ?_, fun c mem => ?_⟩
  · rw [none_, List.length_nil] at length
    omega
  · have digit := digits c mem
    simp only [isLowerHex, Bool.or_eq_true, Bool.and_eq_true, decide_eq_true_eq] at digit
    rcases digit with digit | ⟨low, high⟩
    · exact visible_alphanum (by rw [Char.isAlphanum, digit, Bool.or_true])
    · have above : 97 ≤ c.toNat := UInt32.le_iff_toNat_le.mp (Char.le_def.mp low)
      have below : c.toNat ≤ 102 := UInt32.le_iff_toNat_le.mp (Char.le_def.mp high)
      simp only [isVisible, Bool.and_eq_true, decide_eq_true_eq]
      omega

lemma word_number (n : UInt64) : Word 20 (n.toNat : ℤ).repr := by
  have text : (n.toNat : ℤ).repr.toList = Nat.toDigits 10 n.toNat := Nat.toList_repr
  have length : (Nat.toDigits 10 n.toNat).length ≤ 20 :=
    (Nat.length_toDigits_le_iff (by decide) (by decide)).mpr (lt_trans n.toNat_lt (by decide))
  refine ⟨?_, by rwa [text]⟩
  rw [isToken, text, Bool.and_eq_true, decide_eq_true_eq, List.all_eq_true]
  refine ⟨Nat.toDigits_ne_nil, fun c mem => visible_alphanum ?_⟩
  rw [Char.isAlphanum, Nat.isDigit_of_mem_toDigits (by decide) (by decide) mem, Bool.or_true]

/-- The values of a journal, each with the bound of its field. -/
lemma journal_words (a : Reviewed) (tx : Transaction) (ingress stage : Directory) :
    List.Forall₂ Word [1, 128, 32, 9 + 128, 7 + 128 + 1 + 32, 128, 20, 20, 20, 20, 64, 64, 64, 64]
      (journalTexts a tx.val ingress.identity stage.identity) := by
  have id := word_trustId a.named
  have transaction := word_hex (by decide) tx.2
  have digest (n : TrustName) := word_hex (by decide) (a.digests n)
  have ingress_ : Word 9 ".ingress-" := ⟨by decide, by decide⟩
  have stage_ : Word 7 ".stage-" := ⟨by decide, by decide⟩
  have dash : Word 1 "-" := ⟨by decide, by decide⟩
  have schema : Word 1 "3" := ⟨by decide, by decide⟩
  simp only [journalTexts, Directory.identity, List.forall₂_cons, List.forall₂_nil_left_iff, and_true]
  exact ⟨schema, id, transaction, ingress_.append id, ((stage_.append id).append dash).append transaction, id,
    word_number _, word_number _, word_number _, word_number _, digest _, digest _, digest _, digest _⟩

/-! ## Journals that are written -/

section Written
variable {bounds : List ℕ} {names values : List String}

lemma words_tokens (words : List.Forall₂ Word bounds values) : ∀ v ∈ values, isToken v.toList = true := by
  induction words with
  | nil => simp
  | cons first _ ih => exact List.forall_mem_cons.mpr ⟨first.1, ih⟩

/-- The length of a record from the bounds of its values. -/
lemma length_recordText (words : List.Forall₂ Word bounds values) (same : names.length = values.length) :
    (recordText names values).length ≤ (names.map fun n => n.toList.length + 2).sum + bounds.sum := by
  induction words generalizing names with
  | nil => simp [recordText, unlines]
  | @cons b v bs vs first rest ih =>
    cases names with
    | nil => cases same
    | cons n names =>
      have later := ih (Nat.succ.inj same)
      have short := first.2
      simp only [recordText, List.zipWith_cons_cons, unlines, List.flatMap_cons, List.length_append, field,
        List.length_cons, List.length_nil, List.map_cons, List.sum_cons] at later ⊢
      omega

end Written

/-- The text of words is accepted, and their values are read back. -/
lemma parse_words {bounds : List ℕ} {values : List String} (words : List.Forall₂ Word bounds values)
    (same : journalFields.length = values.length)
    (fits : (journalFields.map fun n => n.toList.length + 2).sum + bounds.sum ≤ maxTrustSize) :
    parseJournal (serialize journalFields values) = some (collect journalFields values) := by
  have printable : Printable journalFields values := ⟨journal_visible, words_tokens words, same⟩
  have decoded := decode_serialize printable
  obtain ⟨front, c, text, visible⟩ := recordText_end printable (by decide)
  have ascii := (encode_decode decoded).2
  have valid : validateText (serialize journalFields values) = some (recordText journalFields values) := by
    refine validateText_eq.mpr ⟨⟨?_, ?_, ?_, ?_⟩, decoded⟩
    · rw [serialize, encode, List.length_map]
      exact le_trans (length_recordText words same) fits
    · refine (getLast_encode (c := '\n') ascii (by decide)).mpr ?_
      simp [text]
    · have drop : (serialize journalFields values).dropLast = encode (front ++ [c]) := by
        rw [serialize, text, encode, encode, ← List.map_dropLast]
        simp
      have before : ∀ d ∈ front ++ [c], d.toNat < 128 := by
        intro d mem
        rcases List.mem_append.mp mem with mem | mem
        · exact ascii d (by rw [text]; simp [mem])
        · exact ascii d (by rw [text]; simp_all)
      rw [drop]
      intro feed
      have last := (getLast_encode (c := '\n') before (by decide)).mp feed
      rw [List.getLast?_append, List.getLast?_singleton] at last
      obtain rfl := Option.some.inj last
      exact absurd visible (by decide)
    · intro b mem
      obtain ⟨d, in_, rfl⟩ := List.mem_map.mp mem
      have small := ascii d in_
      rw [UInt8.toNat_ofNat', Nat.mod_eq_of_lt (by omega)]
      rcases recordText_mem printable in_ with visible | rfl
      · simp only [isVisible, Bool.and_eq_true, decide_eq_true_eq] at visible
        omega
      · decide
  rw [parseJournal, valid, Option.bind_some, readFields_recordText printable fun t token => ?_, Option.map_some]
  simp only [isToken, Bool.and_eq_true] at token
  exact token.1

/-! ## The codec and the binding -/

section Exact
variable {a : Reviewed} {m : Values} {d : Bytes}

/-- What a record says of its transaction and of its two directories. -/
structure Recorded (m : Values) (tx : String) (ingress stage : ℤ × ℤ) : Prop where
  transaction : m.lookup "transaction_id" = some tx
  ingress : identityOf m "ingress_device" "ingress_inode" = some ingress
  stage : identityOf m "stage_device" "stage_inode" = some stage

lemma validateJournal_iff : validateJournal a m = true ↔ ∃ tx ingress stage, Recorded m tx ingress stage ∧
    m.lookup "schema" = some "3" ∧ matchesHex 32 tx = true ∧ m = journalValues a tx ingress stage := by
  unfold validateJournal
  constructor
  · intro valid
    split at valid
    · next tx ingress stage ht hi hs =>
      simp only [Bool.and_eq_true, decide_eq_true_eq] at valid
      obtain ⟨⟨schema, hex⟩, same⟩ := valid
      exact ⟨tx, ingress, stage, ⟨ht, hi, hs⟩, schema, hex, same⟩
    · cases valid
  · rintro ⟨tx, ingress, stage, ⟨ht, hi, hs⟩, schema, hex, same⟩
    rw [ht, hi, hs]
    simp only [schema, hex, ← same, decide_true, Bool.and_self]

lemma journalTexts_length (tx : String) (ingress stage : ℤ × ℤ) :
    journalFields.length = (journalTexts a tx ingress stage).length := rfl

lemma lookup_journal {tx : String} {ingress stage : ℤ × ℤ} {n v : String}
    (mem : (n, v) ∈ journalFields.zip (journalTexts a tx ingress stage)) :
    (journalValues a tx ingress stage).lookup n = some v :=
  lookup_zip fields_distinct (journalTexts_length tx ingress stage) mem

/-- The record of two directories has their identities. -/
lemma recorded_values (tx : Transaction) (ingress stage : Directory) :
    Recorded (journalValues a tx.val ingress.identity stage.identity) tx.val ingress.identity stage.identity := by
  have identity {device inode : String} (dir : Directory)
      (hd : (journalValues a tx.val ingress.identity stage.identity).lookup device = some (dir.identity.1).repr)
      (hi : (journalValues a tx.val ingress.identity stage.identity).lookup inode = some (dir.identity.2).repr) :
      identityOf (journalValues a tx.val ingress.identity stage.identity) device inode = some dir.identity := by
    rw [identityOf, hd, hi, Option.bind_some, Option.bind_some, Directory.identity, integer_repr dir.device.toNat_lt,
      integer_repr dir.inode.toNat_lt]
    rfl
  exact ⟨lookup_journal (by simp [journalFields, journalTexts]),
    identity ingress (lookup_journal (by simp [journalFields, journalTexts]))
      (lookup_journal (by simp [journalFields, journalTexts])),
    identity stage (lookup_journal (by simp [journalFields, journalTexts]))
      (lookup_journal (by simp [journalFields, journalTexts]))⟩

/-- A journal is read back and accepted, and what is accepted is such a journal to the byte. -/
theorem journal_exact (a : Reviewed) :
    (∀ (tx : Transaction) (ingress stage : Directory), ∃ d,
      serializeJournal (journalValues a tx.val ingress.identity stage.identity) = some d ∧
        parseJournal d = some (journalValues a tx.val ingress.identity stage.identity) ∧
          validateJournal a (journalValues a tx.val ingress.identity stage.identity) = true) ∧
      ∀ d m, parseJournal d = some m → validateJournal a m = true →
        ∃ (tx : Transaction) (ingress stage : ℤ × ℤ), Recorded m tx.val ingress stage ∧
          m = journalValues a tx.val ingress stage ∧ serializeJournal (journalValues a tx.val ingress stage) = some d := by
  constructor
  · intro tx ingress stage
    have words := journal_words a tx ingress stage
    have same := journalTexts_length (a := a) tx.val ingress.identity stage.identity
    have parsed := parse_words words same (by decide)
    refine ⟨_, parse_serialize parsed, parsed, validateJournal_iff.mpr ?_⟩
    exact ⟨tx.val, ingress.identity, stage.identity, recorded_values tx ingress stage,
      lookup_journal (by simp [journalFields, journalTexts]), tx.2, rfl⟩
  · intro d m parsed valid
    obtain ⟨tx, ingress, stage, recorded, -, hex, same⟩ := validateJournal_iff.mp valid
    exact ⟨⟨tx, hex⟩, ingress, stage, recorded, same, same ▸ parse_serialize parsed⟩

end Exact

end PlatformConfig.TrustJournal
