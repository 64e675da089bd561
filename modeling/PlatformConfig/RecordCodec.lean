import PlatformConfig.RecordText

/-!
# The record codec of the lifecycle helper

`parse_record` and `serialize_record` for any list of fields. The parser splits lines as
`str.splitlines` does, also at separators that the writer never uses.
-/
namespace PlatformConfig.RecordCodec

open RecordText

/-- The values of a record by their fields. -/
abbrev Values := Finmap fun _ : String => String

/-- Text that ends with one line feed and holds no carriage return and no zero. -/
def isCanonical (d : Bytes) : Bool :=
  d.getLast? = some 10 && d.dropLast.getLast? ≠ some 10 && !d.contains 13 && !d.contains 0

/-- The values of the lines, each under the name that its field has. -/
def collect (fields values : List String) : Values :=
  (fields.zip values).foldl (fun m p => m.insert p.1 p.2) ∅

/-- `parse_record` -/
def parseRecord (fields : List String) (d : Bytes) : Option Values :=
  if isCanonical d then
    (decode d).bind fun text => (readFields isToken fields (splitLines text)).map (collect fields)
  else none

def encodeAscii (t : Text) : Option Bytes := if t.all (·.toNat < 128) then some (encode t) else none

/-- `serialize_record` -/
def serializeRecord (fields : List String) (values : Values) : Option Bytes :=
  if values.keys = fields.toFinset ∧ ∀ n ∈ fields, isToken ((values.lookup n).getD "").toList = true then
    encodeAscii (List.intercalate ['\n'] (fields.map fun n => field n ((values.lookup n).getD "")) ++
      ['\n'])
  else none

/-- No line boundary of `str.splitlines` but a line feed or a carriage return. -/
def OnlyLineFeeds (d : Bytes) : Prop := ∀ b ∈ d, b ∉ ([0x0b, 0x0c, 0x1c, 0x1d, 0x1e] : Bytes)

/-- Lines of one name have one value. -/
def Agreeing (d : Bytes) : Prop :=
  ∀ text, decode d = some text → ∀ l ∈ splitLines text, ∀ l' ∈ splitLines text,
    ∀ n v v', splitField l = some (n, v) → splitField l' = some (n, v') → v = v'

/-- A field name that no reader takes apart: without an equals sign, a zero and a line boundary. -/
def PlainName (n : String) : Prop :=
  ∀ c ∈ n.toList, c ≠ '=' ∧ c ≠ '\x00' ∧ isBreak c = false

/-! ## Collected values -/

section Collect
variable {fields values : List String} {n v : String}

lemma lookup_foldl {l : List (String × String)} {m : Values}
    (h : (l.foldl (fun m p => m.insert p.1 p.2) m).lookup n = some v) :
    (n, v) ∈ l ∨ m.lookup n = some v := by
  induction l generalizing m with
  | nil => exact .inr h
  | cons p l ih =>
    rcases ih h with mem | found
    · exact .inl (List.mem_cons_of_mem p mem)
    · by_cases same : n = p.1
      · subst same
        rw [Finmap.lookup_insert] at found
        cases found
        exact .inl List.mem_cons_self
      · rw [Finmap.lookup_insert_of_ne _ same] at found
        exact .inr found

lemma mem_foldl {l : List (String × String)} {m : Values} :
    n ∈ l.foldl (fun m p => m.insert p.1 p.2) m ↔ n ∈ l.map Prod.fst ∨ n ∈ m := by
  induction l generalizing m with
  | nil => simp
  | cons p l ih =>
    rw [List.foldl_cons, ih, List.map_cons, List.mem_cons, Finmap.mem_insert]
    tauto

lemma lookup_collect (h : (collect fields values).lookup n = some v) :
    (n, v) ∈ fields.zip values := by
  rcases lookup_foldl h with mem | none_
  · exact mem
  · simp at none_

lemma mem_collect (same : fields.length = values.length) : n ∈ collect fields values ↔ n ∈ fields := by
  have names : (fields.zip values).map Prod.fst = fields := List.map_fst_zip (by omega)
  rw [collect, mem_foldl, names]
  simp [Finmap.notMem_empty]

/-- Each field has the value of one of its lines. -/
lemma collect_value (same : fields.length = values.length) (mem : n ∈ fields) :
    ∃ v, (collect fields values).lookup n = some v ∧ (n, v) ∈ fields.zip values := by
  obtain ⟨v, found⟩ := Finmap.mem_iff.mp ((mem_collect same).mpr mem)
  exact ⟨v, found, lookup_collect found⟩

end Collect

/-! ## Written text -/

/-- The line that is written for a field. -/
def writtenLine (m : Values) (n : String) : Text := field n ((m.lookup n).getD "")

def writtenText (fields : List String) (m : Values) : Text :=
  List.intercalate ['\n'] (fields.map (writtenLine m)) ++ ['\n']

lemma writtenText_unlines {fields : List String} {m : Values} (some_ : fields ≠ []) :
    writtenText fields m = unlines (fields.map (writtenLine m)) := by
  obtain ⟨n, fields, rfl⟩ := List.exists_cons_of_ne_nil some_
  unfold writtenText
  induction fields generalizing n with
  | nil => simp [unlines]
  | cons n' fields ih =>
    have rest := ih n' (by simp)
    simp only [List.map_cons, List.intercalate_cons_cons, List.append_assoc] at rest ⊢
    simp [unlines, rest]

lemma serializeRecord_eq {fields : List String} {m : Values} {d : Bytes} :
    serializeRecord fields m = some d ↔
      (m.keys = fields.toFinset ∧ ∀ n ∈ fields, isToken ((m.lookup n).getD "").toList = true) ∧
      (∀ c ∈ writtenText fields m, c.toNat < 128) ∧ encode (writtenText fields m) = d := by
  have same : (fields.map fun n => field n ((m.lookup n).getD "")) = fields.map (writtenLine m) := rfl
  rw [serializeRecord, Option.ite_none_right_eq_some, same, ← writtenText, encodeAscii,
    Option.ite_none_right_eq_some, Option.some.injEq, List.all_eq_true]
  simp only [decide_eq_true_eq]

lemma parseRecord_eq {fields : List String} {m : Values} {d : Bytes} :
    parseRecord fields d = some m ↔ isCanonical d = true ∧ ∃ text values, decode d = some text ∧
      readFields isToken fields (splitLines text) = some values ∧ collect fields values = m := by
  rw [parseRecord, Option.ite_none_right_eq_some, Option.bind_eq_some_iff]
  simp only [Option.map_eq_some_iff]
  constructor
  · rintro ⟨canonical, text, read, values, fields, same⟩
    exact ⟨canonical, text, values, read, fields, same⟩
  · rintro ⟨canonical, text, values, read, fields, same⟩
    exact ⟨canonical, text, read, values, fields, same⟩

lemma canonical_encode {t : Text} (ascii : ∀ c ∈ t, c.toNat < 128) :
    isCanonical (encode t) = true ↔ t.getLast? = some '\n' ∧ t.dropLast.getLast? ≠ some '\n' ∧
      '\r' ∉ t ∧ '\x00' ∉ t := by
  have front : ∀ c ∈ t.dropLast, c.toNat < 128 := fun c mem => ascii c (List.dropLast_subset t mem)
  have drop : (encode t).dropLast = encode t.dropLast := List.map_dropLast.symm
  have last := getLast_encode (c := '\n') ascii (by decide)
  have before := getLast_encode (c := '\n') front (by decide)
  have return_ := mem_encode (c := '\r') ascii (by decide)
  have zero := mem_encode (c := '\x00') ascii (by decide)
  rw [isCanonical]
  simp only [Bool.and_eq_true, decide_eq_true_eq, Bool.not_eq_true', List.contains_eq_mem,
    decide_eq_false_iff_not, drop, and_assoc]
  exact and_congr last (and_congr (not_congr before) (and_congr (not_congr return_) (not_congr zero)))

/-! ## What is read is written back -/

lemma onlyLineFeeds_encode {t : Text} (ascii : ∀ c ∈ t, c.toNat < 128) (plain : '\r' ∉ t) :
    OnlyLineFeeds (encode t) ↔ ∀ c ∈ t, isBreak c = true → c = '\n' := by
  constructor
  · intro only c mem break_
    have far := only (UInt8.ofNat c.toNat) ((mem_encode ascii (ascii c mem)).mpr mem)
    simp only [isBreak, Bool.or_eq_true, decide_eq_true_eq] at break_
    rcases break_ with (((((rfl | rfl) | rfl) | rfl) | rfl) | rfl) | rfl
    · rfl
    · exact absurd mem plain
    all_goals exact absurd (by decide) far
  · intro only b mem far
    obtain ⟨c, in_, rfl⟩ := List.mem_map.mp mem
    have other : ∀ d : Char, d.toNat < 128 → isBreak d = true → d ≠ '\n' →
        UInt8.ofNat c.toNat ≠ UInt8.ofNat d.toNat := by
      intro d small break_ apart same
      obtain rfl := (byte_eq (ascii c in_) small).mp same
      exact apart (only c in_ break_)
    simp only [List.mem_cons, List.not_mem_nil, or_false] at far
    rcases far with far | far | far | far | far
    · exact other '\x0b' (by decide) (by decide) (by decide) far
    · exact other '\x0c' (by decide) (by decide) (by decide) far
    · exact other '\x1c' (by decide) (by decide) (by decide) far
    · exact other '\x1d' (by decide) (by decide) (by decide) far
    · exact other '\x1e' (by decide) (by decide) (by decide) far

/-- An accepted record: its text, the values of its lines, and what is written from them. -/
structure Accepted (fields : List String) (d : Bytes) (m : Values) (text : Text)
    (values : List String) : Prop where
  canonical : isCanonical d = true
  decoded : decode d = some text
  lines : splitLines text = List.zipWith field fields values
  length : fields.length = values.length
  names : ∀ n ∈ fields, '=' ∉ n.toList
  tokens : ∀ v ∈ values, isToken v.toList = true
  collected : collect fields values = m

section Accepted
variable {fields : List String} {d : Bytes} {m : Values} {text : Text} {values : List String}

lemma parseRecord_accepted (h : parseRecord fields d = some m) :
    ∃ text values, Accepted fields d m text values := by
  obtain ⟨canonical, text, values, decoded, read, collected⟩ := parseRecord_eq.mp h
  obtain ⟨lines, length, names, tokens⟩ := readFields_eq read
  exact ⟨text, values, canonical, decoded, lines, length, names, tokens, collected⟩

lemma Accepted.ascii (h : Accepted fields d m text values) : ∀ c ∈ text, c.toNat < 128 :=
  (encode_decode h.decoded).2

lemma Accepted.shape (h : Accepted fields d m text values) :
    text.getLast? = some '\n' ∧ text.dropLast.getLast? ≠ some '\n' ∧ '\r' ∉ text ∧ '\x00' ∉ text := by
  rw [← canonical_encode h.ascii, (encode_decode h.decoded).1]
  exact h.canonical

lemma Accepted.nonempty (h : Accepted fields d m text values) : fields ≠ [] := by
  rintro rfl
  have none_ := congrArg List.length h.lines
  rw [length_splitLines h.shape.2.2.1 h.shape.1, List.length_zipWith] at none_
  have some_ : 0 < text.countP isBreak :=
    List.countP_pos_iff.mpr ⟨'\n', List.mem_of_getLast? h.shape.1, rfl⟩
  rw [List.length_nil, Nat.zero_min] at none_
  omega

/-- The line of a field with its value is one of the text. -/
lemma Accepted.line (h : Accepted fields d m text values) {n v : String}
    (mem : (n, v) ∈ fields.zip values) : field n v ∈ splitLines text := by
  rw [h.lines, ← List.map_uncurry_zip_eq_zipWith]
  exact List.mem_map_of_mem (f := Function.uncurry field) mem

lemma Accepted.value (h : Accepted fields d m text values) {n : String} (mem : n ∈ fields) :
    ∃ v, m.lookup n = some v ∧ (n, v) ∈ fields.zip values := by
  rw [← h.collected]
  exact collect_value h.length mem

lemma Accepted.written_line (h : Accepted fields d m text values) {n : String} (mem : n ∈ fields) :
    writtenLine m n ∈ splitLines text := by
  obtain ⟨v, found, pair⟩ := h.value mem
  rw [writtenLine, found, Option.getD_some]
  exact h.line pair

/-- Written from the values of an accepted record: the text of its fields. -/
lemma Accepted.serialized (h : Accepted fields d m text values) :
    serializeRecord fields m = some d ↔ writtenText fields m = text := by
  have keys : m.keys = fields.toFinset := by
    ext n
    rw [Finmap.mem_keys, List.mem_toFinset, ← h.collected, mem_collect h.length]
  have tokens : ∀ n ∈ fields, isToken ((m.lookup n).getD "").toList = true := by
    intro n mem
    obtain ⟨v, found, pair⟩ := h.value mem
    rw [found, Option.getD_some]
    exact h.tokens v (List.of_mem_zip pair).2
  have ascii : ∀ c ∈ writtenText fields m, c.toNat < 128 := by
    intro c mem
    rw [writtenText_unlines h.nonempty, unlines, List.mem_flatMap] at mem
    obtain ⟨l, in_, mem⟩ := mem
    obtain ⟨n, field_, rfl⟩ := List.mem_map.mp in_
    rcases List.mem_append.mp mem with mem | feed
    · exact h.ascii c (mem_splitLines (h.written_line field_) mem)
    · rw [List.mem_singleton.mp feed]
      decide
  rw [serializeRecord_eq]
  constructor
  · rintro ⟨-, -, same⟩
    rw [← (encode_decode h.decoded).1] at same
    exact encode_injective ascii h.ascii same
  · intro same
    exact ⟨⟨keys, tokens⟩, ascii, by rw [same, (encode_decode h.decoded).1]⟩

lemma Accepted.onlyLineFeeds (h : Accepted fields d m text values) :
    OnlyLineFeeds d ↔ ∀ c ∈ text, isBreak c = true → c = '\n' := by
  rw [← (encode_decode h.decoded).1]
  exact onlyLineFeeds_encode h.ascii h.shape.2.2.1

lemma splitField_written (names : ∀ n ∈ fields, '=' ∉ n.toList) {n : String} (mem : n ∈ fields) :
    splitField (writtenLine m n) = some (n.toList, ((m.lookup n).getD "").toList) :=
  splitField_field (names n mem)

/-- The lines of an accepted record are those that are written from it, where they agree. -/
lemma Accepted.written_lines (h : Accepted fields d m text values) (agreeing : Agreeing d) :
    splitLines text = fields.map (writtenLine m) := by
  refine h.lines.trans (List.ext_getElem (by simp [h.length]) fun i first second => ?_)
  rw [List.length_map] at second
  have third : i < values.length := h.length ▸ second
  rw [List.getElem_zipWith, List.getElem_map, writtenLine]
  have here : (fields[i], values[i]) ∈ fields.zip values := by
    rw [← List.getElem_zip (h := by rw [List.length_zip]; omega)]
    exact List.getElem_mem _
  obtain ⟨v, found, pair⟩ := h.value (List.getElem_mem second)
  have same := agreeing text h.decoded _ (h.line here) _ (h.line pair) _ _ _
    (splitField_field (h.names _ (List.getElem_mem second)))
    (splitField_field (h.names _ (List.getElem_mem second)))
  rw [found, Option.getD_some, String.toList_inj.mp same]

theorem Accepted.written_back (h : Accepted fields d m text values) :
    serializeRecord fields m = some d ↔ OnlyLineFeeds d ∧ Agreeing d := by
  rw [h.serialized, writtenText_unlines h.nonempty]
  constructor
  · intro same
    have unbroken : ∀ l ∈ fields.map (writtenLine m), Unbroken l := by
      intro l mem
      obtain ⟨n, in_, rfl⟩ := List.mem_map.mp mem
      exact splitLines_unbroken text _ (h.written_line in_)
    have lines : splitLines text = fields.map (writtenLine m) := by
      rw [← same]
      exact splitLines_unlines unbroken
    constructor
    · rw [h.onlyLineFeeds]
      intro c mem break_
      rw [← same, unlines, List.mem_flatMap] at mem
      obtain ⟨l, in_, mem⟩ := mem
      rcases List.mem_append.mp mem with mem | feed
      · rw [unbroken l in_ c mem] at break_
        cases break_
      · exact List.mem_singleton.mp feed
    · intro text' decoded l mem l' mem' n v v' split split'
      obtain rfl := Option.some.inj (h.decoded.symm.trans decoded)
      rw [lines, List.mem_map] at mem mem'
      obtain ⟨x, field_, rfl⟩ := mem
      obtain ⟨x', field_', rfl⟩ := mem'
      rw [splitField_written h.names field_] at split
      rw [splitField_written h.names field_'] at split'
      simp only [Option.some.injEq, Prod.mk.injEq] at split split'
      have names : x = x' := String.toList_inj.mp (split.1.trans split'.1.symm)
      rw [← split.2, ← split'.2, names]
  · rintro ⟨only, agreeing⟩
    rw [← h.written_lines agreeing]
    exact unlines_splitLines (h.onlyLineFeeds.mp only) h.shape.1

end Accepted

/-! ## What is written is read back -/

section Written
variable {fields : List String} {d : Bytes} {m : Values}

lemma mem_writtenLine {n : String} {c : Char} (token : isToken ((m.lookup n).getD "").toList = true)
    (mem : c ∈ writtenLine m n) : c ∈ n.toList ∨ c = '=' ∨ isVisible c = true := by
  rcases List.mem_append.mp mem with name | value
  · exact .inl name
  · rcases List.mem_cons.mp value with rfl | value
    · exact .inr (.inl rfl)
    · simp only [isToken, Bool.and_eq_true] at token
      exact .inr (.inr (List.all_eq_true.mp token.2 c value))

lemma writtenLine_unbroken {n : String} (token : isToken ((m.lookup n).getD "").toList = true)
    (plain : PlainName n) : Unbroken (writtenLine m n) := by
  intro c mem
  rcases mem_writtenLine token mem with name | rfl | visible
  · exact (plain c name).2.2
  · rfl
  · exact isVisible_unbroken visible

/-- A written line ends with a visible character. -/
lemma writtenLine_last {n : String} (token : isToken ((m.lookup n).getD "").toList = true) :
    ∃ l c, writtenLine m n = l ++ [c] ∧ isVisible c = true := by
  simp only [isToken, Bool.and_eq_true, decide_eq_true_eq] at token
  obtain ⟨some_, visible⟩ := token
  obtain ⟨front, c, split⟩ := List.eq_nil_or_concat _ |>.resolve_left some_
  refine ⟨n.toList ++ '=' :: front, c, ?_, List.all_eq_true.mp visible c (by rw [split]; simp)⟩
  rw [writtenLine, field, split]
  simp

lemma unlines_breaks (lines : List Text) :
    (unlines lines).countP isBreak = (lines.map (·.countP isBreak)).sum + lines.length := by
  induction lines with
  | nil => rfl
  | cons l lines ih =>
    have split : unlines (l :: lines) = l ++ '\n' :: unlines lines := by simp [unlines]
    have feed : isBreak '\n' = true := rfl
    rw [split, List.countP_append, List.countP_cons, ih, if_pos feed, List.map_cons, List.sum_cons,
      List.length_cons]
    omega

lemma zipWith_written : List.zipWith field fields (fields.map fun n => (m.lookup n).getD "") =
    fields.map (writtenLine m) := by
  rw [List.zipWith_map_right, List.zipWith_self]
  rfl

lemma collect_written (keys : m.keys = fields.toFinset) :
    collect fields (fields.map fun n => (m.lookup n).getD "") = m := by
  refine Finmap.ext_lookup fun n => ?_
  have there : n ∈ m ↔ n ∈ fields := by rw [← Finmap.mem_keys, keys, List.mem_toFinset]
  have length : fields.length = (fields.map fun n => (m.lookup n).getD "").length := by simp
  by_cases mem : n ∈ fields
  · obtain ⟨v, found, pair⟩ := collect_value length mem
    obtain ⟨w, given⟩ := Finmap.mem_iff.mp (there.mpr mem)
    rw [List.zip_map_right, List.mem_map] at pair
    obtain ⟨⟨x, y⟩, both, same⟩ := pair
    simp only [Prod.map_apply, id_eq, Prod.mk.injEq] at same
    have equal : x = y := by
      rw [List.zip_eq_zipWith, List.zipWith_self] at both
      obtain ⟨z, -, same⟩ := List.mem_map.mp both
      cases same
      rfl
    rw [found, given, ← same.2, ← equal, same.1, given, Option.getD_some]
  · have outside : n ∉ collect fields (fields.map fun n => (m.lookup n).getD "") :=
      mt (mem_collect length).mp mem
    rw [Finmap.lookup_eq_none.mpr outside, Finmap.lookup_eq_none.mpr (mt there.mp mem)]

theorem read_back (h : serializeRecord fields m = some d) :
    parseRecord fields d = some m ↔ fields ≠ [] ∧ ∀ n ∈ fields, PlainName n := by
  obtain ⟨⟨keys, tokens⟩, ascii, rfl⟩ := serializeRecord_eq.mp h
  constructor
  · intro parsed
    obtain ⟨text, values, accepted⟩ := parseRecord_accepted parsed
    have text_ : writtenText fields m = text :=
      Option.some.inj ((decode_encode ascii).symm.trans accepted.decoded)
    have shape := accepted.shape
    refine ⟨accepted.nonempty, fun n mem c in_ => ⟨?_, ?_, ?_⟩⟩
    · rintro rfl
      exact accepted.names n mem in_
    · rintro rfl
      refine shape.2.2.2 (mem_splitLines (accepted.written_line mem) ?_)
      exact List.mem_append_left _ in_
    · have count := length_splitLines shape.2.2.1 shape.1
      rw [accepted.lines, List.length_zipWith, ← accepted.length, min_self, ← text_,
        writtenText_unlines accepted.nonempty, unlines_breaks, List.length_map] at count
      have none_ : ((fields.map (writtenLine m)).map (·.countP isBreak)).sum = 0 := by omega
      have zero := List.sum_eq_zero_iff.mp none_ _
        (List.mem_map_of_mem (List.mem_map_of_mem (f := writtenLine m) mem))
      have free := List.countP_eq_zero.mp zero c (List.mem_append_left _ in_)
      exact Bool.eq_false_iff.mpr free
  · rintro ⟨some_, plain⟩
    have unbroken : ∀ l ∈ fields.map (writtenLine m), Unbroken l := by
      intro l mem
      obtain ⟨n, in_, rfl⟩ := List.mem_map.mp mem
      exact writtenLine_unbroken (tokens n in_) (plain n in_)
    have text_ := writtenText_unlines (m := m) some_
    refine parseRecord_eq.mpr ⟨(canonical_encode ascii).mpr ?_, writtenText fields m,
      fields.map fun n => (m.lookup n).getD "", decode_encode ascii, ?_, collect_written keys⟩
    · have inside : ∀ c ∈ writtenText fields m, c ≠ '\r' ∧ c ≠ '\x00' := by
        intro c mem
        rw [text_, unlines, List.mem_flatMap] at mem
        obtain ⟨l, in_, mem⟩ := mem
        obtain ⟨n, field_, rfl⟩ := List.mem_map.mp in_
        rcases List.mem_append.mp mem with mem | feed
        · have free := unbroken _ in_ c mem
          constructor
          · rintro rfl
            cases free
          · rintro rfl
            rcases mem_writtenLine (tokens n field_) mem with name | same | visible
            · exact (plain n field_ _ name).2.1 rfl
            · cases same
            · cases visible
        · rw [List.mem_singleton.mp feed]
          decide
      obtain ⟨front, n, split⟩ := List.eq_nil_or_concat _ |>.resolve_left some_
      obtain ⟨l, c, line, visible⟩ := writtenLine_last (m := m) (tokens n (by rw [split]; simp))
      have ends : writtenText fields m = unlines (front.map (writtenLine m)) ++ l ++ [c, '\n'] := by
        rw [text_, split]
        simp [unlines, line]
      refine ⟨by rw [ends]; simp, ?_, fun mem => (inside _ mem).1 rfl, fun mem => (inside _ mem).2 rfl⟩
      have before : (writtenText fields m).dropLast = unlines (front.map (writtenLine m)) ++ l ++ [c] := by
        rw [ends, List.dropLast_append_of_ne_nil (by simp)]
        rfl
      rw [before, List.getLast?_append_of_ne_nil _ (by simp)]
      intro same
      obtain rfl : c = '\n' := Option.some.inj same
      cases visible
    · rw [text_, splitLines_unlines unbroken, ← zipWith_written]
      refine readFields_field (fun n mem same => (plain n mem '=' same).1 rfl) ?_ (by simp)
      intro v mem
      obtain ⟨n, in_, rfl⟩ := List.mem_map.mp mem
      exact tokens n in_

end Written

/-- What is read is written back where every line boundary is a line feed and lines of one name
agree; what is written is read back where the field names are plain. Records of such bytes are
distinct. -/
theorem record_codec_iff (fields : List String) :
    (∀ d m, parseRecord fields d = some m →
      (serializeRecord fields m = some d ↔ OnlyLineFeeds d ∧ Agreeing d)) ∧
    (∀ m d, serializeRecord fields m = some d →
      (parseRecord fields d = some m ↔ fields ≠ [] ∧ ∀ n ∈ fields, PlainName n)) ∧
    ∀ d d' m, parseRecord fields d = some m → parseRecord fields d' = some m →
      OnlyLineFeeds d → OnlyLineFeeds d' → Agreeing d → Agreeing d' → d = d' := by
  have back : ∀ d m, parseRecord fields d = some m →
      (serializeRecord fields m = some d ↔ OnlyLineFeeds d ∧ Agreeing d) := by
    intro d m parsed
    obtain ⟨text, values, accepted⟩ := parseRecord_accepted parsed
    exact accepted.written_back
  refine ⟨back, fun m d => read_back, fun d d' m first second only only' agreeing agreeing' => ?_⟩
  have here := (back d m first).mpr ⟨only, agreeing⟩
  have there := (back d' m second).mpr ⟨only', agreeing'⟩
  exact Option.some.inj (here.symm.trans there)

/-- `TARGET_TERMINAL_FIELDS` -/
def targetTerminalFields : List String := ["schema", "kind", "service", "target", "request_id", "state",
  "artifact_manifest_sha256", "response_sha256", "response_signature_sha256", "certificate_sha256",
  "served_certificate_sha256", "served_intermediate_sha256", "activation_epoch", "validation_epoch"]

/-- A terminal record that was not activated, with the given boundary behind its first line. -/
def sampleRecord (boundary : Char) : Bytes :=
  let digest := String.ofList (List.replicate 64 'a')
  let lines := List.zipWith field targetTerminalFields ["2", "host-local-target-terminal", "registry",
    "zot-1", String.ofList (List.replicate 32 'b'), "not-activated", digest, digest, digest, digest,
    "none", "none", "1700000000", "none"]
  encode (lines.headD [] ++ boundary :: unlines lines.tail)

/-- Two byte strings are one record, and only one of them is written for it. -/
theorem separators_ambiguous : ∃ m, parseRecord targetTerminalFields (sampleRecord '\n') = some m ∧
    parseRecord targetTerminalFields (sampleRecord '\x0b') = some m ∧
    serializeRecord targetTerminalFields m ≠ some (sampleRecord '\x0b') := by
  refine ⟨(parseRecord targetTerminalFields (sampleRecord '\n')).getD ∅, ?_, ?_, ?_⟩
  all_goals decide +kernel

end PlatformConfig.RecordCodec
