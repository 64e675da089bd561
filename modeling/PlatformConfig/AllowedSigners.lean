import PlatformConfig.RecordText
import PlatformConfig.TrustTree

/-!
# Allowed signers in the three helpers

The trust, lifecycle and request helpers each parse the allowed-signers files of a trust tree.
They differ in the line boundaries that they admit and in whether a key is an Ed25519 blob.
-/
namespace PlatformConfig.AllowedSigners

open RecordText TrustTree

/-- A principal and the text of its key. -/
abbrev Signer := String × Text

/-- A signer record, its key in canonical base64 and accepted by `key`. -/
def readSigner (key : TrustTree.Data → Bool) (line : Text) : Option Signer :=
  match line.splitOn ' ' with
  | [principal, algorithm, text] =>
    if matchesIdentity principal && algorithm = "ssh-ed25519".toList && (decode64 text).any key then
      some (String.ofList principal, text)
    else none
  | _ => none

/-- At least one signer, each principal once. -/
def readSigners (key : TrustTree.Data → Bool) (lines : List Text) : Option (List Signer) :=
  (lines.mapM (readSigner key)).filter fun l => (l.map Prod.fst).Nodup ∧ l ≠ []

/-- `parse_allowed_signers` of the trust helper -/
def trustSigners (d : Bytes) : Option (List Signer) :=
  (validateText d).bind fun text => readSigners validKey (RecordText.splitLines text)

/-- `parse_allowed_signers` of the lifecycle helper -/
def lifecycleSigners (d : Bytes) : Option (List Signer) :=
  if d.getLast? = some 10 ∧ d.dropLast.getLast? ≠ some 10 ∧ (13 : UInt8) ∉ d then
    (decode d).bind fun text => readSigners (fun _ => true) (RecordText.splitLines text)
  else none

/-- `parse_allowed_signers` of the request helper -/
def requestSigners (d : Bytes) : Option (List Signer) :=
  (decode d).bind fun text =>
    if text.getLast? = some '\n' ∧ '\r' ∉ text then readSigners validKey (RecordText.splitLines text)
    else none

/-! ## Signer records as text -/

/-- The line of a signer. -/
def signerLine (s : Signer) : Text := s.1.toList ++ ' ' :: ("ssh-ed25519".toList ++ ' ' :: s.2)

/-- The text of signers, each with the boundary behind its line. -/
def signersText (l : List (Signer × Char)) : Text := joined (l.map fun p => (signerLine p.1, p.2))

/-- Signers with canonical names and keys, each principal once, whose lines end in some boundary that
`str.splitlines` knows, the last in a line feed. -/
structure Formed (l : List (Signer × Char)) : Prop where
  names : ∀ p ∈ l, matchesIdentity p.1.1.toList = true
  keys : ∀ p ∈ l, (decode64 p.1.2).isSome = true
  boundaries : ∀ p ∈ l, isBreak p.2 = true ∧ p.2 ≠ '\r'
  distinct : (l.map fun p => p.1.1).Nodup
  ends : (l.map Prod.snd).getLast? = some '\n'

/-- Where a file is a list of signers, every line ends with a line feed and every key is the blob of
an Ed25519 public key. -/
def Sound (d : Bytes) : Prop :=
  ∀ l, Formed l → d = encode (signersText l) →
    ∀ p ∈ l, p.2 = '\n' ∧ (decode64 p.1.2).any validKey = true

/-! ## Characters -/

lemma upper_range {c : Char} (h : c.isUpper = true) : 65 ≤ c.toNat ∧ c.toNat ≤ 90 := by
  simp only [Char.isUpper, decide_eq_true_eq, UInt32.le_iff_toNat_le, ge_iff_le] at h
  exact h

lemma lower_range {c : Char} (h : c.isLower = true) : 97 ≤ c.toNat ∧ c.toNat ≤ 122 := by
  simp only [Char.isLower, Bool.and_eq_true, decide_eq_true_eq, UInt32.le_iff_toNat_le, ge_iff_le] at h
  exact h

lemma digit_range {c : Char} (h : c.isDigit = true) : 48 ≤ c.toNat ∧ c.toNat ≤ 57 := by
  simp only [Char.isDigit, Bool.and_eq_true, decide_eq_true_eq, UInt32.le_iff_toNat_le, ge_iff_le] at h
  exact h

lemma visible_of_range {c : Char} (h : 0x21 ≤ c.toNat ∧ c.toNat ≤ 0x7e) : isVisible c = true := by
  simpa [isVisible] using h

lemma digit64_visible {c : Char} {n : ℕ} (h : digit64 c = some n) : isVisible c = true := by
  unfold digit64 at h
  split_ifs at h with upper lower digit plus slash
  · have := upper_range upper
    exact visible_of_range (by omega)
  · have := lower_range lower
    exact visible_of_range (by omega)
  · have := digit_range digit
    exact visible_of_range (by omega)
  · subst plus
    rfl
  · subst slash
    rfl

/-- A key in base64 is visible text. -/
lemma key_visible {t : Text} {d : TrustTree.Data} (h : decode64 t = some d) :
    ∀ c ∈ t, isVisible c = true := by
  fun_induction decode64 t generalizing d with
  | case1 => simp
  | case2 a b =>
    obtain ⟨x, ha, h⟩ := Option.bind_eq_some_iff.mp h
    obtain ⟨y, hb, -⟩ := Option.bind_eq_some_iff.mp h
    have pad : isVisible '=' = true := rfl
    simp [digit64_visible ha, digit64_visible hb, pad]
  | case3 a b c apart =>
    obtain ⟨x, ha, h⟩ := Option.bind_eq_some_iff.mp h
    obtain ⟨y, hb, h⟩ := Option.bind_eq_some_iff.mp h
    obtain ⟨z, hc, -⟩ := Option.bind_eq_some_iff.mp h
    have pad : isVisible '=' = true := rfl
    simp [digit64_visible ha, digit64_visible hb, digit64_visible hc, pad]
  | case4 a b c d rest other other' ih =>
    obtain ⟨x, ha, h⟩ := Option.bind_eq_some_iff.mp h
    obtain ⟨y, hb, h⟩ := Option.bind_eq_some_iff.mp h
    obtain ⟨z, hc, h⟩ := Option.bind_eq_some_iff.mp h
    obtain ⟨w, hd, h⟩ := Option.bind_eq_some_iff.mp h
    obtain ⟨tail, more, -⟩ := Option.bind_eq_some_iff.mp h
    simpa [digit64_visible ha, digit64_visible hb, digit64_visible hc, digit64_visible hd] using ih more
  | case5 => cases h

lemma identity_visible {t : Text} (h : matchesIdentity t = true) : ∀ c ∈ t, isVisible c = true := by
  have letter : ∀ c : Char, isIdentityChar c = true → isVisible c = true := by
    intro c h
    simp only [isIdentityChar, Bool.or_eq_true, decide_eq_true_eq] at h
    rcases h with ((digit | lower) | rfl) | rfl
    · have := digit_range digit
      exact visible_of_range (by omega)
    · have := lower_range lower
      exact visible_of_range (by omega)
    · rfl
    · rfl
  cases t with
  | nil => cases h
  | cons c t =>
    simp only [matchesIdentity, Bool.and_eq_true, List.all_eq_true] at h
    have first : isIdentityChar c = true := by
      simp only [isIdentityChar, h.1.1, Bool.true_or]
    exact List.forall_mem_cons.mpr ⟨letter c first, fun d mem => letter d (h.2 d mem)⟩

/-- A signer whose line is read back. -/
structure Sane (s : Signer) : Prop where
  name : matchesIdentity s.1.toList = true
  key : (decode64 s.2).isSome = true

section Lines
variable {s : Signer} {key : TrustTree.Data → Bool} {line : Text} {c : Char}

lemma Sane.key_visible (h : Sane s) : ∀ c ∈ s.2, isVisible c = true := by
  obtain ⟨d, decoded⟩ := Option.isSome_iff_exists.mp h.key
  exact AllowedSigners.key_visible decoded

lemma Sane.line_chars (h : Sane s) (mem : c ∈ signerLine s) : c = ' ' ∨ isVisible c = true := by
  have algorithm : ∀ c ∈ "ssh-ed25519".toList, isVisible c = true := by simp [isVisible]
  simp only [signerLine, List.mem_append, List.mem_cons] at mem
  rcases mem with name | rfl | part | rfl | text
  · exact .inr (identity_visible h.name c name)
  · exact .inl rfl
  · exact .inr (algorithm c part)
  · exact .inl rfl
  · exact .inr (h.key_visible c text)

lemma Sane.line_unbroken (h : Sane s) : Unbroken (signerLine s) := by
  intro c mem
  rcases h.line_chars mem with rfl | visible
  · rfl
  · exact isVisible_unbroken visible

lemma readSigner_eq : readSigner key line = some s ↔
    line = signerLine s ∧ matchesIdentity s.1.toList = true ∧ (decode64 s.2).any key = true := by
  constructor
  · intro h
    unfold readSigner at h
    split at h
    · next principal algorithm text split =>
      obtain ⟨checks, same⟩ := Option.ite_none_right_eq_some.mp h
      simp only [Bool.and_eq_true, decide_eq_true_eq] at checks
      obtain ⟨⟨name, rfl⟩, key⟩ := checks
      cases same
      have whole : List.intercalate [' '] (line.splitOn ' ') = line := List.intercalate_splitOn ' '
      rw [split] at whole
      refine ⟨?_, by rwa [String.toList_ofList], key⟩
      rw [← whole, signerLine, String.toList_ofList]
      simp [List.intercalate_cons_cons]
    · cases h
  · rintro ⟨rfl, name, text⟩
    have sane : Sane s := ⟨name, by
      cases decoded : decode64 s.2 with
      | none =>
        rw [decoded] at text
        cases text
      | some d => rfl⟩
    have free : ∀ t : Text, (∀ c ∈ t, isVisible c = true) → ' ' ∉ t := by
      intro t visible mem
      cases visible ' ' mem
    have parts : (signerLine s).splitOn ' ' = [s.1.toList, "ssh-ed25519".toList, s.2] := by
      rw [signerLine, List.splitOn_append_cons_self_of_not_mem (free _ (identity_visible name)),
        List.splitOn_append_cons_self_of_not_mem (by decide),
        List.splitOn_eq_singleton (free _ sane.key_visible)]
    simp [readSigner, parts, name, text]

lemma mapM_signers {lines : List Text} {l : List Signer} :
    lines.mapM (readSigner key) = some l ↔ lines = l.map signerLine ∧
      ∀ s ∈ l, matchesIdentity s.1.toList = true ∧ (decode64 s.2).any key = true := by
  induction lines generalizing l with
  | nil =>
    rw [List.mapM_nil]
    constructor
    · intro h
      cases h
      simp
    · rintro ⟨h, -⟩
      rw [eq_comm, List.map_eq_nil_iff] at h
      rw [h]
      rfl
  | cons line lines ih =>
    rw [List.mapM_cons]
    constructor
    · intro h
      obtain ⟨s, first, h⟩ := Option.bind_eq_some_iff.mp h
      obtain ⟨rest, later, h⟩ := Option.bind_eq_some_iff.mp h
      cases h
      obtain ⟨same, ok⟩ := readSigner_eq.mp first
      obtain ⟨sames, oks⟩ := ih.mp later
      exact ⟨by rw [same, sames, List.map_cons], List.forall_mem_cons.mpr ⟨ok, oks⟩⟩
    · rintro ⟨h, oks⟩
      obtain ⟨s, rest, rfl, same, sames⟩ := List.map_eq_cons_iff.mp h.symm
      have first := readSigner_eq.mpr ⟨same.symm, oks s List.mem_cons_self⟩
      have later := ih.mpr ⟨sames.symm, fun t mem => oks t (List.mem_cons_of_mem s mem)⟩
      simp [first, later]

end Lines

/-! ## Files as signers -/

section Files
variable {l : List (Signer × Char)} {m : List Signer} {text : Text} {d : Bytes}
  {key : TrustTree.Data → Bool}

lemma Formed.sane (h : Formed l) : ∀ p ∈ l, Sane p.1 := fun p mem => ⟨h.names p mem, h.keys p mem⟩

/-- A character of the text is of a line, or it is the boundary behind one. -/
lemma Formed.chars (h : Formed l) {c : Char} (mem : c ∈ signersText l) :
    c = ' ' ∨ isVisible c = true ∨ ∃ p ∈ l, c = p.2 := by
  rw [signersText, joined, List.mem_flatMap] at mem
  obtain ⟨q, in_, mem⟩ := mem
  obtain ⟨p, there, rfl⟩ := List.mem_map.mp in_
  rcases List.mem_append.mp mem with mem | last
  · exact ((h.sane p there).line_chars mem).imp_right .inl
  · exact .inr (.inr ⟨p, there, List.mem_singleton.mp last⟩)

lemma break_ascii {c : Char} (h : isBreak c = true) : c.toNat < 0x20 := by
  simp only [isBreak, Bool.or_eq_true, decide_eq_true_eq] at h
  rcases h with (((((rfl | rfl) | rfl) | rfl) | rfl) | rfl) | rfl <;> decide

lemma Formed.ascii (h : Formed l) : ∀ c ∈ signersText l, c.toNat < 128 := by
  intro c mem
  rcases h.chars mem with rfl | visible | ⟨p, there, rfl⟩
  · decide
  · simp only [isVisible, Bool.and_eq_true, decide_eq_true_eq] at visible
    omega
  · have := break_ascii (h.boundaries p there).1
    omega

lemma Formed.no_return (h : Formed l) : '\r' ∉ signersText l := by
  intro mem
  rcases h.chars mem with same | visible | ⟨p, there, same⟩
  · cases same
  · cases visible
  · exact (h.boundaries p there).2 same.symm

lemma Formed.splitLines (h : Formed l) :
    RecordText.splitLines (signersText l) = l.map fun p => signerLine p.1 := by
  rw [signersText, splitLines_joined, List.map_map]
  · rfl
  · intro q mem
    obtain ⟨p, there, rfl⟩ := List.mem_map.mp mem
    exact ⟨(h.sane p there).line_unbroken, h.boundaries p there⟩

/-- The text ends with a line feed behind the last line. -/
lemma Formed.ending (h : Formed l) : ∃ front s, signersText l = front ++ signerLine s ++ ['\n'] ∧
    Sane s := by
  obtain ⟨front, p, rfl⟩ : ∃ front p, l = front ++ [p] := by
    rcases List.eq_nil_or_concat l with rfl | ⟨front, p, split⟩
    · cases h.ends
    · exact ⟨front, p, by rw [split, List.concat_eq_append]⟩
  have last : p.2 = '\n' := by
    have ends := h.ends
    rw [List.map_append, List.map_singleton, List.getLast?_append_of_ne_nil _ (by simp)] at ends
    exact Option.some.inj ends
  exact ⟨signersText front, p.1, by simp [signersText, joined, last], h.sane p (by simp)⟩

lemma readSigners_eq {lines : List Text} : readSigners key lines = some m ↔
    lines = m.map signerLine ∧ (∀ s ∈ m, matchesIdentity s.1.toList = true ∧
      (decode64 s.2).any key = true) ∧ (m.map Prod.fst).Nodup ∧ m ≠ [] := by
  rw [readSigners, Option.filter_eq_some_iff, mapM_signers, decide_eq_true_eq, and_assoc]

lemma joined_last {j : List (Text × Char)} {c : Char} (h : (joined j).getLast? = some c) :
    (j.map Prod.snd).getLast? = some c := by
  rcases List.eq_nil_or_concat j with rfl | ⟨front, q, rfl⟩
  · cases h
  · rw [List.concat_eq_append] at h ⊢
    have whole : joined (front ++ [q]) = joined front ++ q.1 ++ [q.2] := by simp [joined]
    rw [whole, List.getLast?_append_of_ne_nil _ (by simp)] at h
    rw [List.map_append, List.getLast?_append_of_ne_nil _ (by simp)]
    exact h

/-- The signers of a text that ends with a line feed and holds no carriage return. -/
lemma readSigners_text (ends : text.getLast? = some '\n') (plain : '\r' ∉ text) :
    readSigners key (RecordText.splitLines text) = some m ↔ ∃ l, Formed l ∧
      (∀ p ∈ l, (decode64 p.1.2).any key = true) ∧ text = signersText l ∧ l.map Prod.fst = m := by
  rw [readSigners_eq]
  constructor
  · rintro ⟨lines, ok, distinct, some_⟩
    obtain ⟨j, rfl, parts⟩ := exists_joined ends
    have whole : ∀ q ∈ j, Unbroken q.1 ∧ isBreak q.2 = true ∧ q.2 ≠ '\r' := by
      intro q mem
      refine ⟨(parts q mem).1, (parts q mem).2, fun same => plain ?_⟩
      rw [← same]
      exact List.mem_flatMap.mpr ⟨q, mem, by simp⟩
    rw [splitLines_joined whole] at lines
    have length : m.length = (j.map Prod.snd).length := by
      have := congrArg List.length lines
      simp only [List.length_map] at this ⊢
      omega
    have firsts : (m.zip (j.map Prod.snd)).map Prod.fst = m := List.map_fst_zip (by omega)
    have seconds : (m.zip (j.map Prod.snd)).map Prod.snd = j.map Prod.snd :=
      List.map_snd_zip (by omega)
    have back : (m.zip (j.map Prod.snd)).map (fun p => (signerLine p.1, p.2)) = j := by
      calc (m.zip (j.map Prod.snd)).map (fun p => (signerLine p.1, p.2))
          = (m.map signerLine).zip (j.map Prod.snd) := by
            rw [List.zip_map_left]
            rfl
        _ = (j.map Prod.fst).zip (j.map Prod.snd) := by rw [lines]
        _ = j := (List.zip_of_prod rfl rfl).symm
    have signer : ∀ p ∈ m.zip (j.map Prod.snd), p.1 ∈ m ∧ p.2 ∈ j.map Prod.snd := fun p mem =>
      List.of_mem_zip mem
    refine ⟨m.zip (j.map Prod.snd), ⟨?_, ?_, ?_, ?_, ?_⟩, ?_, ?_, firsts⟩
    · exact fun p mem => (ok p.1 (signer p mem).1).1
    · intro p mem
      have any := (ok p.1 (signer p mem).1).2
      cases decoded : decode64 p.1.2 with
      | none => simp [decoded] at any
      | some d => rfl
    · intro p mem
      obtain ⟨q, there, same⟩ := List.mem_map.mp (signer p mem).2
      rw [← same]
      exact (whole q there).2
    · have names : (m.zip (j.map Prod.snd)).map (fun p => p.1.1) =
          ((m.zip (j.map Prod.snd)).map Prod.fst).map Prod.fst := by
        rw [List.map_map]
        rfl
      rw [names, firsts]
      exact distinct
    · rw [seconds]
      exact joined_last ends
    · exact fun p mem => (ok p.1 (signer p mem).1).2
    · rw [signersText, back]
  · rintro ⟨l, formed, ok, rfl, rfl⟩
    refine ⟨by rw [formed.splitLines, List.map_map]; rfl, ?_, ?_, ?_⟩
    · intro s mem
      obtain ⟨p, there, rfl⟩ := List.mem_map.mp mem
      exact ⟨formed.names p there, ok p there⟩
    · rw [List.map_map]
      exact formed.distinct
    · intro none_
      have nil : l = [] := List.map_eq_nil_iff.mp none_
      have ends := formed.ends
      rw [nil] at ends
      cases ends

lemma Formed.last (h : Formed l) : (encode (signersText l)).getLast? = some 10 := by
  obtain ⟨front, s, text_, -⟩ := h.ending
  refine (getLast_encode (c := '\n') h.ascii (by decide)).mpr ?_
  rw [text_]
  simp

/-- There is no second line feed at the end. -/
lemma Formed.before (h : Formed l) : (encode (signersText l)).dropLast.getLast? ≠ some 10 := by
  obtain ⟨front, s, text_, sane⟩ := h.ending
  have nonempty : signerLine s ≠ [] := by simp [signerLine]
  have drop : (encode (signersText l)).dropLast = encode (front ++ signerLine s) := by
    rw [text_, encode, ← List.map_dropLast, List.dropLast_concat, encode]
  have chars : ∀ c ∈ front ++ signerLine s, c.toNat < 128 := fun c mem =>
    h.ascii c (by rw [text_]; exact List.mem_append_left _ mem)
  rw [drop]
  intro last
  have same := (getLast_encode (c := '\n') chars (by decide)).mp last
  rw [List.getLast?_append_of_ne_nil _ nonempty] at same
  cases sane.line_unbroken '\n' (List.mem_of_getLast? same)

lemma Formed.text_last (h : Formed l) : (signersText l).getLast? = some '\n' :=
  (getLast_encode (c := '\n') h.ascii (by decide)).mp h.last

/-- The lifecycle helper reads files of signers with any keys and any boundaries. -/
theorem lifecycleSigners_eq : lifecycleSigners d = some m ↔
    ∃ l, Formed l ∧ d = encode (signersText l) ∧ l.map Prod.fst = m := by
  constructor
  · intro h
    obtain ⟨⟨last, -, plain⟩, h⟩ := Option.ite_none_right_eq_some.mp h
    obtain ⟨text, decoded, read⟩ := Option.bind_eq_some_iff.mp h
    obtain ⟨whole, ascii⟩ := encode_decode decoded
    rw [← whole] at last plain ⊢
    have ends := (getLast_encode (c := '\n') ascii (by decide)).mp last
    have no_return := mt (mem_encode (c := '\r') ascii (by decide)).mpr plain
    obtain ⟨l, formed, -, text_, same⟩ := (readSigners_text ends no_return).mp read
    exact ⟨l, formed, by rw [text_], same⟩
  · rintro ⟨l, formed, rfl, rfl⟩
    have no_return := mt (mem_encode (c := '\r') formed.ascii (by decide)).mp formed.no_return
    refine Option.ite_none_right_eq_some.mpr ⟨⟨formed.last, formed.before, no_return⟩, ?_⟩
    rw [decode_encode formed.ascii, Option.bind_some]
    refine (readSigners_text formed.text_last formed.no_return).mpr
      ⟨l, formed, fun p mem => ?_, rfl, rfl⟩
    obtain ⟨b, decoded⟩ := Option.isSome_iff_exists.mp (formed.keys p mem)
    rw [decoded]
    rfl

/-- The request helper reads files of signers with Ed25519 keys and any boundaries. -/
theorem requestSigners_eq : requestSigners d = some m ↔ ∃ l, Formed l ∧
    (∀ p ∈ l, (decode64 p.1.2).any validKey = true) ∧ d = encode (signersText l) ∧
      l.map Prod.fst = m := by
  constructor
  · intro h
    obtain ⟨text, decoded, h⟩ := Option.bind_eq_some_iff.mp h
    obtain ⟨⟨ends, no_return⟩, read⟩ := Option.ite_none_right_eq_some.mp h
    obtain ⟨l, formed, keys, text_, same⟩ := (readSigners_text ends no_return).mp read
    exact ⟨l, formed, keys, by rw [← text_, (encode_decode decoded).1], same⟩
  · rintro ⟨l, formed, keys, rfl, rfl⟩
    rw [requestSigners, decode_encode formed.ascii, Option.bind_some]
    refine Option.ite_none_right_eq_some.mpr ⟨⟨formed.text_last, formed.no_return⟩, ?_⟩
    exact (readSigners_text formed.text_last formed.no_return).mpr ⟨l, formed, keys, rfl, rfl⟩

lemma validateText_eq {d : Bytes} {text : Text} : validateText d = some text ↔
    (d.length ≤ maxTrustSize ∧ d.getLast? = some 10 ∧ d.dropLast.getLast? ≠ some 10 ∧
      ∀ b ∈ d, (0x20 ≤ b.toNat ∨ b.toNat = 10) ∧ b.toNat ≤ 0x7e) ∧ decode d = some text := by
  have bytes : d.all (fun b => (0x20 ≤ b || b = 0x0a) && b ≤ 0x7e) = true ↔
      ∀ b ∈ d, (0x20 ≤ b.toNat ∨ b.toNat = 10) ∧ b.toNat ≤ 0x7e := by
    rw [List.all_eq_true]
    refine forall₂_congr fun b _ => ?_
    rw [Bool.and_eq_true, Bool.or_eq_true, decide_eq_true_eq, decide_eq_true_eq, decide_eq_true_eq,
      UInt8.le_iff_toNat_le, UInt8.le_iff_toNat_le, ← UInt8.toNat_inj]
    rfl
  rw [validateText, Option.ite_none_right_eq_some, bytes]
  constructor
  · rintro ⟨⟨-, fits, last, before, printable⟩, same⟩
    refine ⟨⟨fits, last, before, printable⟩, ?_⟩
    rw [decode, if_pos, same]
    rw [List.all_eq_true]
    intro b mem
    have := (printable b mem).2
    rw [decide_eq_true_eq, UInt8.lt_iff_toNat_lt]
    change b.toNat < 128
    omega
  · rintro ⟨⟨fits, last, before, printable⟩, decoded⟩
    have some_ : d ≠ [] := by
      rintro rfl
      cases last
    exact ⟨⟨some_, fits, last, before, printable⟩, (Option.ite_none_right_eq_some.mp decoded).2⟩

/-- Printable text has no control characters but line feeds. -/
lemma printable_control (ascii : ∀ c ∈ text, c.toNat < 128)
    (printable : ∀ b ∈ encode text, (0x20 ≤ b.toNat ∨ b.toNat = 10) ∧ b.toNat ≤ 0x7e) :
    ∀ c ∈ text, c.toNat < 0x20 → c = '\n' := by
  intro c mem small
  have byte := (printable _ ((mem_encode ascii (ascii c mem)).mpr mem)).1
  rw [UInt8.toNat_ofNat', Nat.mod_eq_of_lt (by omega)] at byte
  have feed : c.toNat = '\n'.toNat := by
    rcases byte with large | same
    · omega
    · exact same
  exact Char.toNat_inj.mp feed

/-- The trust helper reads bounded files of signers with Ed25519 keys, each on its line. -/
theorem trustSigners_eq : trustSigners d = some m ↔ d.length ≤ maxTrustSize ∧ ∃ l, Formed l ∧
    (∀ p ∈ l, p.2 = '\n' ∧ (decode64 p.1.2).any validKey = true) ∧ d = encode (signersText l) ∧
      l.map Prod.fst = m := by
  rw [trustSigners, Option.bind_eq_some_iff]
  simp only [validateText_eq]
  constructor
  · rintro ⟨text, ⟨⟨fits, last, -, printable⟩, decoded⟩, read⟩
    obtain ⟨whole, ascii⟩ := encode_decode decoded
    refine ⟨fits, ?_⟩
    rw [← whole] at last printable ⊢
    have control := printable_control ascii printable
    have no_return : '\r' ∉ text := by
      intro mem
      cases control '\r' mem (by decide)
    obtain ⟨l, formed, keys, text_, same⟩ :=
      (readSigners_text ((getLast_encode (c := '\n') ascii (by decide)).mp last) no_return).mp read
    refine ⟨l, formed, fun p mem => ⟨?_, keys p mem⟩, by rw [text_], same⟩
    have there : p.2 ∈ text := by
      rw [text_, signersText, joined, List.mem_flatMap]
      exact ⟨_, List.mem_map_of_mem mem, by simp⟩
    exact control p.2 there (break_ascii (formed.boundaries p mem).1)
  · rintro ⟨fits, l, formed, good, rfl, rfl⟩
    refine ⟨signersText l, ⟨⟨fits, formed.last, formed.before, ?_⟩, decode_encode formed.ascii⟩, ?_⟩
    · intro b mem
      obtain ⟨c, in_, rfl⟩ := List.mem_map.mp mem
      have ascii := formed.ascii c in_
      rw [UInt8.toNat_ofNat', Nat.mod_eq_of_lt (by omega)]
      rcases formed.chars in_ with rfl | visible | ⟨p, there, rfl⟩
      · decide
      · simp only [isVisible, Bool.and_eq_true, decide_eq_true_eq] at visible
        omega
      · rw [(good p there).1]
        decide
    · exact (readSigners_text formed.text_last formed.no_return).mpr
        ⟨l, formed, fun p mem => (good p mem).2, rfl, rfl⟩

lemma unlines_dropLast {lines : List Text} (some_ : lines ≠ []) :
    (unlines lines).dropLast = List.intercalate ['\n'] lines := by
  obtain ⟨line, lines, rfl⟩ := List.exists_cons_of_ne_nil some_
  induction lines generalizing line with
  | nil => simp [unlines]
  | cons line' lines ih =>
    have rest := ih line' (by simp)
    have split : unlines (line :: line' :: lines) = line ++ '\n' :: unlines (line' :: lines) := by
      simp [unlines]
    have more : unlines (line' :: lines) ≠ [] := by simp [unlines]
    rw [split, List.dropLast_append_of_ne_nil (by simp), List.dropLast_cons_of_ne_nil more, rest,
      List.intercalate_cons_cons]
    simp

/-- Of printable text, both ways to split lines give the same. -/
lemma splitLines_printable {text : Text} (ends : text.getLast? = some '\n')
    (control : ∀ c ∈ text, isBreak c = true → c = '\n') :
    TrustTree.splitLines text = RecordText.splitLines text := by
  have whole := unlines_splitLines control ends
  have some_ : RecordText.splitLines text ≠ [] := by
    intro none_
    rw [none_] at whole
    rw [← whole] at ends
    cases ends
  have free : ∀ line ∈ RecordText.splitLines text, '\n' ∉ line := by
    intro line mem in_
    cases splitLines_unbroken text line mem '\n' in_
  rw [TrustTree.splitLines]
  nth_rewrite 1 [← whole]
  rw [unlines_dropLast some_, List.splitOn_intercalate '\n' free some_]

lemma readSigner_parse (line : Text) : parseSigner line = readSigner validKey line := rfl

/-- The files of a trust tree are checked with the parser of the trust helper. -/
theorem parseAllowedSigners_eq : parseAllowedSigners d = (trustSigners d).map (·.map Prod.fst) := by
  cases valid : validateText d with
  | none => simp [parseAllowedSigners, trustSigners, valid]
  | some text =>
    obtain ⟨⟨-, last, -, printable⟩, decoded⟩ := validateText_eq.mp valid
    obtain ⟨whole, ascii⟩ := encode_decode decoded
    rw [← whole] at last printable
    have control : ∀ c ∈ text, isBreak c = true → c = '\n' := fun c mem break_ =>
      printable_control ascii printable c mem (break_ascii break_)
    have lines := splitLines_printable ((getLast_encode (c := '\n') ascii (by decide)).mp last) control
    have records : (TrustTree.splitLines text).mapM parseSigner =
        (RecordText.splitLines text).mapM (readSigner validKey) := by rw [lines]; rfl
    simp only [parseAllowedSigners, trustSigners, valid, Option.bind_eq_bind, Option.bind_some,
      records, readSigners]
    cases (RecordText.splitLines text).mapM (readSigner validKey) with
    | none => rfl
    | some l => simp [Option.filter, apply_ite]

end Files

/-- Within the size limit of the trust helper, the three parsers agree on a file exactly where it is
sound. -/
theorem signers_agree_iff {d : Bytes} (fits : d.length ≤ maxTrustSize) :
    (trustSigners d = lifecycleSigners d ∧ trustSigners d = requestSigners d) ↔ Sound d := by
  constructor
  · rintro ⟨same, -⟩ l formed text_
    have lax := lifecycleSigners_eq.mpr ⟨l, formed, text_, rfl⟩
    rw [← same, trustSigners_eq] at lax
    obtain ⟨-, l', formed', good, text', firsts⟩ := lax
    have one : signersText l = signersText l' :=
      encode_injective formed.ascii formed'.ascii (text_.symm.trans text')
    intro p mem
    constructor
    · have there : p.2 ∈ signersText l' := by
        rw [← one, signersText, joined, List.mem_flatMap]
        exact ⟨_, List.mem_map_of_mem mem, by simp⟩
      have break_ := (formed.boundaries p mem).1
      rcases formed'.chars there with blank | visible | ⟨q, in_, feed⟩
      · rw [blank] at break_
        cases break_
      · rw [isVisible_unbroken visible] at break_
        cases break_
      · rw [feed, (good q in_).1]
    · have first : p.1 ∈ l'.map Prod.fst := by
        rw [firsts]
        exact List.mem_map_of_mem mem
      obtain ⟨q, in_, same⟩ := List.mem_map.mp first
      rw [← same]
      exact (good q in_).2
  · intro sound
    cases lax : lifecycleSigners d with
    | none =>
      have refuses : ∀ m, ∀ l, Formed l → d = encode (signersText l) → l.map Prod.fst ≠ m := by
        intro m l formed text_ same
        rw [lifecycleSigners_eq.mpr ⟨l, formed, text_, same⟩] at lax
        cases lax
      have trust : trustSigners d = none := Option.eq_none_iff_forall_ne_some.mpr fun m h => by
        obtain ⟨-, l, formed, -, text_, same⟩ := trustSigners_eq.mp h
        exact refuses m l formed text_ same
      have request : requestSigners d = none := Option.eq_none_iff_forall_ne_some.mpr fun m h => by
        obtain ⟨l, formed, -, text_, same⟩ := requestSigners_eq.mp h
        exact refuses m l formed text_ same
      rw [trust, request]
      exact ⟨rfl, rfl⟩
    | some m =>
      obtain ⟨l, formed, text_, same⟩ := lifecycleSigners_eq.mp lax
      have good := sound l formed text_
      have trust := trustSigners_eq.mpr ⟨fits, l, formed, good, text_, same⟩
      have request := requestSigners_eq.mpr ⟨l, formed, fun p mem => (good p mem).2, text_, same⟩
      rw [trust, request]
      exact ⟨rfl, rfl⟩

/-- One signer with the given key and line boundary, and a second one on its own line. -/
def sampleFile (key : String) (boundary : Char) : Bytes :=
  encode (signersText [(("zot-1", key.toList), boundary), (("zot-2", sampleKey.toList), '\n')])
where
  sampleKey : String := "AAAAC3NzaC1lZDI1NTE5AAAAIAAAAAAAAAAAAAAAAAAAAAAAAAAAAAAAAAAAAAAAAAAA"

theorem signers_agree_sample :
    (trustSigners (sampleFile sampleFile.sampleKey '\n') =
        lifecycleSigners (sampleFile sampleFile.sampleKey '\n') ∧
      trustSigners (sampleFile sampleFile.sampleKey '\n') =
        requestSigners (sampleFile sampleFile.sampleKey '\n')) ↔
    Sound (sampleFile sampleFile.sampleKey '\n') :=
  signers_agree_iff (by decide +kernel)

/-- Files that a later helper reads although the trust helper refuses them: a key that is no key blob,
and a vertical tab between two lines. -/
theorem signers_disagree :
    trustSigners (sampleFile "AAAA" '\n') = none ∧
      (lifecycleSigners (sampleFile "AAAA" '\n')).isSome = true ∧
    trustSigners (sampleFile sampleFile.sampleKey '\x0b') = none ∧
      (requestSigners (sampleFile sampleFile.sampleKey '\x0b')).isSome = true := by
  refine ⟨?_, ?_, ?_, ?_⟩
  all_goals decide +kernel

end PlatformConfig.AllowedSigners
