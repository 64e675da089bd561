import PlatformConfig.AlloyInputs

/-!
# Write blocks and their recognizer

A block that the template renders is taken by the pattern of its writer, and a configuration with one
client certificate for each writer holds no other match of the patterns.
-/
namespace PlatformConfig.AlloyBlocks

open CanonicalJson TextScan AlloyConfig AlloyInputs

section Fronts

/-- The text of a write block before its first quote. -/
def header : WriterName → Text
  | .loki => "loki.write ".toList
  | .mimir => "prometheus.remote_write ".toList

/-- An external label, cut at the first quote of its value. -/
def Label (u : Text) : Prop :=
  ∃ x gap y, u = x ++ '=' :: (gap ++ '"' :: y) ∧ Gap gap ∧ quotes x = 2 ∧ quotes y = 1

lemma quotes_quoted {s : Text} (plain : Unescaped s) : quotes ('"' :: (s ++ ['"'])) = 2 := by
  rw [quotes_cons, quotes_append, plain.quotes]
  rfl

lemma reads_label : Reads label Label := by
  refine (reads_value.bind fun _ => (reads_word ['=']).bind fun _ => reads_value.bind fun _ =>
    reads_literal [',']).imp ?_
  intro u taken
  obtain ⟨_, _, rfl, ⟨x, k, blank, plain, rfl⟩, _, _, rfl, ⟨z, blank', rfl⟩, _, _, rfl, ⟨gap, s, gap_, plain', rfl⟩,
    rfl⟩ := taken
  refine ⟨x ++ '"' :: (k ++ ['"']) ++ z, gap, s ++ ['"', ','], by simp, gap_, ?_, ?_⟩
  · rw [quotes_append, quotes_append, blank.quotes, quotes_quoted plain, blank'.quotes]
  · rw [quotes_append, plain'.quotes]
    rfl

/-- The begin of a write block: its header, a quote, and its labels. -/
def Opening (n : WriterName) (u : Text) : Prop :=
  ∃ (start : Text) (us : List Text) (rest : Text), u = header n ++ '"' :: (start ++ us.flatten ++ rest) ∧
    quotes start = 1 ∧ (∀ v ∈ us, Label v) ∧ quotes rest = 0

lemma reads_opening (n : WriterName) : Reads (opening n) (Opening n) := by
  cases n with
  | loki =>
    refine (reads_literal _).imp fun u text => ?_
    exact ⟨"default\" \x7b".toList, [], [], text, rfl, by simp, rfl⟩
  | mimir =>
    refine ((reads_literal _).bind fun _ => Reads.bind (spans_word _) fun _ => Reads.bind (spans_word _) fun _ =>
      Reads.bind (spans_word _) fun _ => (reads_many reads_label).bind fun _ => spans_word ['}']).imp ?_
    intro u taken
    obtain ⟨front, _, rfl, start, a, _, rfl, count₁, b, _, rfl, count₂, c, _, rfl, count₃, _, rest, rfl,
      ⟨us, rfl, shapes⟩, count⟩ := taken
    have split : front = header .mimir ++ '"' :: "platform_metrics\" \x7b".toList := start.trans (by decide +kernel)
    refine ⟨"platform_metrics\" \x7b".toList ++ a ++ b ++ c, us, rest, ?_, ?_, shapes, count⟩
    · rw [split]
      simp only [List.append_assoc, List.cons_append]
    · rw [quotes_append, quotes_append, quotes_append, count₁, count₂, count₃]
      decide +kernel

/-- A text with `n` quotes, one of them at its end. -/
def Closed (n : ℕ) (u : Text) : Prop := quotes u = n ∧ u.getLast? = some '"'

lemma closed_bind {α β : Type} {p : Scan α} {f : α → Scan β} {n m : ℕ} (h : Spans p n)
    (h' : ∀ a, Reads (f a) (Closed m)) : Reads (p >>= f) (Closed (n + m)) := by
  refine (Reads.bind h h').imp ?_
  intro w taken
  obtain ⟨u, v, rfl, count, count', last⟩ := taken
  exact ⟨by rw [quotes_append, count, count'], by rw [List.getLast?_append, last]; rfl⟩

lemma reads_endpoint : Reads endpoint (Closed 8) := by
  have last {α : Type} (a : α) : Reads (do word "\"TLS12\"".toList; pure a : Scan α) (Closed 2) := by
    refine (reads_word _).map.imp ?_
    intro u taken
    obtain ⟨gap, blank, rfl⟩ := taken
    refine ⟨?_, by simp⟩
    rw [quotes_append, blank.quotes]
    rfl
  exact closed_bind (spans_word _) fun _ => closed_bind (spans_word _) fun _ =>
    closed_bind (spans_setting rfl) fun _ => closed_bind (spans_word _) fun _ =>
    closed_bind (spans_word _) fun _ => closed_bind (spans_word _) fun _ =>
    closed_bind (spans_word _) fun _ => closed_bind (spans_word _) fun _ =>
    closed_bind (spans_setting rfl) fun _ => closed_bind (spans_setting rfl) fun _ =>
    closed_bind (spans_word _) fun _ => closed_bind (spans_word _) fun _ =>
    closed_bind (spans_word _) fun _ => closed_bind (spans_word _) fun _ =>
    closed_bind (spans_word _) fun _ => last _

/-- A write block up to its client certificate. -/
structure Front (n : WriterName) (f : Text) : Prop where
  shape : ∃ (start : Text) (us : List Text) (rest : Text),
    f = header n ++ '"' :: (start ++ us.flatten ++ rest) ∧ quotes start = 1 ∧ (∀ v ∈ us, Label v) ∧ quotes rest = 8
  ends : ∃ c, f.getLast? = some c ∧ isWordChar c = false

lemma Label.quotes {u : Text} (h : Label u) : quotes u = 4 := by
  obtain ⟨x, gap, y, rfl, blank, count, count'⟩ := h
  have sign : TextScan.quotes ['='] = 0 := rfl
  rw [List.append_cons, quotes_append, quotes_append, quotes_append, quotes_cons, count, sign, blank.quotes,
    count']

lemma quotes_labels {us : List Text} (labels : ∀ v ∈ us, Label v) : quotes us.flatten = 4 * us.length := by
  induction us with
  | nil => rfl
  | cons u us ih =>
    have first := (labels u List.mem_cons_self).quotes
    have rest := ih fun v mem => labels v (List.mem_cons_of_mem u mem)
    rw [List.flatten_cons, quotes_append, first, rest, List.length_cons]
    omega

lemma blank_not_word {c : Char} (blank : isBlank c = true) : isWordChar c = false := by
  by_contra word
  simp only [isBlank, isWordChar, Char.isAlphanum, Char.isAlpha, Char.isUpper, Char.isLower, Char.isDigit,
    Bool.or_eq_true, Bool.and_eq_true, decide_eq_true_eq, Bool.not_eq_false, ge_iff_le,
    UInt32.le_iff_toNat_le] at blank word
  change (9 ≤ c.val.toNat ∧ c.val.toNat ≤ 13) ∨ 28 ≤ c.val.toNat ∧ c.val.toNat ≤ 32 at blank
  rcases word with ((upper | lower) | digit) | rfl
  · have low : 65 ≤ c.val.toNat := upper.1
    omega
  · have low : 97 ≤ c.val.toNat := lower.1
    omega
  · have low : 48 ≤ c.val.toNat := digit.1
    omega
  · revert blank
    decide

lemma gap_end {f gap : Text} (closed : f.getLast? = some '"') (blank : Gap gap) :
    ∃ c, (f ++ gap).getLast? = some c ∧ isWordChar c = false := by
  cases last : gap.getLast? with
  | none => exact ⟨'"', by rw [List.getLast?_append, last, closed]; rfl, by decide⟩
  | some c =>
    have space := blank c (List.mem_of_getLast? last)
    exact ⟨c, by rw [List.getLast?_append, last]; rfl, blank_not_word space⟩

lemma pattern_front {n : WriterName} {s r : Text} {b : Block} (h : (pattern n).run s = some (b, r)) :
    ∃ f w, s = f ++ w ∧ Front n f ∧ ((credential "cert_file".toList).run w).isSome := by
  obtain ⟨_, s₁, opened, h⟩ := run_bind h
  obtain ⟨_, s₂, ended, h⟩ := run_bind h
  obtain ⟨_, s₃, named, -⟩ := run_bind h
  obtain ⟨_, s₄, cert, -⟩ := run_bind named
  obtain ⟨_, s₅, name, value⟩ := run_bind cert
  obtain ⟨_, s₆, gap_, letters⟩ := run_bind name
  obtain ⟨_, s₇, sign, -⟩ := run_bind value
  obtain ⟨u, rfl, start, us, rest, rfl, count, labels, none_⟩ := reads_opening n _ _ _ opened
  obtain ⟨v, rfl, count', closed⟩ := reads_endpoint _ _ _ ended
  obtain ⟨gap, rfl, blank⟩ := reads_blanks _ _ _ gap_
  refine ⟨header n ++ '"' :: (start ++ us.flatten ++ rest) ++ v ++ gap, s₆, by simp, ⟨⟨start, us, rest ++ v ++ gap,
    by simp, count, labels, ?_⟩, ?_⟩, ?_⟩
  · rw [quotes_append, quotes_append, none_, count', blank.quotes]
  · refine gap_end ?_ blank
    rw [List.getLast?_append, closed]
    rfl
  · rw [credential, StateT.run_bind, letters]
    change ((word ['=']).run s₅).isSome
    rw [sign]
    rfl

/-- What stands before the value of a label is not the end of a header. -/
lemma label_header {x gap z : Text} (blank : Gap gap) {n : WriterName} : x ++ '=' :: gap ≠ z ++ header n := by
  intro text
  have sign : '=' :: gap <:+ x ++ '=' :: gap := List.suffix_append _ _
  have word : ['e', ' '] <:+ z ++ header n := by
    refine List.IsSuffix.trans ?_ (List.suffix_append z (header n))
    cases n <;> decide
  rw [← text] at word
  rcases List.suffix_or_suffix_of_suffix sign word with short | long
  · have mem : '=' ∈ ['e', ' '] := short.subset List.mem_cons_self
    revert mem
    decide
  · have mem : 'e' ∈ '=' :: gap := long.subset List.mem_cons_self
    rcases List.mem_cons.mp mem with same | mem
    · revert same
      decide
    · have space := blank 'e' mem
      revert space
      decide

lemma header_inj {x z : Text} {n m : WriterName} (text : x ++ header n = z ++ header m) : n = m := by
  have first : header n <:+ x ++ header n := List.suffix_append _ _
  have second : header m <:+ x ++ header n := text ▸ List.suffix_append z (header m)
  have either := List.suffix_or_suffix_of_suffix first second
  revert either
  cases n <;> cases m <;> decide

/-- A front with more labels than another holds a quote behind a sign where the other has its header. -/
lemma front_longer {n m : WriterName} {start start' rest rest' pre pre' : Text} {us us' : List Text}
    (text : pre ++ (header n ++ '"' :: (start ++ us.flatten ++ rest)) =
      pre' ++ (header m ++ '"' :: (start' ++ us'.flatten ++ rest')))
    (labels : ∀ v ∈ us, Label v) (labels' : ∀ v ∈ us', Label v) (count : quotes rest = 8)
    (count' : quotes rest' = 8) (one : quotes start' = 1) : us.length ≤ us'.length := by
  by_contra longer
  obtain ⟨us₁, u, us₂, rfl, same⟩ : ∃ us₁ u us₂, us = us₁ ++ u :: us₂ ∧ us₂.length = us'.length := by
    have inside : us.length - 1 - us'.length < us.length := by omega
    refine ⟨us.take (us.length - 1 - us'.length), us[us.length - 1 - us'.length],
      us.drop (us.length - 1 - us'.length + 1), ?_, ?_⟩
    · rw [List.getElem_cons_drop, List.take_append_drop]
    · rw [List.length_drop]
      omega
  obtain ⟨x, gap, y, rfl, blank, -, tail⟩ := labels u (by simp)
  have cut : (pre ++ (header n ++ '"' :: (start ++ us₁.flatten ++ x)) ++ '=' :: gap) ++
      '"' :: (y ++ us₂.flatten ++ rest) = (pre' ++ header m) ++ '"' :: (start' ++ us'.flatten ++ rest') := by
    simpa using text
  refine label_header blank (front_unique cut ?_)
  have later : ∀ v ∈ us₂, Label v := fun v mem => labels v (by simp [mem])
  rw [quotes_append, quotes_append, quotes_append, quotes_append, tail, one, quotes_labels later,
    quotes_labels labels', same, count, count']

/-- Two write blocks with one client certificate are the same. -/
lemma front_same {n m : WriterName} {f g pre pre' : Text} (hf : Front n f) (hg : Front m g)
    (text : pre ++ f = pre' ++ g) : n = m ∧ pre = pre' := by
  obtain ⟨start, us, rest, rfl, one, labels, count⟩ := hf.shape
  obtain ⟨start', us', rest', rfl, one', labels', count'⟩ := hg.shape
  have same : us.length = us'.length :=
    le_antisymm (front_longer text labels labels' count count' one')
      (front_longer text.symm labels' labels count' count one)
  rw [← List.append_assoc, ← List.append_assoc] at text
  have fronts : pre ++ header n = pre' ++ header m := by
    refine front_unique text ?_
    rw [quotes_append, quotes_append, quotes_append, quotes_append, one, one', quotes_labels labels,
      quotes_labels labels', same, count, count']
  obtain rfl := header_inj fronts
  exact ⟨rfl, List.append_cancel_right fronts⟩

end Fronts

section Unique

lemma isolated_credential {c : Char} {name : Text} (free : c ∉ name) (solid : isBlank c = false) (sign : c ≠ '=') :
    Isolated (bounded (credential (c :: name))) := by
  refine isolated_letter (c := c) fun last t a r ran => ?_
  obtain ⟨_, s, first, rest⟩ := run_bind (Option.filter_eq_some_iff.mp ran).1
  obtain ⟨_, rfl, rfl⟩ := reads_literal _ _ _ _ first
  obtain ⟨_, rfl, gap, blank, rfl⟩ := reads_word _ _ _ _ rest
  refine ⟨name ++ (gap ++ ['=']), by simp, ?_⟩
  simp only [List.mem_append, List.mem_singleton, not_or]
  refine ⟨free, fun mem => ?_, sign⟩
  rw [blank c mem] at solid
  cases solid

lemma isolated_cert : Isolated (bounded (credential "cert_file".toList)) :=
  isolated_credential (c := 'c') (by decide) (by decide) (by decide)

/-- A place of a client certificate in a configuration. -/
def CertAt (t : Text) (i : ℕ) : Prop :=
  i < t.length ∧ (matchAt (bounded (credential "cert_file".toList)) i none t).isSome

lemma card_le_certs {t : Text} {places : Finset ℕ} (certs : ∀ i ∈ places, CertAt t i) :
    places.card ≤ (finditer (bounded (credential "cert_file".toList)) t).length :=
  card_le_finditerFrom isolated_cert fun i mem => ⟨Nat.zero_le i, certs i mem⟩

lemma cert_matched {n : WriterName} {q s r : Text} {b : Block} (h : (pattern n).run s = some (b, r)) :
    ∃ f w, s = f ++ w ∧ Front n f ∧ CertAt (q ++ s) (q ++ f).length := by
  obtain ⟨f, w, rfl, front, matched⟩ := pattern_front h
  have some_ : w ≠ [] := by
    rintro rfl
    revert matched
    decide
  refine ⟨f, w, rfl, front, ?_, ?_⟩
  · have positive := List.length_pos_iff.mpr some_
    simp only [List.length_append]
    omega
  obtain ⟨c, last, other⟩ := front.ends
  have before : (q ++ f).getLast? = some c := by
    rw [List.getLast?_append, last]
    rfl
  obtain ⟨x, ran⟩ := Option.isSome_iff_exists.mp matched
  have kept : (bounded (credential "cert_file".toList) (some c)).run w = some x :=
    Option.filter_eq_some_iff.mpr ⟨ran, by simp [other]⟩
  rw [← List.append_assoc, matchAt_append, before, Option.isSome_map]
  change ((bounded (credential "cert_file".toList) (some c)).run w).isSome
  rw [kept]
  rfl

variable {names : List WriterName} {t : Text} {pre : WriterName → Text}

/-- A certificate belongs to one write block. -/
lemma cert_block {n m : WriterName} {p q f g w v : Text} (first : t = p ++ (f ++ w)) (second : t = q ++ (g ++ v))
    (hf : Front n f) (hg : Front m g) (same : (p ++ f).length = (q ++ g).length) : n = m ∧ p = q := by
  rw [first, ← List.append_assoc, ← List.append_assoc] at second
  exact front_same hf hg (List.append_inj_left second same)

/-- The write blocks of a configuration have as many client certificates, so there is no further block. -/
lemma pattern_unique (distinct : names.Nodup)
    (certs : (finditer (bounded (credential "cert_file".toList)) t).length = names.length)
    (blocks : ∀ n ∈ names, ∃ s x, t = pre n ++ s ∧ (pattern n).run s = some x) {n : WriterName}
    {p s r : Text} {b : Block} (text : t = p ++ s) (ran : (pattern n).run s = some (b, r)) : p = pre n := by
  by_contra other
  have fronts (m : names.toFinset) : ∃ f w, t = pre m ++ (f ++ w) ∧ Front m f ∧ CertAt t (pre m ++ f).length := by
    obtain ⟨s, x, split, ran⟩ := blocks m (List.mem_toFinset.mp m.2)
    obtain ⟨f, w, rfl, front, matched⟩ := cert_matched (q := pre m) ran
    exact ⟨f, w, split, front, by rw [split]; exact matched⟩
  choose f w split front matched using fronts
  obtain ⟨g, v, rfl, front', matched'⟩ := cert_matched (q := p) ran
  rw [← text] at matched'
  let own : Finset ℕ := Finset.univ.image fun m : names.toFinset => (pre m ++ f m).length
  have fresh : (p ++ g).length ∉ own := by
    intro there
    obtain ⟨m, -, same⟩ := Finset.mem_image.mp there
    obtain ⟨rfl, same⟩ := cert_block text (split m) front' (front m) same.symm
    exact other same
  have all : own.card = names.length := by
    rw [Finset.card_image_of_injective, Finset.card_univ, Fintype.card_coe, List.toFinset_card_of_nodup distinct]
    exact fun m m' same => Subtype.ext (cert_block (split m) (split m') (front m) (front m') same).1
  have bound : (insert (p ++ g).length own).card ≤ names.length := by
    rw [← certs]
    refine card_le_certs fun i mem => ?_
    rcases Finset.mem_insert.mp mem with rfl | mem
    · exact matched'
    · obtain ⟨m, -, rfl⟩ := Finset.mem_image.mp mem
      exact matched m
  rw [Finset.card_insert_of_notMem fresh, all] at bound
  omega

/-- The pattern of a writer matches its block and nothing else. -/
theorem finditer_pattern (distinct : names.Nodup)
    (certs : (finditer (bounded (credential "cert_file".toList)) t).length = names.length)
    (blocks : ∀ n ∈ names, ∃ s x, t = pre n ++ s ∧ (pattern n).run s = some x) {n : WriterName}
    {s r : Text} {b : Block} (text : t = pre n ++ s) (ran : (pattern n).run s = some (b, r)) :
    finditer (fun _ => pattern n) t = [b] := by
  have matched : matchAt (fun _ => pattern n) (pre n).length none t = some b := by
    rw [text, matchAt_append, ran]
    rfl
  have inside : (pre n).length < t.length := by
    obtain ⟨f, w, rfl, -, inside, -⟩ := cert_matched (q := pre n) ran
    rw [← text, List.length_append] at inside
    omega
  refine finditerFrom_single inside matched fun j _ other => ?_
  cases found : matchAt (fun _ => pattern n) j none t with
  | none => rfl
  | some b' =>
    obtain ⟨p, s', r', split, rfl, ran'⟩ := matchAt_eq_some found
    exact absurd (congrArg List.length (pattern_unique distinct certs blocks split ran')) other

end Unique

section Rendered

lemma isQuoted_plain {c : Char} (plain : Plain c) : isQuoted c = true := by
  simp [isQuoted, plain.quote, plain.backslash, plain.lower]

lemma quote_plain {s : String} (plain : ∀ c ∈ s.toList, Plain c) : quote s = '"' :: (s.toList ++ ['"']) := by
  have same : s.toList.flatMap escapeChar = s.toList := by
    have each : s.toList.flatMap escapeChar = s.toList.flatMap fun c => [c] :=
      List.flatMap_congr fun c mem => escapeChar_plain (plain c mem)
    rw [each, List.flatMap_singleton']
  rw [quote, same]
  rfl

lemma unescaped_plain {s : String} (plain : ∀ c ∈ s.toList, Plain c) : Unescaped s.toList :=
  fun c mem => isQuoted_plain (plain c mem)

lemma gap_space : Gap [' '] := by simp [Gap, isBlank]

variable {url ca server cert key : Text}

/-- An endpoint in the template's layout, up to the gaps before its name and before the sign of its URL. -/
lemma takes_endpoint {u w : Text} (named : u.dropWhile isBlank = "endpoint".toList)
    (sign : w.dropWhile isBlank = ['=']) (hu : Unescaped url) (hc : Unescaped ca) (hs : Unescaped server) :
    Takes endpoint (u ++ (" \x7b\n    url".toList ++ (w ++ [' '])) ++ '"' :: (url ++ ['"']) ++
      "\n    follow_redirects = false\n".toList ++ ("\n    tls_config \x7b\n      ca_file              = ".toList ++
      '"' :: (ca ++ ['"']) ++ "\n      server_name          = ".toList ++ '"' :: (server ++ ['"']) ++
      "\n      insecure_skip_verify = false\n      min_version          = \"TLS12\"".toList)) (url, ca, server) := by
  refine Takes.text ((takes_word named (by decide)).bind <| (takes_word (u := " \x7b".toList) rfl (by decide)).bind <|
    (takes_setting (u := "\n    url".toList) rfl (by decide) sign gap_space hu).bind <|
    (takes_word (u := "\n    follow_redirects".toList) rfl (by decide)).bind <|
    (takes_word (u := " =".toList) rfl (by decide)).bind <|
    (takes_word (u := " false".toList) rfl (by decide)).bind <|
    (takes_word (u := "\n\n    tls_config".toList) rfl (by decide)).bind <|
    (takes_word (u := " \x7b".toList) rfl (by decide)).bind <|
    (takes_setting (u := "\n      ca_file".toList) rfl (by decide)
      (show "              =".toList.dropWhile isBlank = ['='] from rfl) gap_space hc).bind <|
    (takes_setting (u := "\n      server_name".toList) rfl (by decide)
      (show "          =".toList.dropWhile isBlank = ['='] from rfl) gap_space hs).bind <|
    (takes_word (u := "\n      insecure_skip_verify".toList) rfl (by decide)).bind <|
    (takes_word (u := " =".toList) rfl (by decide)).bind <|
    (takes_word (u := " false".toList) rfl (by decide)).bind <|
    (takes_word (u := "\n      min_version".toList) rfl (by decide)).bind <|
    (takes_word (u := "          =".toList) rfl (by decide)).bind <|
    (takes_word (u := " \"TLS12\"".toList) rfl (by decide)).map) ?_
  simp only [String.reduceToList, List.append_assoc, List.cons_append, List.nil_append]

/-- The client certificate and its key in the template's layout. -/
lemma takes_credentials (hc : Unescaped cert) (hk : Unescaped key) : Takes credentials
    ("\n      cert_file = ".toList ++ '"' :: (cert ++ ['"']) ++ "\n      key_file  = ".toList ++
      '"' :: (key ++ ['"']) ++ ("\n    \x7d\n".toList ++ "  \x7d".toList)) (cert, key) := by
  refine Takes.text ((takes_setting (u := "\n      cert_file".toList) rfl (by decide)
      (show " =".toList.dropWhile isBlank = ['='] from rfl) gap_space hc).bind <|
    (takes_setting (u := "\n      key_file".toList) rfl (by decide)
      (show "  =".toList.dropWhile isBlank = ['='] from rfl) gap_space hk).bind <|
    (takes_word (u := "\n    \x7d".toList) rfl (by decide)).bind <|
    (takes_word (u := "\n  \x7d".toList) rfl (by decide)).map) ?_
  simp only [String.reduceToList, List.append_assoc, List.cons_append, List.nil_append]

/-- A label of the template, with the line break before it. -/
def labelText (l : String × String) : Text := "\n    ".toList ++ quote l.1 ++ " = ".toList ++ quote l.2 ++ [',']

lemma takes_label {l : String × String} (hk : ∀ c ∈ l.1.toList, Plain c) (hv : ∀ c ∈ l.2.toList, Plain c) :
    Takes label (labelText l) () := by
  have line : Gap "\n    ".toList := by simp [Gap, isBlank]
  refine Takes.text ((takes_value line (unescaped_plain hk)).bind <|
    (takes_word (u := " =".toList) rfl (by decide)).bind <|
    (takes_value gap_space (unescaped_plain hv)).bind (takes_literal [','])) ?_
  unfold labelText
  simp only [quote_plain hk, quote_plain hv, String.reduceToList, List.append_assoc, List.cons_append,
    List.nil_append]

lemma takes_labels {l : List (String × String)}
    (plain : ∀ x ∈ l, (∀ c ∈ x.1.toList, Plain c) ∧ ∀ c ∈ x.2.toList, Plain c) :
    Takes (do many label; word ['}']) ((l.map labelText).flatten ++ "\n  \x7d".toList) () := by
  intro r
  have taken : ∀ u ∈ l.map labelText, Takes label u () := by
    intro u mem
    obtain ⟨x, there, rfl⟩ := List.mem_map.mp mem
    exact takes_label (plain x there).1 (plain x there).2
  have some_ : ∀ u ∈ l.map labelText, u ≠ [] := by
    intro u mem
    obtain ⟨x, -, rfl⟩ := List.mem_map.mp mem
    unfold labelText
    simp
  have stop : label.run ("\n  \x7d".toList ++ r) = none := rfl
  rw [List.append_assoc, StateT.run_bind, many_taken taken some_ stop]
  exact takes_word (u := "\n  \x7d".toList) rfl (by decide) r

/-- The lines of the labels, and the line break before them. -/
lemma labelLines_eq (v : Vars) : '\n' :: labelLines v =
    ((dictsort ((labels v).getD [])).map labelText).flatten ++ ['\n'] := by
  unfold labelLines
  induction dictsort ((labels v).getD []) with
  | nil => rfl
  | cons l ls ih =>
    rw [List.map_cons, List.flatten_cons, List.append_assoc, ← ih, List.flatMap_cons]
    unfold labelText
    simp only [String.reduceToList, List.append_assoc, List.cons_append, List.nil_append]

lemma takes_unit {x : Char} (mem : [x] ∈ [['h'], ['m'], ['s']]) :
    Takes (literal ['h'] <|> literal ['m'] <|> literal ['s']) [x] () := by
  intro r
  simp only [List.mem_cons, List.cons.injEq, and_true, List.not_mem_nil, or_false] at mem
  rcases mem with rfl | rfl | rfl <;> rfl

/-- A duration is a number and the letter of its unit. -/
lemma keepalive_split {wal : Text} (h : isKeepalive wal = true) : ∃ ds x, wal = ds ++ [x] ∧ ds ≠ [] ∧
    ds.head? ≠ some '0' ∧ (∀ c ∈ ds, c.isDigit = true) ∧ x.isDigit = false ∧ [x] ∈ [['h'], ['m'], ['s']] := by
  simp only [isKeepalive, Bool.and_eq_true, decide_eq_true_eq, List.contains_iff_mem] at h
  obtain ⟨⟨some_, positive⟩, mem⟩ := h
  obtain ⟨x, unit⟩ : ∃ x, wal.dropWhile Char.isDigit = [x] := by
    simp only [List.mem_cons, List.not_mem_nil, or_false] at mem
    rcases mem with h | h | h <;> exact ⟨_, h⟩
  have other : x.isDigit = false := by
    have head := List.head?_dropWhile_not Char.isDigit wal
    simpa [unit] using head
  refine ⟨wal.takeWhile Char.isDigit, x, ?_, some_, positive, fun c mem => List.mem_takeWhile_imp mem, other,
    unit ▸ mem⟩
  rw [← unit]
  exact (List.takeWhile_append_dropWhile ..).symm

lemma takes_keepalive {wal : Text} (h : isKeepalive wal = true) :
    Takes keepalive (' ' :: '"' :: (wal ++ ['"'])) () := by
  obtain ⟨ds, x, rfl, some_, positive, digits, other, mem⟩ := keepalive_split h
  intro r
  have taken : (ds ++ ([x] ++ (['"'] ++ r))).takeWhile Char.isDigit = ds := by
    rw [List.takeWhile_append_of_pos digits, List.singleton_append, List.takeWhile_cons_of_neg (by simp [other]),
      List.append_nil]
  have left : (ds ++ ([x] ++ (['"'] ++ r))).dropWhile Char.isDigit = [x] ++ (['"'] ++ r) := by
    rw [List.dropWhile_append_of_pos digits, List.singleton_append, List.dropWhile_cons_of_neg (by simp [other])]
  have text : ' ' :: '"' :: (ds ++ [x] ++ ['"']) ++ r = [' ', '"'] ++ (ds ++ ([x] ++ (['"'] ++ r))) := by simp
  have quote_ : Takes (word ['"']) [' ', '"'] () := takes_word rfl (by decide)
  rw [text, keepalive, StateT.run_bind, quote_]
  change StateT.run (if (ds ++ ([x] ++ (['"'] ++ r))).takeWhile Char.isDigit = [] ∨
      ((ds ++ ([x] ++ (['"'] ++ r))).takeWhile Char.isDigit).head? = some '0' then failure
    else do
      literal ['h'] <|> literal ['m'] <|> literal ['s']
      literal ['"']) ((ds ++ ([x] ++ (['"'] ++ r))).dropWhile Char.isDigit) = _
  rw [taken, left, if_neg (by simp [some_, positive]), StateT.run_bind, takes_unit mem]
  exact takes_literal ['"'] r

lemma plain_digit {c : Char} (digit : c.isDigit = true) : Plain c := by
  simp only [Char.isDigit, Bool.and_eq_true, decide_eq_true_eq, ge_iff_le, UInt32.le_iff_toNat_le] at digit
  have low : 48 ≤ c.toNat := digit.1
  have high : c.toNat ≤ 57 := digit.2
  refine ⟨by omega, by omega, ?_, ?_⟩
  · rintro rfl
    revert low
    decide
  · rintro rfl
    revert high
    decide

lemma keepalive_plain {wal : Text} (h : isKeepalive wal = true) : ∀ c ∈ wal, Plain c := by
  obtain ⟨ds, x, rfl, -, -, digits, -, mem⟩ := keepalive_split h
  intro c mem_
  rcases List.mem_append.mp mem_ with there | there
  · exact plain_digit (digits c there)
  · obtain rfl := List.mem_singleton.mp there
    simp only [List.mem_cons, List.cons.injEq, and_true, List.not_mem_nil, or_false] at mem
    rcases mem with rfl | rfl | rfl <;> exact ⟨by decide, by decide, by decide, by decide⟩

variable {v : Vars} {n : WriterName} {f : Fields} {wal : String}

/-- What the template's block of a writer is made from, with no character that `to_json` escapes. -/
structure Printable (v : Vars) (n : WriterName) (f : Fields) : Prop where
  read : fieldsOf v n = some f
  some_ : f.url ≠ "" ∧ f.caFile ≠ "" ∧ f.clientCertFile ≠ ""
  url : ∀ c ∈ f.url.toList, Plain c
  caFile : ∀ c ∈ f.caFile.toList, Plain c
  serverName : ∀ c ∈ f.serverName.toList, Plain c
  clientCertFile : ∀ c ∈ f.clientCertFile.toList, Plain c
  clientKeyFile : ∀ c ∈ f.clientKeyFile.toList, Plain c

/-- The strings of a writer's block. -/
def made (f : Fields) : Block := ⟨f.url.toList, f.caFile.toList, f.serverName.toList, f.clientCertFile.toList,
  f.clientKeyFile.toList⟩

lemma fieldsOf_spec (h : fieldsOf v n = some f) : strOf v (fieldName n "url") = some f.url ∧
    strOf v (fieldName n "ca_file") = some f.caFile ∧ strOf v (fieldName n "server_name") = some f.serverName ∧
    strOf v (fieldName n "client_cert_file") = some f.clientCertFile ∧
    strOf v (fieldName n "client_key_file") = some f.clientKeyFile := by
  simp only [fieldsOf, Option.bind_eq_bind, Option.bind_eq_some_iff, Option.pure_def, Option.some.injEq] at h
  obtain ⟨_, url, _, ca, _, server, _, cert, _, key, rfl⟩ := h
  exact ⟨url, ca, server, cert, key⟩

/-- The TLS settings of a block, and the end of its endpoint. -/
lemma tlsConfig_eq (h : Printable v n f) : tlsConfig v n =
    "\n    tls_config \x7b\n      ca_file              = ".toList ++ '"' :: (f.caFile.toList ++ ['"']) ++
    "\n      server_name          = ".toList ++ '"' :: (f.serverName.toList ++ ['"']) ++
    "\n      insecure_skip_verify = false\n      min_version          = \"TLS12\"".toList ++
    ("\n      cert_file = ".toList ++ '"' :: (f.clientCertFile.toList ++ ['"']) ++ "\n      key_file  = ".toList ++
      '"' :: (f.clientKeyFile.toList ++ ['"'])) ++ "\n    \x7d\n".toList := by
  obtain ⟨-, ca, server, cert, key⟩ := fieldsOf_spec h.read
  unfold tlsConfig isEmpty toJson
  simp only [ca, server, cert, key, Option.getD_some, decide_eq_true_eq, h.some_.2.1, h.some_.2.2, if_false,
    quote_plain h.caFile, quote_plain h.serverName, quote_plain h.clientCertFile, quote_plain h.clientKeyFile]

lemma takes_loki (h : Printable v .loki f) : Takes (pattern .loki) (lokiBlock v) (made f) := by
  refine Takes.text ((takes_literal _).bind <| (takes_endpoint (u := "\n  endpoint".toList) (w := " =".toList) rfl rfl
    (unescaped_plain h.url) (unescaped_plain h.caFile) (unescaped_plain h.serverName)).bind <|
    (takes_credentials (unescaped_plain h.clientCertFile) (unescaped_plain h.clientKeyFile)).bind <|
    Takes.map (takes_word (u := "\n\x7d".toList) rfl (by decide))) ?_
  have url := (fieldsOf_spec h.read).1
  have opening_ : "loki.write \"default\" \x7b\n  endpoint \x7b\n    url = ".toList = "loki.write \"default\" \x7b".toList ++
      ("\n  endpoint".toList ++ (" \x7b\n    url".toList ++ (" =".toList ++ [' ']))) := by decide +kernel
  unfold lokiBlock toJson
  simp only [tlsConfig_eq h, opening_, url, Option.getD_some, quote_plain h.url, List.append_assoc, List.cons_append]

/-- What the template's block of the metrics writer has besides. -/
structure Measured (v : Vars) (wal : String) : Prop where
  labels : ∀ l ∈ (labels v).getD [], (∀ c ∈ l.1.toList, Plain c) ∧ ∀ c ∈ l.2.toList, Plain c
  read : strOf v "grafana_alloy_prometheus_wal_max_keepalive_time" = some wal
  keepalive : isKeepalive wal.toList = true
  bearer : isEmpty v (fieldName .mimir "bearer_token_file") = true

lemma takes_mimir_opening (m : Measured v wal) : Takes (opening .mimir)
    ("prometheus.remote_write \"platform_metrics\" \x7b\n  external_labels = \x7b".toList ++ '\n' :: labelLines v ++
      "  \x7d".toList) () := by
  refine Takes.text ((takes_literal _).bind <| (takes_word (u := "\n  external_labels".toList) rfl (by decide)).bind <|
    (takes_word (u := " =".toList) rfl (by decide)).bind <| (takes_word (u := " \x7b".toList) rfl (by decide)).bind <|
    takes_labels (l := dictsort ((labels v).getD [])) fun l mem => m.labels l (List.mem_mergeSort.mp mem)) ?_
  simp only [labelLines_eq, String.reduceToList, List.append_assoc, List.cons_append, List.nil_append]

lemma takes_mimir_closing (h : isKeepalive wal.toList = true) : Takes (closing .mimir)
    ("\n\n  wal \x7b\n    max_keepalive_time = ".toList ++ '"' :: (wal.toList ++ ['"']) ++ "\n  \x7d\n\x7d".toList) () := by
  refine Takes.text ((takes_word (u := "\n\n  wal".toList) rfl (by decide)).bind <|
    (takes_word (u := " \x7b".toList) rfl (by decide)).bind <|
    (takes_word (u := "\n    max_keepalive_time".toList) rfl (by decide)).bind <|
    (takes_word (u := " =".toList) rfl (by decide)).bind <| (takes_keepalive h).bind <|
    (takes_word (u := "\n  \x7d".toList) rfl (by decide)).bind <| takes_word (u := "\n\x7d".toList) rfl (by decide)) ?_
  simp only [String.reduceToList, List.append_assoc, List.cons_append, List.nil_append]

lemma takes_mimir (h : Printable v .mimir f) (m : Measured v wal) :
    Takes (pattern .mimir) (mimirBlock v) (made f) := by
  refine Takes.text ((takes_mimir_opening m).bind <|
    (takes_endpoint (u := "\n\n  endpoint".toList) (w := "              =".toList) rfl rfl
      (unescaped_plain h.url) (unescaped_plain h.caFile) (unescaped_plain h.serverName)).bind <|
    (takes_credentials (unescaped_plain h.clientCertFile) (unescaped_plain h.clientKeyFile)).bind <|
    Takes.map (takes_mimir_closing m.keepalive)) ?_
  have url := (fieldsOf_spec h.read).1
  have endpoint_ : "\n\n  endpoint \x7b\n    url              = ".toList = "\n\n  endpoint".toList ++
      (" \x7b\n    url".toList ++ ("              =".toList ++ [' '])) := by decide +kernel
  unfold mimirBlock bearerToken toJson
  simp only [tlsConfig_eq h, endpoint_, url, m.read, m.bearer, if_true, Option.getD_some, quote_plain h.url,
    quote_plain (keepalive_plain m.keepalive), List.append_assoc, List.cons_append, List.nil_append]

/-- The pattern of a writer takes the block that its template renders. -/
theorem takes_block (h : Printable v n f) (m : n = .mimir → ∃ wal, Measured v wal) :
    Takes (pattern n) (block v n) (made f) := by
  have some_ : isEmpty v (fieldName n "url") = false := by
    simp [isEmpty, (fieldsOf_spec h.read).1, h.some_.1]
  unfold block
  rw [some_]
  cases n with
  | loki => exact takes_loki h
  | mimir =>
    obtain ⟨wal, m⟩ := m rfl
    exact takes_mimir h m

end Rendered

end PlatformConfig.AlloyBlocks
