import PlatformConfig.SshOptions

/-!
# Searching SSH arguments for settings

The regular expressions with which SSH arguments are searched: the parts of a keyword with any white
space between them, an equals sign or white space, and one of several values with white space or the
end behind it. They are searched in lower case; an option that stands in a line as it is and has one of
the values is found.
-/
namespace PlatformConfig.SshPatterns

open ShellWords SshOptions

/-! ## Lower case -/

/-- What a character beyond ASCII becomes behind the text before it and in front of the text after it. -/
abbrev Folding := Text → Char → Text → Text

/-- `str.lower` -/
def lower (other : Folding) (before : Text) : Text → Text
  | [] => []
  | c :: t => (if c.toNat < 128 then [c.toLower] else other before c t) ++ lower other (before ++ [c]) t

lemma lower_append (other : Folding) (before a b : Text) :
    ∃ a', lower other before (a ++ b) = a' ++ lower other (before ++ a) b := by
  induction a generalizing before with
  | nil => exact ⟨[], by simp⟩
  | cons c a ih =>
    obtain ⟨a', rest⟩ := ih (before ++ [c])
    refine ⟨(if c.toNat < 128 then [c.toLower] else other before c (a ++ b)) ++ a', ?_⟩
    rw [List.cons_append, lower, rest]
    simp

lemma lower_ascii {other : Folding} {t : Text} (ascii : ∀ c ∈ t, c.toNat < 128) (before rest : Text) :
    lower other before (t ++ rest) = t.map Char.toLower ++ lower other (before ++ t) rest := by
  induction t generalizing before with
  | nil => simp
  | cons c t ih =>
    obtain ⟨first, later⟩ := List.forall_mem_cons.mp ascii
    rw [List.cons_append, lower, if_pos first, ih later]
    simp

lemma lower_eq_map {other : Folding} {t : Text} (ascii : ∀ c ∈ t, c.toNat < 128) (before : Text) :
    lower other before t = t.map Char.toLower := by
  have whole := @lower_ascii other t ascii before []
  simpa [lower] using whole

/-- A character that is a letter of ASCII in lower case is one of ASCII. -/
lemma ascii_of_toLower {c : Char} (h : c.toLower.toNat < 128) : c.toNat < 128 := by
  unfold Char.toLower at h
  split at h
  · rename_i upper
    have bound := UInt32.le_iff_toNat_le.mp upper.2
    have last : 'Z'.val.toNat = 90 := rfl
    simp only [Char.toNat]
    omega
  · exact h

lemma ascii_of_map {t u : Text} (same : t.map Char.toLower = u) (ascii : ∀ c ∈ u, c.toNat < 128) :
    ∀ c ∈ t, c.toNat < 128 := by
  intro c member
  apply ascii_of_toLower
  apply ascii
  rw [← same]
  exact List.mem_map_of_mem member

/-! ## Patterns -/

/-- `\s` -/
def isSpace (c : Char) : Bool :=
  (9 ≤ c.toNat && c.toNat ≤ 13) || (28 ≤ c.toNat && c.toNat ≤ 32) || (0x2000 ≤ c.toNat && c.toNat ≤ 0x200a) ||
    c.toNat ∈ [0x85, 0xa0, 0x1680, 0x2028, 0x2029, 0x202f, 0x205f, 0x3000]

/-- Each part behind `\s*`. -/
def parts : List Text → Text → Option Text
  | [], t => some t
  | p :: ps, t =>
    let t := t.dropWhile isSpace
    if p <+: t then parts ps (t.drop p.length) else none

/-- `\s*(?:=|\s)\s*` in front of a text that opens with neither. -/
def separated (t : Text) : Option Text :=
  match t.dropWhile isSpace with
  | '=' :: rest => some (rest.dropWhile isSpace)
  | rest => if rest.length < t.length then some rest else none

/-- A keyword in parts with one of the values, and `(?=\s|$)` behind it. -/
def settingAt (keyword values : List Text) (t : Text) : Bool :=
  match keyword with
  | [] => false
  | first :: rest =>
    first <+: t &&
      match (parts rest (t.drop first.length)).bind separated with
      | none => false
      | some t => values.any fun v => v <+: t && (t.drop v.length).head?.all isSpace

/-- `re.search` -/
def search (pattern : Text → Bool) (t : Text) : Bool := t.tails.any pattern

def Solid (t : Text) : Prop := ∃ c u, t = c :: u ∧ isSpace c = false

lemma Solid.dropWhile {t : Text} (h : Solid t) (r : Text) : (t ++ r).dropWhile isSpace = t ++ r := by
  obtain ⟨c, u, rfl, solid⟩ := h
  rw [List.cons_append, List.dropWhile_cons, solid, if_neg Bool.false_ne_true]

lemma parts_flatten {ps : List Text} (solid : ∀ p ∈ ps, Solid p) (r : Text) :
    parts ps (ps.flatten ++ r) = some r := by
  induction ps with
  | nil => rfl
  | cons p ps ih =>
    obtain ⟨first, rest⟩ := List.forall_mem_cons.mp solid
    simp only [parts, List.flatten_cons, List.append_assoc, first.dropWhile, List.prefix_append, if_true,
      List.drop_left]
    exact ih rest

/-- A keyword in one piece with an equals sign and a value is found. -/
lemma search_setting {keyword values : List Text} {value post : Text} (pre : Text) (some_ : keyword ≠ [])
    (solid : ∀ p ∈ keyword, Solid p) (listed : value ∈ values) (solid' : Solid value)
    (end_ : ∀ c ∈ post.head?, isSpace c = true) :
    search (settingAt keyword values) (pre ++ (keyword.flatten ++ '=' :: (value ++ post))) = true := by
  apply List.any_eq_true.mpr
  refine ⟨_, (List.mem_tails _ _).mpr (List.suffix_append pre _), ?_⟩
  obtain ⟨first, rest, rfl⟩ := List.exists_cons_of_ne_nil some_
  have sign : isSpace '=' = false := by decide
  have read : separated ('=' :: (value ++ post)) = some (value ++ post) := by
    rw [separated, List.dropWhile_cons, sign, if_neg Bool.false_ne_true]
    simp only [solid'.dropWhile]
  have found := parts_flatten (List.forall_mem_cons.mp solid).2 ('=' :: (value ++ post))
  simp only [settingAt, List.flatten_cons, List.append_assoc, List.prefix_append, decide_true, Bool.true_and,
    List.drop_left, found, Option.bind_some, read]
  apply List.any_eq_true.mpr
  refine ⟨value, listed, ?_⟩
  cases post with
  | nil => simp
  | cons c post => simpa using end_ c rfl

/-- A keyword and a value are found in any case, whatever stands before them. -/
lemma search_lower {other : Folding} {keyword values : List Text} {key value pre post : Text}
    (some_ : keyword ≠ []) (solid : ∀ p ∈ keyword, Solid p) (solid' : ∀ v ∈ values, Solid v)
    (ascii : ∀ p ∈ keyword, ∀ c ∈ p, c.toNat < 128) (ascii' : ∀ v ∈ values, ∀ c ∈ v, c.toNat < 128)
    (named : key.map Char.toLower = keyword.flatten) (listed : value.map Char.toLower ∈ values)
    (end_ : ∀ c ∈ post.head?, c.toNat < 128 ∧ isSpace c.toLower = true) :
    search (settingAt keyword values) (lower other [] (pre ++ (key ++ '=' :: value ++ post))) = true := by
  have plain : ∀ c ∈ key ++ '=' :: value, c.toNat < 128 := by
    intro c member
    rcases List.mem_append.mp member with front | back
    · refine ascii_of_map named (fun d inside => ?_) c front
      obtain ⟨p, member', inside⟩ := List.mem_flatten.mp inside
      exact ascii p member' d inside
    · rcases List.mem_cons.mp back with rfl | back
      · decide
      · exact ascii_of_map rfl (ascii' _ listed) c back
  obtain ⟨front, split⟩ := lower_append other [] pre (key ++ '=' :: value ++ post)
  have sign : '='.toLower = '=' := by decide
  rw [split, lower_ascii plain, List.map_append, named, List.map_cons, sign, List.append_assoc, List.cons_append]
  apply search_setting front some_ solid listed (solid' _ listed)
  intro c first
  cases post with
  | nil => simp [lower] at first
  | cons d post =>
    obtain ⟨low, space⟩ := end_ d rfl
    simp only [lower, if_pos low, List.singleton_append, List.head?_cons, Option.mem_def, Option.some.injEq] at first
    rwa [← first]

lemma space_of_blank {c : Char} (h : isBlank c = true ∨ c.toNat = 12) : c.toNat < 128 ∧ isSpace c.toLower = true := by
  have low : c.toNat < 33 := by
    rcases h with blank | feed
    · simp only [isBlank, Bool.or_eq_true, decide_eq_true_eq] at blank
      rcases blank with ((rfl | rfl) | rfl) | rfl <;> decide
    · omega
  have table : ∀ n < 33, isBlank (Char.ofNat n) = true ∨ n = 12 → isSpace (Char.ofNat n).toLower = true := by decide
  have same : Char.ofNat c.toNat = c := Char.ofNat_toNat c
  refine ⟨by omega, ?_⟩
  rw [← same]
  exact table c.toNat low (by rwa [same])

/-- An option that stands in a line as it is has its keyword and its one argument found there. -/
lemma search_option {other : Folding} {keyword values : List Text} {line text : Text} {arguments : List Text}
    {value : Text} (some_ : keyword ≠ []) (solid : ∀ p ∈ keyword, Solid p) (solid' : ∀ v ∈ values, Solid v)
    (ascii : ∀ p ∈ keyword, ∀ c ∈ p, c.toNat < 128) (ascii' : ∀ v ∈ values, ∀ c ∈ v, c.toNat < 128)
    (bare : Bare text) (stands : Stands text line) (read : readOption text = some (keyword.flatten, arguments))
    (argument : value ∈ arguments) (listed : value.map Char.toLower ∈ values) :
    search (settingAt keyword values) (lower other [] line) = true := by
  obtain ⟨pre, key, value', tail, same, _, _, _, named, only, feeds⟩ := readOption_bare bare read
  obtain rfl := only value argument
  obtain ⟨front, post, whole, blank⟩ := stands
  have cut : line = (front ++ pre) ++ (key ++ '=' :: value ++ (tail ++ post)) := by simp [whole, same]
  rw [cut]
  apply search_lower some_ solid solid' ascii ascii' named listed
  intro c first
  cases tail with
  | nil => exact space_of_blank (Or.inl (blank c first))
  | cons d tail =>
    have own : d = c := by simpa using first
    exact space_of_blank (Or.inr (feeds c (by simp [own])))

end PlatformConfig.SshPatterns
