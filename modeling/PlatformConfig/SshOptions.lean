import PlatformConfig.ShellWords

/-!
# The options of ssh

The `-o` options among the words of an ssh command line, and the keyword and the arguments of such an
option. A word that opens with a hyphen is a cluster of flags; the first flag with an argument takes
the rest of the word, or else the next word. The first word that is no option is the host, and a
second one ends the options. A keyword is separated from its arguments by blanks or by one equals
sign, quotes enclose arguments, and keywords are read in lower case.
-/
namespace PlatformConfig.SshOptions

open ShellWords

/-! ## The command line -/

/-- What a cluster of flags ends with. -/
inductive Cluster
  | done
  | refused
  | argument (flag : Char) (value : Text)

/-- Whether a flag takes an argument; other characters are no flags. -/
abbrev Flags := Char → Option Bool

def readCluster (flags : Flags) : Text → Cluster
  | [] => .done
  | c :: rest =>
    match flags c with
    | none => .refused
    | some false => readCluster flags rest
    | some true => .argument c rest

def given (flag : Char) (value : Text) : List Text := if flag = 'o' then [value] else []

/-- The arguments of `-o`, in order. -/
def optionTexts (flags : Flags) : Bool → List Text → List Text
  | _, [] => []
  | host, w :: ws =>
    match w with
    | ['-', '-'] =>
      match host, ws with
      | false, _ :: ws => optionTexts flags true ws
      | _, _ => []
    | '-' :: c :: cluster =>
      match readCluster flags (c :: cluster) with
      | .done => optionTexts flags host ws
      | .refused => []
      | .argument flag [] =>
        match ws with
        | [] => []
        | value :: ws => given flag value ++ optionTexts flags host ws
      | .argument flag value => given flag value ++ optionTexts flags host ws
    | _ => if host then [] else optionTexts flags true ws

/-- The flags of ssh. -/
def sshFlags : Flags := fun c =>
  if c ∈ ['1', '2', '4', '6', 'a', 'f', 'g', 'k', 'n', 'q', 's', 't', 'v', 'x', 'A', 'C', 'G', 'K', 'M', 'N',
    'T', 'V', 'X', 'Y', 'y'] then some false
  else if c ∈ ['b', 'c', 'e', 'i', 'l', 'm', 'o', 'p', 'B', 'D', 'E', 'F', 'I', 'J', 'L', 'O', 'P', 'Q', 'R',
    'S', 'W', 'w'] then some true
  else none

/-! ## An option -/

/-- A token of an option: up to a blank or an equals sign, which belongs to what separates it from the
rest, or up to the end of quotes. -/
def keyword (t : Text) : Option (Text × Text) :=
  match t.span fun c => !(isBlank c || c = '"' || c = '=') with
  | (front, []) => some (front, [])
  | (front, '"' :: back) =>
    match back.span (· ≠ '"') with
    | (_, []) => none
    | (inside, _ :: rest) => some (front ++ inside, rest.dropWhile isBlank)
  | (front, '=' :: back) => some (front, back.dropWhile isBlank)
  | (front, _ :: back) =>
    match back.dropWhile isBlank with
    | '=' :: rest => some (front, rest.dropWhile isBlank)
    | rest => some (front, rest)

/-- Between two arguments, or in one: what was read of it, the open quote, and whether a backslash was
the last character. -/
inductive State
  | gap
  | word (token : Text) (quote : Option Char) (escaped : Bool)

/-- A character of an argument that is neither a separator nor a backslash. -/
def step (token : Text) (quote : Option Char) (c : Char) : State :=
  match quote with
  | none => if isQuote c then .word token (some c) false else .word (token ++ [c]) none false
  | some q => if c = q then .word token none false else .word (token ++ [c]) (some q) false

def isGap (c : Char) : Bool := c = ' ' || c = '\t'

def readArguments : State → Text → Option (List Text)
  | .gap, [] => some []
  | .gap, c :: t =>
    if isGap c then readArguments .gap t
    else if c = '#' then some []
    else if isEscape c then readArguments (.word [] none true) t
    else readArguments (step [] none c) t
  | .word token quote escaped, [] =>
    if quote.isSome then none else some [token ++ if escaped then ['\\'] else []]
  | .word token quote escaped, c :: t =>
    if escaped ∧ (isQuote c ∨ isEscape c ∨ quote = none ∧ c = ' ') then
      readArguments (.word (token ++ [c]) quote false) t
    else
      let token := token ++ if escaped then ['\\'] else []
      if isEscape c then readArguments (.word token quote true) t
      else if quote = none ∧ isGap c then (readArguments .gap t).map (token :: ·)
      else readArguments (step token quote c) t

/-- What ssh drops at the end of an option. -/
def isTail (c : Char) : Bool := isBlank c || c.toNat = 12

def trimmed (t : Text) : Text := (t.reverse.dropWhile isTail).reverse

/-- An empty token in front of the keyword is dropped. -/
def named (found : Text × Text) : Option (Text × Text) := if found.1 = [] then keyword found.2 else some found

/-- The keyword in lower case, with the arguments behind it. -/
def withArguments (key rest : Text) : Option (Text × List Text) :=
  if key = [] ∨ key.head? = some '#' ∨ rest = [] then none
  else (readArguments .gap rest).map fun arguments => (key.map Char.toLower, arguments)

/-- The keyword and the arguments of an option. -/
def readOption (t : Text) : Option (Text × List Text) :=
  ((keyword (trimmed t)).bind named).bind fun found => withArguments found.1 found.2

/-- The options that ssh reads from the words of a line. -/
def options (flags : Flags) (line : Text) : List Text :=
  match split line with
  | none => []
  | some words => optionTexts flags false words

/-! ## Where an option stands -/

lemma readCluster_suffix {flags : Flags} {t value : Text} {flag : Char}
    (h : readCluster flags t = .argument flag value) : value <:+ t := by
  induction t with
  | nil => cases h
  | cons c t ih =>
    simp only [readCluster] at h
    split at h
    · cases h
    · exact (ih h).trans (List.suffix_cons _ _)
    · cases h
      exact List.suffix_cons _ _

lemma mem_given {flag : Char} {value text : Text} (h : text ∈ given flag value) : text = value := by
  unfold given at h
  split at h
  · exact List.mem_singleton.mp h
  · cases h

/-- The text of an option is a word or the end of one. -/
lemma optionTexts_suffix {flags : Flags} {host : Bool} {ws : List Text} {text : Text}
    (h : text ∈ optionTexts flags host ws) : ∃ w ∈ ws, text <:+ w := by
  have later {w : Text} {ws : List Text} (found : ∃ u ∈ ws, text <:+ u) : ∃ u ∈ w :: ws, text <:+ u := by
    obtain ⟨u, member, end_⟩ := found
    exact ⟨u, List.mem_cons_of_mem w member, end_⟩
  fun_induction optionTexts flags host ws with
  | case1 => cases h
  | case2 _ _ ih => exact later (later (ih h))
  | case3 => cases h
  | case4 =>
    rename_i ih
    exact later (ih h)
  | case5 => cases h
  | case6 => cases h
  | case7 =>
    rename_i ih
    rcases List.mem_append.mp h with own | rest
    · exact later ⟨_, List.mem_cons_self, by rw [mem_given own]⟩
    · exact later (later (ih rest))
  | case8 =>
    rename_i read ih
    rcases List.mem_append.mp h with own | rest
    · refine ⟨_, List.mem_cons_self, ?_⟩
      rw [mem_given own]
      exact (readCluster_suffix read).trans (List.suffix_cons _ _)
    · exact later (ih rest)
  | case9 => cases h
  | case10 =>
    rename_i ih
    exact later (ih h)

/-- Every option of a line without quotes and backslashes stands in it. -/
lemma options_unquoted {flags : Flags} {line text : Text} (plain : Unquoted line)
    (h : text ∈ options flags line) : Bare text ∧ Stands text line := by
  obtain ⟨words, read, stand⟩ := split_unquoted plain
  simp only [options, read] at h
  obtain ⟨w, member, end_⟩ := optionTexts_suffix h
  exact ⟨(stand w member).1.suffix end_, (stand w member).2.suffix end_⟩

/-! ## Options without blanks and quotes -/

lemma dropWhile_bare {t : Text} (bare : Bare t) : t.dropWhile isBlank = t := by
  cases t with
  | nil => rfl
  | cons c t => rw [List.dropWhile_cons, (bare c List.mem_cons_self).1, if_neg Bool.false_ne_true]

/-- The keyword of a bare option ends at the first equals sign. -/
lemma keyword_bare {t : Text} (bare : Bare t) : keyword t = some (t, []) ∨
    ∃ front back, t = front ++ '=' :: back ∧ '=' ∉ front ∧ keyword t = some (front, back) := by
  have stop : ∀ c ∈ t, (!(isBlank c || decide (c = '"') || decide (c = '='))) = decide (c ≠ '=') := by
    intro c member
    obtain ⟨blank, quote, _⟩ := bare c member
    have double : c ≠ '"' := by
      rintro rfl
      simp [isQuote] at quote
    simp [blank, double]
  by_cases sign : '=' ∈ t
  · right
    obtain ⟨front, back, rfl, free⟩ := List.eq_append_cons_of_mem sign
    have before : ∀ c ∈ front, (!(isBlank c || decide (c = '"') || decide (c = '='))) = true := by
      intro c member
      rw [stop c (List.mem_append_left _ member), decide_eq_true_eq]
      rintro rfl
      exact free member
    have cut : (front ++ '=' :: back).span (fun c => !(isBlank c || decide (c = '"') || decide (c = '='))) =
        (front, '=' :: back) := by
      rw [List.span_eq_takeWhile_dropWhile, List.takeWhile_append_of_pos before,
        List.dropWhile_append_of_pos before]
      simp
    refine ⟨front, back, rfl, free, ?_⟩
    have rest : back.dropWhile isBlank = back := dropWhile_bare (bare.suffix ⟨front ++ ['='], by simp⟩)
    simp only [keyword, cut, rest]
  · left
    have all : ∀ c ∈ t, (!(isBlank c || decide (c = '"') || decide (c = '='))) = true := by
      intro c member
      rw [stop c member, decide_eq_true_eq]
      rintro rfl
      exact sign member
    have cut : t.span (fun c => !(isBlank c || decide (c = '"') || decide (c = '='))) = (t, []) := by
      rw [List.span_eq_takeWhile_dropWhile, List.takeWhile_eq_self_iff.mpr all,
        List.dropWhile_eq_nil_iff.mpr all]
    simp only [keyword, cut]

/-- An argument goes on up to the end of a bare text. -/
lemma readArguments_word {t : Text} (bare : Bare t) (token : Text) :
    readArguments (.word token none false) t = some [token ++ t] := by
  induction t generalizing token with
  | nil => simp [readArguments]
  | cons c t ih =>
    obtain ⟨⟨blank, quote, escape⟩, rest⟩ := List.forall_mem_cons.mp bare
    have gap : isGap c = false := by
      simp only [isBlank, Bool.or_eq_false_iff, decide_eq_false_iff_not] at blank
      simp [isGap, blank]
    simp [readArguments, escape, gap, step, quote, ih rest]

/-- A bare text is one argument, or a comment. -/
lemma readArguments_bare {t : Text} (bare : Bare t) {arguments : List Text}
    (h : readArguments .gap t = some arguments) : ∀ v ∈ arguments, v = t := by
  cases t with
  | nil =>
    cases h
    simp
  | cons c t =>
    obtain ⟨⟨blank, quote, escape⟩, rest⟩ := List.forall_mem_cons.mp bare
    have gap : isGap c = false := by
      simp only [isBlank, Bool.or_eq_false_iff, decide_eq_false_iff_not] at blank
      simp [isGap, blank]
    rw [readArguments, gap, if_neg Bool.false_ne_true] at h
    split at h
    · cases h
      simp
    · rw [escape, if_neg Bool.false_ne_true, step, quote, if_neg Bool.false_ne_true,
        readArguments_word rest] at h
      cases h
      simp

lemma trimmed_tail (t : Text) : ∃ tail, t = trimmed t ++ tail ∧ ∀ c ∈ tail, isTail c = true := by
  refine ⟨(t.reverse.takeWhile isTail).reverse, ?_, ?_⟩
  · rw [trimmed, ← List.reverse_append, List.takeWhile_append_dropWhile, List.reverse_reverse]
  · intro c member
    exact List.mem_takeWhile_imp (List.mem_reverse.mp member)

/-- A bare option has its keyword directly before an equals sign and one argument behind it, up to form
feeds; one equals sign may stand before. -/
lemma readOption_bare {t kw : Text} {arguments : List Text} (bare : Bare t)
    (h : readOption t = some (kw, arguments)) : ∃ pre key value tail,
      t = pre ++ key ++ '=' :: (value ++ tail) ∧ (pre = [] ∨ pre = ['=']) ∧ '=' ∉ key ∧ key ≠ [] ∧
      key.map Char.toLower = kw ∧ (∀ v ∈ arguments, v = value) ∧ ∀ c ∈ tail, c.toNat = 12 := by
  obtain ⟨tail, same, feeds⟩ := trimmed_tail t
  have feed : ∀ c ∈ tail, c.toNat = 12 := by
    intro c member
    have blank := (bare c (same ▸ List.mem_append_right _ member)).1
    simpa [isTail, blank] using feeds c member
  have short : Bare (trimmed t) := fun c inside => bare c (same ▸ List.mem_append_left _ inside)
  -- What follows once the keyword is read: its option is `key=value`.
  have finish {front key back : Text} (cut : trimmed t = front ++ key ++ '=' :: back)
      (sign : front = [] ∨ front = ['=']) (free : '=' ∉ key)
      (h : withArguments key back = some (kw, arguments)) : ∃ pre key value tail,
        t = pre ++ key ++ '=' :: (value ++ tail) ∧ (pre = [] ∨ pre = ['=']) ∧ '=' ∉ key ∧ key ≠ [] ∧
        key.map Char.toLower = kw ∧ (∀ v ∈ arguments, v = value) ∧ ∀ c ∈ tail, c.toNat = 12 := by
    unfold withArguments at h
    split at h
    · cases h
    rename_i some_
    obtain ⟨arguments', read, same'⟩ := Option.map_eq_some_iff.mp h
    cases same'
    have behind : Bare back := short.suffix ⟨front ++ key ++ ['='], by simp [cut]⟩
    refine ⟨front, key, back, tail, ?_, sign, free, fun empty => some_ (Or.inl empty), rfl,
      readArguments_bare behind read, feed⟩
    conv_lhs => rw [same, cut]
    simp
  have empty {key : Text} (h : withArguments key [] = some (kw, arguments)) : False := by
    simp [withArguments] at h
  obtain ⟨⟨key, rest'⟩, found, h⟩ := Option.bind_eq_some_iff.mp h
  obtain ⟨⟨first, rest⟩, read, read'⟩ := Option.bind_eq_some_iff.mp found
  rcases keyword_bare short with whole | ⟨front, back, cut, free, found⟩
  · rw [whole] at read
    cases read
    unfold named at read'
    split at read'
    · cases read'
      exact (empty h).elim
    · cases read'
      exact (empty h).elim
  · rw [found] at read
    cases read
    unfold named at read'
    split at read'
    · rename_i blank
      simp only at blank read'
      subst blank
      have behind : Bare rest := short.suffix ⟨['='], by simp [cut]⟩
      rcases keyword_bare behind with whole | ⟨front', back', cut', free', found'⟩
      · rw [whole] at read'
        cases read'
        exact (empty h).elim
      · rw [found'] at read'
        cases read'
        exact @finish ['='] _ _ (by simp [cut, cut']) (Or.inr rfl) free' h
    · cases read'
      exact @finish [] _ _ (by simpa using cut) (Or.inl rfl) free h

end PlatformConfig.SshOptions
