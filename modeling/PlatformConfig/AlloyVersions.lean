import PlatformConfig.AlloyAccepted
import PlatformConfig.QuotedText

/-!
# Version paths of a recognized configuration

A configuration that the target accepts has the version path of each credential once, as the quoted
value behind the credential's setting, and has no further setting of that name. So two accepted
configurations with the same text around their versions have their versions in the same places.
-/
namespace PlatformConfig.AlloyVersions

open CanonicalJson TextScan QuotedText AlloyConfig AlloyBlocks
open AlloyAccepted (plain_version plain_hex isPath_plain plain_nameChar versionId_spec)
open FailoverPlan (bind_ok checked_ok)
open GuardPlan (isLowerHex isNameChar)

inductive Credential
  | cert
  | key
deriving DecidableEq

namespace Credential

def basename : Credential → Text
  | cert => "/fullchain.crt".toList
  | key => "/tls.key".toList

def setting : Credential → Text
  | cert => "cert_file".toList
  | key => "key_file".toList

end Credential

/-- The path of a credential in the version of a request. -/
def versionPath (n : WriterName) (request : Text) (f : Credential) : Text :=
  n.versionsRoot.toList ++ '/' :: request ++ f.basename

def placeholder : Text := "@VERSION@".toList

section Paths

/-- A character of a version path. -/
def isPathChar (c : Char) : Bool := isNameChar c || c = '/' || c = '@'

def PathText (s : Text) : Prop := ∀ c ∈ s, isPathChar c = true

lemma PathText.plain {s : Text} (h : PathText s) : ∀ c ∈ s, Plain c := by
  intro c mem
  have either := h c mem
  simp only [isPathChar, Bool.or_eq_true, decide_eq_true_eq] at either
  rcases either with (name | rfl) | rfl
  · exact plain_nameChar name
  · exact ⟨by decide, by decide, by decide, by decide⟩
  · exact ⟨by decide, by decide, by decide, by decide⟩

lemma PathText.absent {s : Text} (h : PathText s) {c : Char} (other : isPathChar c = false) : c ∉ s := by
  intro mem
  rw [h c mem] at other
  cases other

lemma pathText_hex {r : Text} (hex : ∀ c ∈ r, isLowerHex c = true) : PathText r := by
  intro c mem
  have digit := hex c mem
  simp only [isLowerHex, Bool.or_eq_true, Bool.and_eq_true, decide_eq_true_eq] at digit
  have alnum : c.isAlphanum = true := by
    rcases digit with digit | ⟨low, high⟩
    · simp [Char.isAlphanum, digit]
    · have lower : c.isLower = true := by
        simp only [Char.isLower, Bool.and_eq_true, decide_eq_true_eq, ge_iff_le]
        exact ⟨low, le_trans high (by decide)⟩
      simp [Char.isAlphanum, Char.isAlpha, lower]
  simp [isPathChar, isNameChar, alnum]

lemma pathText_placeholder : PathText placeholder := List.all_eq_true.mp (by decide +kernel)

/-- The roots and file names of the credentials; the kernel evaluates all of them together. -/
lemma version_parts : (∀ n ∈ [WriterName.loki, .mimir], n.versionsRoot.toList.all isPathChar = true ∧
      (n.versionsRoot.toList[15]? = some 'l' ↔ n = .loki) ∧ 15 < n.versionsRoot.toList.length) ∧
    ∀ f ∈ [Credential.cert, .key], f.basename.all isPathChar = true ∧
      (f.basename.getLast? = some 't' ↔ f = .cert) ∧ f.basename ≠ [] := by
  decide +kernel

lemma root_parts (n : WriterName) : PathText n.versionsRoot.toList ∧
    (n.versionsRoot.toList[15]? = some 'l' ↔ n = .loki) ∧ 15 < n.versionsRoot.toList.length := by
  have parts := version_parts.1 n (by cases n <;> decide)
  exact ⟨List.all_eq_true.mp parts.1, parts.2⟩

lemma basename_parts (f : Credential) : PathText f.basename ∧ (f.basename.getLast? = some 't' ↔ f = .cert) ∧
    f.basename ≠ [] := by
  have parts := version_parts.2 f (by cases f <;> decide)
  exact ⟨List.all_eq_true.mp parts.1, parts.2⟩

lemma pathText_version (n : WriterName) {r : Text} (h : PathText r) (f : Credential) : PathText (versionPath n r f) := by
  intro c mem
  simp only [versionPath, List.append_assoc, List.cons_append, List.mem_append, List.mem_cons] at mem
  rcases mem with there | rfl | there | there
  · exact (root_parts n).1 c there
  · rfl
  · exact h c there
  · exact (basename_parts f).1 c there

/-- A version path tells its writer, its request and its credential. -/
lemma versionPath_inj {n n' : WriterName} {r r' : Text} {f f' : Credential}
    (same : versionPath n r f = versionPath n' r' f') : n = n' ∧ r = r' ∧ f = f' := by
  obtain ⟨-, root, long⟩ := root_parts n
  obtain ⟨-, root', long'⟩ := root_parts n'
  obtain ⟨-, file, some_⟩ := basename_parts f
  obtain ⟨-, file', some'⟩ := basename_parts f'
  have letter := congrArg (fun s : Text => s[15]?) same
  simp only [versionPath, List.append_assoc, List.getElem?_append_left long, List.getElem?_append_left long'] at letter
  have last := congrArg List.getLast? same
  simp only [versionPath, List.getLast?_append_of_ne_nil _ some_, List.getLast?_append_of_ne_nil _ some'] at last
  have writer : n = n' := by
    have either : n = .loki ↔ n' = .loki := by rw [← root, ← root', letter]
    cases n <;> cases n' <;> simp_all
  have credential : f = f' := by
    have either : f = .cert ↔ f' = .cert := by rw [← file, ← file', last]
    cases f <;> cases f' <;> simp_all
  subst writer credential
  rw [versionPath, versionPath, List.append_cancel_right_eq, List.append_cancel_left_eq] at same
  exact ⟨rfl, (List.cons.inj same).2, rfl⟩

lemma placeholder_not_hex {r : Text} (hex : ∀ c ∈ r, isLowerHex c = true) : placeholder ≠ r := by
  rintro rfl
  have digit := hex '@' (by decide)
  revert digit
  decide

lemma quote_version (n : WriterName) {r : Text} (h : PathText r) (f : Credential) :
    quote (String.ofList (versionPath n r f)) = enquote (versionPath n r f) := by
  have plain := (pathText_version n h f).plain
  rw [quote_plain (by rwa [String.toList_ofList]), String.toList_ofList]
  rfl

end Paths

section Slots
variable {name : Text} {ss : List Text} {k : ℕ}

/-- The segment ends with a setting's name and its sign. -/
def Slot (name : Text) (ss : List Text) (k : ℕ) : Prop :=
  ∃ p gap gap', ss[k]? = some (p ++ (name ++ (gap ++ '=' :: gap'))) ∧ Gap gap ∧ Gap gap' ∧
    ∀ c, p.getLast? = some c → isWordChar c = false

lemma takes_credential {gap : Text} (blank : Gap gap) : Takes (credential name) (name ++ (gap ++ ['='])) () := by
  refine (takes_literal name).bind (takes_word ?_ (by simp))
  rw [List.dropWhile_append_of_pos blank, List.dropWhile_cons_of_neg (by decide)]

/-- A setting is found at its slot, behind as many quotes as there are segments before it. -/
lemma slot_found (free : ∀ s ∈ ss, '"' ∉ s) (some_ : name ≠ []) (slot : Slot name ss k) :
    ∃ t, t <+: join ss ∧ quotes t = k ∧ t.length < (join ss).length ∧
      (matchAt (bounded (credential name)) t.length none (join ss)).isSome := by
  obtain ⟨p, gap, gap', here, blank, -, edge⟩ := slot
  obtain ⟨t, r, text, count, last⟩ := segment_place free here
  have bare := free _ (List.mem_of_getElem? here)
  have outside : '"' ∉ p := fun mem => bare (List.mem_append_left _ mem)
  have whole : join ss = (t ++ p) ++ (name ++ (gap ++ ['=']) ++ (gap' ++ r)) := by
    rw [text]
    simp
  refine ⟨t ++ p, ⟨_, whole.symm⟩, ?_, ?_, ?_⟩
  · rw [quotes_append, count, quotes_eq_zero.mpr outside, Nat.add_zero]
  · have long := List.length_pos_iff.mpr some_
    rw [whole]
    simp only [List.length_append]
    omega
  · have other : ((t ++ p).getLast?.or none).any isWordChar = false := by
      rw [List.getLast?_append]
      cases ends : p.getLast? with
      | some c => exact edge c ends
      | none =>
        cases front : t.getLast? with
        | none => rfl
        | some c =>
          obtain rfl := last c front
          decide
    have kept : (bounded (credential name) ((t ++ p).getLast?.or none)).run (name ++ (gap ++ ['=']) ++ (gap' ++ r)) =
        some ((), gap' ++ r) :=
      Option.filter_eq_some_iff.mpr ⟨takes_credential blank (gap' ++ r), by rw [other]; rfl⟩
    rw [whole, matchAt_append, kept]
    rfl

/-- A configuration has no more slots than settings. -/
lemma card_le_slots (isolated : Isolated (bounded (credential name))) (some_ : name ≠ [])
    (free : ∀ s ∈ ss, '"' ∉ s) {places : Finset ℕ} (slots : ∀ k ∈ places, Slot name ss k) :
    places.card ≤ (finditer (bounded (credential name)) (join ss)).length := by
  have found (k : places) := slot_found free some_ (slots k k.2)
  choose t front count inside matched using found
  have distinct : Function.Injective fun k => (t k).length := by
    intro k k' same
    have text : t k = t k' := (List.prefix_of_prefix_length_le (front k) (front k') same.le).eq_of_length same
    exact Subtype.ext (by rw [← count k, ← count k', text])
  have all : (Finset.univ.image fun k => (t k).length).card = places.card := by
    rw [Finset.card_image_of_injective _ distinct, Finset.card_univ, Fintype.card_coe]
  rw [← all]
  refine card_le_finditerFrom isolated fun i mem => ?_
  obtain ⟨k, -, rfl⟩ := Finset.mem_image.mp mem
  exact ⟨Nat.zero_le _, inside k, matched k⟩

lemma isolated_setting (f : Credential) : Isolated (bounded (credential f.setting)) := by
  cases f with
  | cert => exact isolated_cert
  | key => exact isolated_credential (c := 'k') (by decide) (by decide) (by decide)

lemma slot_sign (slot : Slot name ss k) : ∃ s, ss[k]? = some s ∧ '=' ∈ s := by
  obtain ⟨p, gap, gap', here, -⟩ := slot
  exact ⟨_, here, by simp⟩

lemma not_path_of_sign {s : Text} (sign : '=' ∈ s) : ¬PathText s :=
  fun path => path.absent (by decide) sign

end Slots

section Renaming
variable {names : List WriterName} {ids ids' : WriterName → Text}

def ownedPaths (names : List WriterName) : List (WriterName × Credential) :=
  names.flatMap fun n => [(n, .cert), (n, .key)]

/-- The version paths of the writers, each with the same path in the version of another request. -/
def renames (names : List WriterName) (ids ids' : WriterName → Text) : List (Text × Text) :=
  (ownedPaths names).map fun p => (versionPath p.1 (ids p.1) p.2, versionPath p.1 (ids' p.1) p.2)

/-- The text with other requests in the quoted version paths of its writers. -/
def withRequests (names : List WriterName) (ids ids' : WriterName → Text) (t : Text) : Text :=
  requoted (substituted (renames names ids ids')) t

lemma mem_ownedPaths {n : WriterName} {f : Credential} : (n, f) ∈ ownedPaths names ↔ n ∈ names := by
  cases f <;> simp [ownedPaths]

lemma renamed_path {n : WriterName} (mem : n ∈ names) (f : Credential) :
    substituted (renames names ids ids') (versionPath n (ids n) f) = versionPath n (ids' n) f := by
  have there : (versionPath n (ids n) f, versionPath n (ids' n) f) ∈ renames names ids ids' :=
    List.mem_map.mpr ⟨(n, f), mem_ownedPaths.mpr mem, rfl⟩
  unfold substituted
  cases found : (renames names ids ids').find? fun p => versionPath n (ids n) f = p.1 with
  | none =>
    have absent := List.find?_eq_none.mp found _ there
    simp at absent
  | some p =>
    obtain ⟨q, -, rfl⟩ := List.mem_map.mp (List.mem_of_find?_eq_some found)
    have same : versionPath n (ids n) f = versionPath q.1 (ids q.1) q.2 := by simpa using List.find?_some found
    obtain ⟨rfl, -, rfl⟩ := versionPath_inj same
    rfl

lemma renamed_other {s : Text} (other : ∀ n ∈ names, ∀ f, s ≠ versionPath n (ids n) f) :
    substituted (renames names ids ids') s = s := by
  have none_ : (renames names ids ids').find? (fun p => s = p.1) = none := by
    refine List.find?_eq_none.mpr fun p mem => ?_
    obtain ⟨q, there, rfl⟩ := List.mem_map.mp mem
    simpa using other q.1 (mem_ownedPaths.mp there) q.2
  rw [substituted, none_]

/-- A segment that is no path is neither renamed nor what a path is renamed to. -/
lemma renamed_eq_iff (paths : ∀ n ∈ names, PathText (ids n)) (paths' : ∀ n ∈ names, PathText (ids' n)) {s u : Text}
    (none_ : ¬PathText s) : substituted (renames names ids ids') u = s ↔ u = s := by
  by_cases path : ∃ n ∈ names, ∃ f, u = versionPath n (ids n) f
  · obtain ⟨n, mem, f, rfl⟩ := path
    rw [renamed_path mem]
    constructor
    · rintro rfl
      exact absurd (pathText_version n (paths' n mem) f) none_
    · rintro rfl
      exact absurd (pathText_version n (paths n mem) f) none_
  · push Not at path
    rw [renamed_other path]

lemma renamed_free (paths' : ∀ n ∈ names, PathText (ids' n)) {s : Text} (free : '"' ∉ s) :
    '"' ∉ substituted (renames names ids ids') s := by
  by_cases path : ∃ n ∈ names, ∃ f, s = versionPath n (ids n) f
  · obtain ⟨n, mem, f, rfl⟩ := path
    rw [renamed_path mem]
    exact (pathText_version n (paths' n mem) f).absent (by decide)
  · push Not at path
    rwa [renamed_other path]

end Renaming

section Places
variable {names : List WriterName} {ids ids' : WriterName → Text} {ss ss' : List Text}

/-- The segments of a recognized configuration: each version path stands once, in a slot of its
credential, and there are no more slots than writers. -/
structure Located (names : List WriterName) (ids : WriterName → Text) (ss : List Text) : Prop where
  free : ∀ s ∈ ss, '"' ∉ s
  distinct : names.Nodup
  hex : ∀ n ∈ names, ∀ c ∈ ids n, isLowerHex c = true
  paths : ∀ n ∈ names, ∀ f, ∃ k, Slot f.setting ss k ∧ Once ss (versionPath n (ids n) f) (k + 1)
  bound : ∀ (f : Credential) (places : Finset ℕ), (∀ k ∈ places, Slot f.setting ss k) → places.card ≤ names.length

lemma Located.pathText (h : Located names ids ss) : ∀ n ∈ names, PathText (ids n) :=
  fun n mem => pathText_hex (h.hex n mem)

/-- Each slot is a writer's. -/
lemma Located.slot_path (h : Located names ids ss) {f : Credential} {k : ℕ} (slot : Slot f.setting ss k) :
    ∃ n ∈ names, ss[k + 1]? = some (versionPath n (ids n) f) := by
  have placed (n : names.toFinset) := h.paths n (List.mem_toFinset.mp n.2) f
  choose place slots once using placed
  by_contra other
  push Not at other
  have fresh : k ∉ Finset.univ.image place := by
    intro mem
    obtain ⟨n, -, rfl⟩ := Finset.mem_image.mp mem
    exact other n (List.mem_toFinset.mp n.2) (once n).here
  have distinct : Function.Injective place := by
    intro n n' same
    have path := (once n).here
    rw [same, (once n').here, Option.some.injEq] at path
    exact Subtype.ext (versionPath_inj path).1.symm
  have all : (Finset.univ.image place).card = names.length := by
    rw [Finset.card_image_of_injective _ distinct, Finset.card_univ, Fintype.card_coe,
      List.toFinset_card_of_nodup h.distinct]
  have bound := h.bound f (insert k (Finset.univ.image place)) fun i mem => by
    rcases Finset.mem_insert.mp mem with rfl | mem
    · exact slot
    · obtain ⟨n, -, rfl⟩ := Finset.mem_image.mp mem
      exact slots n
  rw [Finset.card_insert_of_notMem fresh, all] at bound
  omega

/-- The segments with a placeholder in each version path. -/
abbrev normalized (names : List WriterName) (ids : WriterName → Text) (ss : List Text) : List Text :=
  changed (substituted (renames names ids fun _ => placeholder)) ss

lemma pathText_placeholders : ∀ n ∈ names, PathText ((fun _ : WriterName => placeholder) n) :=
  fun _ _ => pathText_placeholder

/-- Two configurations that agree up to their versions have the same slots. -/
lemma Located.slot_kept (h : Located names ids ss) (h' : Located names ids' ss')
    (same : normalized names ids ss = normalized names ids' ss') {name : Text} {k : ℕ} (slot : Slot name ss k) :
    Slot name ss' k := by
  obtain ⟨s, here, sign⟩ := slot_sign slot
  have other := not_path_of_sign sign
  have kept := congrArg (·[k]?) same
  simp only [getElem?_changed, here, Option.map_some] at kept
  obtain ⟨u, there, renamed⟩ := Option.map_eq_some_iff.mp kept.symm
  have text : u = s := by
    have fixed : (if Inner ss k then substituted (renames names ids fun _ => placeholder) s else s) = s := by
      split_ifs
      · exact (renamed_eq_iff h.pathText pathText_placeholders other).mpr rfl
      · rfl
    rw [fixed] at renamed
    split_ifs at renamed
    · exact (renamed_eq_iff h'.pathText pathText_placeholders other).mp renamed
    · exact renamed
  obtain ⟨p, gap, gap', place, rest⟩ := slot
  exact ⟨p, gap, gap', by rw [there, text, ← here, place], rest⟩

/-- Where one of them has a version path, so has the other. -/
lemma Located.path_kept (h : Located names ids ss) (h' : Located names ids' ss')
    (same : normalized names ids ss = normalized names ids' ss') {n : WriterName} (mem : n ∈ names) {f : Credential}
    {i : ℕ} (inner : Inner ss i) (here : ss[i]? = some (versionPath n (ids n) f)) :
    ss'[i]? = some (versionPath n (ids' n) f) := by
  obtain ⟨k, slot, once⟩ := h.paths n mem f
  obtain rfl := once.only i inner here
  obtain ⟨m, mem', there⟩ := h'.slot_path (h.slot_kept h' same slot)
  have long := congrArg List.length same
  simp only [changed_length] at long
  have inner' := (inner_congr long).mp inner
  have kept := congrArg (·[k + 1]?) same
  simp only [getElem?_changed, here, there, Option.map_some, if_pos inner, if_pos inner', renamed_path mem,
    renamed_path mem', Option.some.injEq] at kept
  obtain ⟨rfl, -, -⟩ := versionPath_inj kept
  exact there

/-- Recognized configurations agree up to their versions when one is the other with its own requests. -/
theorem located_agree (h : Located names ids ss) (h' : Located names ids' ss') :
    normalized names ids ss = normalized names ids' ss' ↔ ss' = changed (substituted (renames names ids ids')) ss := by
  constructor
  · intro same
    refine List.ext_getElem? fun i => ?_
    have long := congrArg List.length same
    simp only [changed_length] at long
    have kept := congrArg (·[i]?) same
    simp only [getElem?_changed] at kept ⊢
    by_cases inner : Inner ss i
    · have inner' := (inner_congr long).mp inner
      obtain ⟨s, here⟩ := inner.get
      obtain ⟨s', there⟩ := inner'.get
      by_cases path : ∃ n ∈ names, ∃ f, s = versionPath n (ids n) f
      · obtain ⟨n, mem, f, rfl⟩ := path
        simp [here, inner, renamed_path mem, h.path_kept h' same mem inner here]
      · have path' : ∀ n ∈ names, ∀ f, s' ≠ versionPath n (ids' n) f := by
          rintro n mem f rfl
          have back := h'.path_kept h same.symm mem inner' there
          exact path ⟨n, mem, f, Option.some.inj (here.symm.trans back)⟩
        push Not at path
        simp only [here, there, Option.map_some, if_pos inner, if_pos inner', renamed_other path,
          renamed_other path', Option.some.injEq] at kept ⊢
        exact kept.symm
    · have inner' : ¬Inner ss' i := by rwa [← inner_congr long]
      simpa [inner, inner'] using kept.symm
  · rintro rfl
    rw [normalized, normalized, changed_changed]
    refine List.ext_getElem? fun i => ?_
    simp only [getElem?_changed]
    by_cases inner : Inner ss i
    · cases here : ss[i]? with
      | none => rfl
      | some s =>
        simp only [Option.map_some, if_pos inner, Option.some.injEq]
        by_cases path : ∃ n ∈ names, ∃ f, s = versionPath n (ids n) f
        · obtain ⟨n, mem, f, rfl⟩ := path
          rw [renamed_path mem, renamed_path mem, renamed_path mem]
        · push Not at path
          rw [renamed_other path, renamed_other path]
          refine (renamed_other fun n mem f text => ?_).symm
          -- the other configuration has this path here, and nowhere else
          obtain ⟨k, -, once⟩ := h.paths n mem f
          obtain ⟨k', -, once'⟩ := h'.paths n mem f
          have moved : (changed (substituted (renames names ids ids')) ss)[k + 1]? = some (versionPath n (ids' n) f) := by
            simp [getElem?_changed, once.here, once.inner, renamed_path mem]
          have stays : (changed (substituted (renames names ids ids')) ss)[i]? = some (versionPath n (ids' n) f) := by
            simp only [getElem?_changed, here, Option.map_some, if_pos inner, renamed_other path]
            rw [text]
          have first := once'.only _ (changed_inner.mpr once.inner) moved
          have second := once'.only _ (changed_inner.mpr inner) stays
          have own := once.here
          rw [first, ← second, here, Option.some.injEq] at own
          exact path n mem f own
    · simp [inner]

end Places

section Blocks
variable {t r s : Text}

lemma value_run (h : value.run t = some (s, r)) : ∃ gap, Gap gap ∧ t = gap ++ (enquote s ++ r) := by
  obtain ⟨_, t₁, gap_, quote_⟩ := run_bind h
  obtain ⟨_, t₂, first, body⟩ := run_bind quote_
  obtain ⟨_, t₃, inner, tail⟩ := run_bind body
  obtain ⟨_, t₄, last, made⟩ := run_bind tail
  cases inner
  cases made
  obtain ⟨gap, rfl, blank⟩ := reads_blanks _ _ _ gap_
  obtain ⟨_, rfl, rfl⟩ := reads_literal _ _ _ _ first
  obtain ⟨_, text, rfl⟩ := reads_literal _ _ _ _ last
  refine ⟨gap, blank, ?_⟩
  have whole : t₂ = t₂.takeWhile isQuoted ++ (['"'] ++ r) := by
    rw [← text, List.takeWhile_append_dropWhile]
  conv_lhs => rw [whole]
  simp [enquote]

lemma setting_run {name : Text} (h : (setting name).run t = some (s, r)) : ∃ gap gap' gap'', Gap gap ∧ Gap gap' ∧
    Gap gap'' ∧ t = gap ++ (name ++ (gap' ++ '=' :: gap'')) ++ (enquote s ++ r) := by
  obtain ⟨_, t₁, named, rest⟩ := run_bind h
  obtain ⟨_, t₂, sign, value_⟩ := run_bind rest
  obtain ⟨gap'', blank'', rfl⟩ := value_run value_
  obtain ⟨_, rfl, gap', blank', rfl⟩ := reads_word _ _ _ _ sign
  obtain ⟨_, rfl, gap, blank, rfl⟩ := reads_word _ _ _ _ named
  exact ⟨gap, gap', gap'', blank, blank', blank'', by simp⟩

/-- The credentials of a write block among the segments of a configuration. -/
def Bound (b : Block) (ss : List Text) : Prop :=
  ∃ front cert key last rest, front ≠ [] ∧ ss = front ++ cert :: b.cert :: key :: b.key :: last :: rest ∧
    Slot "cert_file".toList ss front.length ∧ Slot "key_file".toList ss (front.length + 2) ∧ '\x7d' ∈ last

lemma gap_edge {gap : Text} (blank : Gap gap) (c : Char) (last : gap.getLast? = some c) : isWordChar c = false :=
  blank_not_word (blank c (List.mem_of_getLast? last))

lemma slot_free (name : Text) {gap gap' gap'' : Text} (bare : '"' ∉ name) (blank : Gap gap) (blank' : Gap gap')
    (blank'' : Gap gap'') : '"' ∉ gap ++ (name ++ (gap' ++ '=' :: gap'')) := by
  simp [quotes_eq_zero.mp blank.quotes, quotes_eq_zero.mp blank'.quotes, quotes_eq_zero.mp blank''.quotes, bare]

lemma pattern_bound {n : WriterName} {q : Text} {b : Block} (free : '"' ∉ b.cert ∧ '"' ∉ b.key)
    (h : (pattern n).run t = some (b, r)) : Bound b (segments (q ++ t)) := by
  obtain ⟨_, s₁, opened, tls⟩ := run_bind h
  obtain ⟨_, s₂, ended, body⟩ := run_bind tls
  obtain ⟨⟨c, k⟩, s₃, named, tail⟩ := run_bind body
  obtain ⟨_, s₄, -, made⟩ := run_bind tail
  cases made
  obtain ⟨_, s₅, first, more⟩ := run_bind named
  obtain ⟨_, s₆, second, closing_⟩ := run_bind more
  obtain ⟨_, s₇, brace, braces⟩ := run_bind closing_
  obtain ⟨_, s₈, -, pair⟩ := run_bind braces
  cases pair
  obtain ⟨u, rfl, -⟩ := reads_opening n _ _ _ opened
  obtain ⟨v, rfl, -, closed⟩ := reads_endpoint _ _ _ ended
  obtain ⟨v, rfl⟩ := List.getLast?_eq_some_iff.mp closed
  obtain ⟨gap, gap', gap'', blank, blank', blank'', rfl⟩ := setting_run first
  obtain ⟨sep, sep', sep'', blank₁, blank₂, blank₃, rfl⟩ := setting_run second
  obtain ⟨_, rfl, end_, blank₄, rfl⟩ := reads_word _ _ _ _ brace
  have bare := slot_free "cert_file".toList (by decide) blank blank' blank''
  have bare' := slot_free "key_file".toList (by decide) blank₁ blank₂ blank₃
  have close : '"' ∉ end_ ++ ['\x7d'] := by simp [quotes_eq_zero.mp blank₄.quotes]
  obtain ⟨w, ws, rest⟩ := segments_front close s₇
  have whole : segments (q ++ (u ++ (v ++ ['"'] ++ (gap ++ ("cert_file".toList ++ (gap' ++ '=' :: gap'')) ++
      (enquote c ++ (sep ++ ("key_file".toList ++ (sep' ++ '=' :: sep'')) ++ (enquote k ++ (end_ ++ ['\x7d'] ++ s₇)))))))) =
      segments (q ++ (u ++ v)) ++ (gap ++ ("cert_file".toList ++ (gap' ++ '=' :: gap''))) :: c ::
        (sep ++ ("key_file".toList ++ (sep' ++ '=' :: sep''))) :: k :: (end_ ++ ['\x7d'] ++ w) :: ws := by
    have text (x : Text) : q ++ (u ++ (v ++ ['"'] ++ x)) = q ++ (u ++ v) ++ '"' :: x := by simp
    rw [text, segments_append, segments_enquote free.1, segments_bare bare, segments_enquote free.2,
      segments_bare bare', rest]
    rfl
  rw [whole]
  refine ⟨_, _, _, _, _, segments_ne_nil _, rfl, ⟨gap, gap', gap'', ?_, blank', blank'', gap_edge blank⟩,
    ⟨sep, sep', sep'', ?_, blank₂, blank₃, gap_edge blank₁⟩, by simp⟩
  · rw [List.getElem?_append_right (le_refl _), Nat.sub_self]
    rfl
  · rw [List.getElem?_append_right (Nat.le_add_right _ 2), Nat.add_sub_cancel_left]
    rfl

/-- A path that is counted once stands once, behind a setting and before a text that is no path. -/
lemma once_of_sign {ss : List Text} {k : ℕ} {a z : Text} (path : PathText s) (before : ss[k]? = some a) (sign : '=' ∈ a)
    (here : ss[k + 1]? = some s) (behind : ss[k + 2]? = some z) (other : ∃ c ∈ z, isPathChar c = false)
    (one : (finditer (fun _ => literal (enquote s)) (join ss)).length = 1) : Once ss s (k + 1) := by
  have inside := (List.getElem?_eq_some_iff.mp behind).1
  obtain ⟨c, mem, foreign⟩ := other
  refine once_of_count ⟨k.succ_pos, inside⟩ here ?_ ?_ one
  · rw [Nat.add_sub_cancel, before]
    intro same
    obtain rfl := Option.some.inj same
    exact not_path_of_sign sign path
  · rw [behind]
    intro same
    obtain rfl := Option.some.inj same
    exact path.absent foreign mem

lemma Bound.cert {b : Block} {ss : List Text} (h : Bound b ss) (path : PathText b.cert)
    (one : (finditer (fun _ => literal (enquote b.cert)) (join ss)).length = 1) :
    ∃ k, Slot "cert_file".toList ss k ∧ Once ss b.cert (k + 1) := by
  obtain ⟨front, cert, key, last, rest, some_, rfl, slot, slot', brace⟩ := h
  obtain ⟨_, before, sign⟩ := slot_sign slot
  obtain ⟨_, behind, sign'⟩ := slot_sign slot'
  exact ⟨_, slot, once_of_sign path before sign (by simp) behind ⟨'=', sign', by decide⟩ one⟩

lemma Bound.key {b : Block} {ss : List Text} (h : Bound b ss) (path : PathText b.key)
    (one : (finditer (fun _ => literal (enquote b.key)) (join ss)).length = 1) :
    ∃ k, Slot "key_file".toList ss k ∧ Once ss b.key (k + 1) := by
  obtain ⟨front, cert, key, last, rest, some_, rfl, -, slot, brace⟩ := h
  obtain ⟨_, before, sign⟩ := slot_sign slot
  have behind : (front ++ cert :: b.cert :: key :: b.key :: last :: rest)[front.length + 2 + 2]? = some last := by
    rw [Nat.add_assoc, List.getElem?_append_right (Nat.le_add_right _ _), Nat.add_sub_cancel_left]
    rfl
  refine ⟨_, slot, once_of_sign path before sign ?_ behind ⟨_, brace, by decide⟩ one⟩
  rw [Nat.add_assoc, List.getElem?_append_right (Nat.le_add_right _ _), Nat.add_sub_cancel_left]
  rfl

end Blocks

section Recognized
variable {nfkc : Text → Text} {ca : String → Option (ℕ × String)} {t : Text}

/-- The request of a writer. -/
def requestOf (versionIds : List (WriterName × Text)) (n : WriterName) : Text := (versionIds.lookup n).getD []

lemma matchAt_of_mem {α : Type} {scan : Option Char → Scan α} {a : α} {m : ℕ} {last : Option Char}
    (mem : a ∈ finditerFrom scan m last t) : ∃ i, matchAt scan i last t = some a := by
  induction t generalizing m last with
  | nil => cases m <;> cases mem
  | cons c t ih =>
    have later {m : ℕ} (mem : a ∈ finditerFrom scan m (some c) t) : ∃ i, matchAt scan i last (c :: t) = some a := by
      obtain ⟨i, found⟩ := ih mem
      exact ⟨i + 1, found⟩
    cases m with
    | succ m => exact later mem
    | zero =>
      rw [finditerFrom] at mem
      split at mem
      · next b r ran =>
        rcases List.mem_cons.mp mem with rfl | mem
        · exact ⟨0, by rw [matchAt, ran]; rfl⟩
        · exact later mem
      · exact later mem

lemma lookup_of_nodup {versionIds : List (WriterName × Text)} (distinct : (versionIds.map Prod.fst).Nodup)
    {p : WriterName × Text} (mem : p ∈ versionIds) : versionIds.lookup p.1 = some p.2 := by
  obtain ⟨before, after, rfl⟩ := List.append_of_mem mem
  refine List.lookup_eq_some_iff.mpr ⟨before, after, rfl, fun q there => ?_⟩
  rw [List.map_append, List.map_cons, List.nodup_middle] at distinct
  have apart := (List.nodup_cons.mp distinct).1
  rw [bne_iff_ne]
  intro same
  exact apart (List.mem_append_left _ (same ▸ List.mem_map_of_mem there))

/-- What the target has checked of a writer's request. -/
structure Checked (t : Text) (n : WriterName) (r : Text) : Prop where
  hex : ∀ c ∈ r, isLowerHex c = true
  paths : ∀ f, ∃ k, Slot f.setting (segments t) k ∧ Once (segments t) (versionPath n r f) (k + 1)

lemma checkWriter_spec {n : WriterName} {w : Writer} {r : Text} (h : checkWriter nfkc ca t n w = .ok r) :
    Checked t n r := by
  unfold checkWriter at h
  split at h
  · next b found =>
    obtain ⟨host, -, rest⟩ := bind_ok.mp h
    obtain ⟨-, -, rest⟩ := bind_ok.mp rest
    obtain ⟨-, -, rest⟩ := bind_ok.mp rest
    obtain ⟨-, rest⟩ := checked_ok.mp rest
    split at rest
    · cases rest
    · next mode digest _ =>
      obtain ⟨-, rest⟩ := checked_ok.mp rest
      obtain ⟨-, rest⟩ := checked_ok.mp rest
      split at rest
      · cases rest
      · next request version =>
        obtain ⟨key, rest⟩ := checked_ok.mp rest
        obtain ⟨counts, made⟩ := checked_ok.mp rest
        cases made
        obtain ⟨cert, hex⟩ := versionId_spec version
        have path (f : Credential) := pathText_version n (pathText_hex hex) f
        have certPath : b.cert = versionPath n r .cert := cert
        have keyPath : b.key = versionPath n r .key := of_decide_eq_true key
        rw [certPath, keyPath, quote_version n (pathText_hex hex), quote_version n (pathText_hex hex)] at counts
        obtain ⟨one, one'⟩ := by simpa only [Bool.and_eq_true, decide_eq_true_eq] using counts
        obtain ⟨i, place⟩ := matchAt_of_mem (a := b) (by rw [← finditer, found]; exact List.mem_singleton_self b)
        obtain ⟨q, s, r', rfl, -, ran⟩ := matchAt_eq_some place
        have bound := pattern_bound (q := q) ⟨certPath ▸ (path .cert).absent (by decide),
          keyPath ▸ (path .key).absent (by decide)⟩ ran
        refine ⟨hex, fun f => ?_⟩
        cases f with
        | cert =>
          rw [← certPath]
          exact bound.cert (certPath ▸ path .cert) (by rw [join_segments, certPath]; exact one)
        | key =>
          rw [← keyPath]
          exact bound.key (keyPath ▸ path .key) (by rw [join_segments, keyPath]; exact one')
  · cases h

lemma checkWriters_spec {ws : List (WriterName × Writer)} {versionIds : List (WriterName × Text)}
    (h : checkWriters nfkc ca t ws = .ok versionIds) :
    versionIds.map Prod.fst = ws.map Prod.fst ∧ ∀ p ∈ versionIds, Checked t p.1 p.2 := by
  induction ws generalizing versionIds with
  | nil =>
    cases h
    simp
  | cons w ws ih =>
    obtain ⟨n, w⟩ := w
    obtain ⟨r, first, rest⟩ := bind_ok.mp h
    obtain ⟨others, checked, made⟩ := bind_ok.mp rest
    cases made
    obtain ⟨names, each⟩ := ih checked
    exact ⟨by rw [List.map_cons, List.map_cons, names], List.forall_mem_cons.mpr ⟨checkWriter_spec first, each⟩⟩

/-- A configuration that the target accepts has its version paths in their places. -/
theorem configBoundary_located {c : Context} {config dropin : RecordText.Bytes} {versionIds : List (WriterName × Text)}
    (distinct : (c.writers.map Prod.fst).Nodup) (h : configBoundary nfkc ca c config dropin = .ok versionIds) :
    ∃ t, RecordText.decode config = some t ∧ versionIds.map Prod.fst = c.writers.map Prod.fst ∧
      Located (c.writers.map Prod.fst) (requestOf versionIds) (segments t) := by
  unfold configBoundary at h
  split at h
  · cases h
  · next t read =>
    obtain ⟨-, rest⟩ := checked_ok.mp h
    obtain ⟨-, rest⟩ := checked_ok.mp rest
    obtain ⟨-, rest⟩ := checked_ok.mp rest
    obtain ⟨counts, rest⟩ := checked_ok.mp rest
    obtain ⟨certs, keys⟩ := by simpa only [Bool.and_eq_true, decide_eq_true_eq] using counts
    obtain ⟨names, each⟩ := checkWriters_spec rest
    have checked : ∀ n ∈ c.writers.map Prod.fst, Checked t n (requestOf versionIds n) := by
      intro n mem
      rw [← names] at mem
      obtain ⟨p, there, rfl⟩ := List.mem_map.mp mem
      have found : versionIds.lookup p.1 = some p.2 := lookup_of_nodup (names ▸ distinct) there
      rw [requestOf, found]
      exact each p there
    refine ⟨t, read, names, segments_free t, distinct, fun n mem => (checked n mem).hex,
      fun n mem => (checked n mem).paths, fun f places slots => ?_⟩
    have bound := card_le_slots (isolated_setting f) (by cases f <;> decide) (segments_free t) slots
    rw [join_segments] at bound
    rw [List.length_map]
    cases f with
    | cert => exact certs ▸ bound
    | key => exact keys ▸ bound

end Recognized

end PlatformConfig.AlloyVersions
