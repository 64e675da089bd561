import PlatformConfig.TextScan

/-!
# Texts between quotes

A text is cut at its quotes, and a quoted string stands in the text where it is one of the segments
between the first and the last. A quoted string that stands in a text once is replaced there by
`str.replace`, and the other segments stay.
-/
namespace PlatformConfig.QuotedText

open TextScan

/-- A string in quotes. -/
def enquote (s : Text) : Text := '"' :: (s ++ ['"'])

/-- The texts between the quotes of a text. -/
def segments (t : Text) : List Text := t.splitOn '"'

def join (ss : List Text) : Text := ['"'].intercalate ss

/-- The segment has a quote on each side. -/
def Inner (ss : List Text) (i : ℕ) : Prop := 0 < i ∧ i + 1 < ss.length

instance (ss : List Text) (i : ℕ) : Decidable (Inner ss i) := inferInstanceAs (Decidable (_ ∧ _))

/-- The segments with a quote on each side changed. -/
def changed (g : Text → Text) (ss : List Text) : List Text :=
  ss.mapIdx fun i s => if Inner ss i then g s else s

/-- The text with each quoted string changed. -/
def requoted (g : Text → Text) (t : Text) : Text := join (changed g (segments t))

/-- A quoted string, by the first of the pairs that has it. -/
def substituted (ps : List (Text × Text)) (u : Text) : Text :=
  match ps.find? fun p => u = p.1 with
  | some p => p.2
  | none => u

/-- The quoted string stands at this segment and at no other. -/
structure Once (ss : List Text) (s : Text) (i : ℕ) : Prop where
  inner : Inner ss i
  here : ss[i]? = some s
  only : ∀ j, Inner ss j → ss[j]? = some s → j = i

/-- `t.replace(old, new)` of a text that is not empty; `skip` characters belong to the match before. -/
def replaceFrom (old new : Text) : ℕ → Text → Text
  | _, [] => []
  | skip + 1, _ :: t => replaceFrom old new skip t
  | 0, c :: t =>
    if old <+: c :: t then new ++ replaceFrom old new (old.length - 1) t
    else c :: replaceFrom old new 0 t

/-- `t.replace(old, new)` -/
def replaceAll (old new t : Text) : Text := replaceFrom old new 0 t

section Segments

lemma segments_ne_nil (t : Text) : segments t ≠ [] := List.splitOn_ne_nil '"' t

lemma join_segments (t : Text) : join (segments t) = t := List.intercalate_splitOn '"'

lemma segments_join {ss : List Text} (some_ : ss ≠ []) (free : ∀ s ∈ ss, '"' ∉ s) : segments (join ss) = ss :=
  List.splitOn_intercalate '"' free some_

lemma segments_free (t : Text) : ∀ s ∈ segments t, '"' ∉ s := by
  unfold segments
  induction t with
  | nil => simp
  | cons c t ih =>
    rw [List.splitOn_cons_eq_if_modifyHead]
    split_ifs with sign
    · exact List.forall_mem_cons.mpr ⟨by simp, ih⟩
    · have other : '"' ≠ c := fun same => sign (beq_iff_eq.mpr same.symm)
      cases whole : List.splitOn '"' t with
      | nil => simp
      | cons s ss =>
        rw [whole] at ih
        rw [List.modifyHead_cons]
        refine List.forall_mem_cons.mpr ⟨?_, fun u mem => ih u (List.mem_cons_of_mem s mem)⟩
        simp [other, ih s List.mem_cons_self]

lemma join_append {xs ys : List Text} (some_ : xs ≠ []) (some' : ys ≠ []) :
    join (xs ++ ys) = join xs ++ '"' :: join ys := by
  induction xs with
  | nil => exact absurd rfl some_
  | cons x xs ih =>
    cases xs with
    | nil =>
      rw [List.singleton_append]
      simp only [join, List.intercalate_cons_of_ne_nil some']
      simp [List.intercalate]
    | cons x' xs =>
      have rest := ih (List.cons_ne_nil x' xs)
      simp only [join, List.cons_append, List.intercalate_cons_cons] at rest ⊢
      rw [rest]
      simp

/-- A text without quotes stands at the begin of the first segment. -/
lemma segments_front {s : Text} (free : '"' ∉ s) (t : Text) :
    ∃ u ss, segments (s ++ t) = (s ++ u) :: ss := by
  cases whole : segments t with
  | nil => exact absurd whole (segments_ne_nil t)
  | cons u ss =>
    refine ⟨u, ss, ?_⟩
    have text : s ++ t = join ((s ++ u) :: ss) := by
      rw [← join_segments t, whole]
      cases ss with
      | nil => simp [join, List.intercalate]
      | cons v vs => simp [join, List.intercalate_cons_cons]
    rw [text, segments_join (List.cons_ne_nil _ _)]
    have each := segments_free t
    rw [whole] at each
    obtain ⟨first, rest⟩ := List.forall_mem_cons.mp each
    exact List.forall_mem_cons.mpr ⟨by simp [free, first], rest⟩

/-- The place of a segment: as many quotes before it as segments, and the last of them right before it. -/
lemma segment_place {ss : List Text} (free : ∀ s ∈ ss, '"' ∉ s) {k : ℕ} {s : Text} (here : ss[k]? = some s) :
    ∃ t r, join ss = t ++ (s ++ r) ∧ quotes t = k ∧ ∀ c, t.getLast? = some c → c = '"' := by
  induction ss generalizing k with
  | nil => cases here
  | cons x xs ih =>
    obtain ⟨first, rest⟩ := List.forall_mem_cons.mp free
    cases k with
    | zero =>
      obtain rfl := Option.some.inj here
      cases xs with
      | nil => exact ⟨[], [], by simp [join, List.intercalate], rfl, by simp⟩
      | cons y ys => exact ⟨[], '"' :: join (y :: ys), by simp [join, List.intercalate_cons_cons], rfl, by simp⟩
    | succ k =>
      rw [List.getElem?_cons_succ] at here
      obtain ⟨t, r, text, count, last⟩ := ih rest here
      have some_ : xs ≠ [] := List.ne_nil_of_mem (List.mem_of_getElem? here)
      refine ⟨x ++ '"' :: t, r, ?_, ?_, fun c => ?_⟩
      · rw [← List.singleton_append, join_append (List.cons_ne_nil x []) some_, text]
        simp [join, List.intercalate]
      · rw [quotes_append, quotes_cons, count, quotes_eq_zero.mpr first]
        omega
      · cases ends : t.getLast? with
        | none => simp [List.getLast?_append, List.getLast?_cons, ends, eq_comm]
        | some d =>
          obtain rfl := last d ends
          simp [List.getLast?_append, List.getLast?_cons, ends, eq_comm]

lemma mem_join {ss : List Text} {c : Char} (mem : c ∈ join ss) : c = '"' ∨ ∃ s ∈ ss, c ∈ s := by
  induction ss with
  | nil => cases mem
  | cons s ss ih =>
    cases ss with
    | nil => exact .inr ⟨s, List.mem_cons_self, by simpa [join, List.intercalate] using mem⟩
    | cons u us =>
      rw [join, List.intercalate_cons_cons] at mem
      simp only [List.mem_append, List.mem_singleton] at mem
      rcases mem with (there | same) | there
      · exact .inr ⟨s, List.mem_cons_self, there⟩
      · exact .inl same
      · rcases ih there with same | ⟨v, mem, inside⟩
        · exact .inl same
        · exact .inr ⟨v, List.mem_cons_of_mem s mem, inside⟩

lemma mem_of_segment {t s : Text} {c : Char} (mem : s ∈ segments t) (inside : c ∈ s) : c ∈ t := by
  obtain ⟨k, here⟩ := List.mem_iff_getElem?.mp mem
  obtain ⟨u, r, text, -⟩ := segment_place (segments_free t) here
  rw [← join_segments t, text]
  simp [inside]

lemma segments_append (t u : Text) : segments (t ++ '"' :: u) = segments t ++ segments u :=
  List.splitOn_append_cons_self t u

lemma segments_bare {s : Text} (free : '"' ∉ s) : segments s = [s] := List.splitOn_eq_singleton free

/-- The segments around a quoted string. -/
lemma segments_enquote {s : Text} (free : '"' ∉ s) (t u : Text) :
    segments (t ++ (enquote s ++ u)) = segments t ++ s :: segments u := by
  have text : t ++ (enquote s ++ u) = t ++ '"' :: (s ++ '"' :: u) := by simp [enquote]
  rw [text, segments_append, segments_append, segments_bare free, List.singleton_append]

lemma inner_congr {ss ss' : List Text} (same : ss.length = ss'.length) {i : ℕ} : Inner ss i ↔ Inner ss' i := by
  rw [Inner, Inner, same]

lemma Inner.get {ss : List Text} {i : ℕ} (inner : Inner ss i) : ∃ s, ss[i]? = some s := by
  have inside : i < ss.length := by
    have long := inner.2
    omega
  exact ⟨ss[i], List.getElem?_eq_getElem inside⟩

/-- A segment with a quote on each side is a quoted string of the text. -/
lemma join_enquote {ss : List Text} {s : Text} {i : ℕ} (inner : Inner ss i) (here : ss[i]? = some s) :
    join ss = join (ss.take i) ++ (enquote s ++ join (ss.drop (i + 1))) := by
  obtain ⟨low, high⟩ := inner
  have before : ss.take i ≠ [] := by
    rw [← List.length_pos_iff, List.length_take]
    omega
  have after : ss.drop (i + 1) ≠ [] := by
    rw [← List.length_pos_iff, List.length_drop]
    omega
  have whole : ss = ss.take i ++ ([s] ++ ss.drop (i + 1)) := by
    obtain ⟨inside, same⟩ := List.getElem?_eq_some_iff.mp here
    rw [List.singleton_append, ← same, List.getElem_cons_drop, List.take_append_drop]
  conv_lhs => rw [whole]
  rw [join_append before (by simp), join_append (by simp) after]
  simp [enquote, join, List.intercalate]

end Segments

section Changing
variable {g : Text → Text} {ss : List Text}

@[simp] lemma changed_length : (changed g ss).length = ss.length := List.length_mapIdx

lemma changed_ne_nil (some_ : ss ≠ []) : changed g ss ≠ [] := by
  rw [← List.length_pos_iff] at some_ ⊢
  rwa [changed_length]

lemma changed_inner {i : ℕ} : Inner (changed g ss) i ↔ Inner ss i := by simp [Inner]

lemma getElem?_changed (i : ℕ) : (changed g ss)[i]? = ss[i]?.map fun s => if Inner ss i then g s else s := by
  simp [changed, List.getElem?_mapIdx]

lemma changed_free (free : ∀ s ∈ ss, '"' ∉ s) (keeps : ∀ s, '"' ∉ s → '"' ∉ g s) :
    ∀ s ∈ changed g ss, '"' ∉ s := by
  intro s mem
  obtain ⟨i, there⟩ := List.mem_iff_getElem?.mp mem
  rw [getElem?_changed] at there
  obtain ⟨u, inside, rfl⟩ := Option.map_eq_some_iff.mp there
  have bare := free u (List.mem_of_getElem? inside)
  split_ifs
  · exact keeps u bare
  · exact bare

/-- Changing one quoted string, and then the others. -/
lemma changed_changed {f : Text → Text} : changed f (changed g ss) = changed (fun s => f (g s)) ss := by
  refine List.ext_getElem? fun i => ?_
  simp only [getElem?_changed, changed_inner, Option.map_map]
  congr 1
  funext s
  by_cases inner : Inner ss i <;> simp [inner]

lemma segments_requoted {t : Text} (keeps : ∀ s, '"' ∉ s → '"' ∉ g s) :
    segments (requoted g t) = changed g (segments t) :=
  segments_join (changed_ne_nil (segments_ne_nil t)) (changed_free (segments_free t) keeps)

end Changing

section Replacing
variable {old new : Text}

lemma replaceFrom_none {t : Text} (absent : ¬old <:+: t) : replaceFrom old new 0 t = t := by
  induction t with
  | nil => rfl
  | cons c t ih =>
    have first : ¬old <+: c :: t := fun front => absent front.isInfix
    have rest : ¬old <:+: t := fun inside => absent (inside.trans (List.suffix_cons c t).isInfix)
    rw [replaceFrom, if_neg first, ih rest]

lemma replaceFrom_skip (u t : Text) : replaceFrom old new u.length (u ++ t) = replaceFrom old new 0 t := by
  induction u with
  | nil => rfl
  | cons c u ih =>
    rw [List.length_cons, List.cons_append, replaceFrom, ih]

/-- A text that stands in another one once is replaced there. -/
theorem replaceAll_once {t u : Text} (some_ : old ≠ [])
    (only : ∀ t' u', t ++ (old ++ u) = t' ++ (old ++ u') → t' = t) :
    replaceAll old new (t ++ (old ++ u)) = t ++ (new ++ u) := by
  unfold replaceAll
  induction t with
  | nil =>
    obtain ⟨c, rest, rfl⟩ := List.exists_cons_of_ne_nil some_
    have absent : ¬(c :: rest) <:+: u := by
      intro inside
      obtain ⟨p, q, rfl⟩ := inside
      have start := only (c :: rest ++ p) q (by simp)
      cases start
    have front : c :: rest <+: c :: (rest ++ u) := List.prefix_append (c :: rest) u
    rw [List.nil_append, List.cons_append, replaceFrom, if_pos front, List.length_cons, Nat.add_sub_cancel, replaceFrom_skip, replaceFrom_none absent]
    rfl
  | cons c t ih =>
    have first : ¬old <+: c :: (t ++ (old ++ u)) := by
      intro front
      obtain ⟨q, text⟩ := front
      have start := only [] q (by rw [List.nil_append, text]; rfl)
      cases start
    rw [List.cons_append, replaceFrom, if_neg first, ih fun t' u' text => ?_]
    · rfl
    · have longer := only (c :: t') u' (by rw [List.cons_append, List.cons_append, text])
      exact (List.cons.inj longer).2

lemma changed_once {ss : List Text} {s new : Text} {i : ℕ} (once : Once ss s i) :
    changed (fun u => if u = s then new else u) ss = ss.set i new := by
  refine List.ext_getElem? fun j => ?_
  rw [getElem?_changed, List.getElem?_set]
  by_cases here : i = j
  · subst here
    have inside : i < ss.length := (List.getElem?_eq_some_iff.mp once.here).1
    rw [once.here, if_pos rfl, if_pos inside]
    simp [once.inner]
  · rw [if_neg here]
    cases there : ss[j]? with
    | none => rfl
    | some u =>
      by_cases inner : Inner ss j
      · have other : u ≠ s := by
          intro same
          rw [same] at there
          exact here (once.only j inner there).symm
        simp [inner, other]
      · simp [inner]

/-- A quoted string that stands in a text once is replaced as a segment. -/
theorem replaceAll_enquote {ss : List Text} {s new : Text} {i : ℕ} (once : Once ss s i)
    (free : ∀ u ∈ ss, '"' ∉ u) : replaceAll (enquote s) (enquote new) (join ss) =
      join (changed (fun u => if u = s then new else u) ss) := by
  have bare : '"' ∉ s := free s (List.mem_of_getElem? once.here)
  have some_ : ss ≠ [] := by
    intro empty
    have long := once.inner.2
    simp [empty] at long
  rw [join_enquote once.inner once.here, replaceAll_once (by simp [enquote]) ?_]
  · have inner : Inner (ss.set i new) i := by simpa [Inner] using once.inner
    have inside : i < ss.length := by
      have long := once.inner.2
      omega
    have there : (ss.set i new)[i]? = some new := by simp [inside]
    rw [changed_once once, join_enquote inner there, List.take_set_of_le (le_refl i),
      List.drop_set_of_lt (Nat.lt_succ_self i)]
  · intro t' u' text
    rw [← join_enquote once.inner once.here] at text
    have cut : ss = segments t' ++ s :: segments u' := by
      rw [← segments_enquote bare, ← text, segments_join some_ free]
    have before := List.length_pos_iff.mpr (segments_ne_nil t')
    have after := List.length_pos_iff.mpr (segments_ne_nil u')
    have place : (segments t').length = i := by
      refine once.only _ ⟨before, ?_⟩ ?_
      · rw [cut, List.length_append, List.length_cons]
        omega
      · rw [cut]
        simp
    rw [← place, cut, List.take_left, join_segments]

lemma Once.changed {g : Text → Text} {ss : List Text} {s : Text} {i : ℕ} (once : Once ss s i) (fixed : g s = s)
    (only : ∀ u, g u = s → u = s) : Once (changed g ss) s i := by
  refine ⟨changed_inner.mpr once.inner, ?_, fun j inner there => ?_⟩
  · rw [getElem?_changed, once.here]
    simp [fixed]
  · rw [changed_inner] at inner
    rw [getElem?_changed] at there
    obtain ⟨u, inside, same⟩ := Option.map_eq_some_iff.mp there
    rw [if_pos inner] at same
    exact once.only j inner (only u same ▸ inside)

lemma substituted_cons {p : Text × Text} {ps : List (Text × Text)} (fresh : ∀ q ∈ ps, p.2 ≠ q.1) (u : Text) :
    substituted ps (if u = p.1 then p.2 else u) = substituted (p :: ps) u := by
  unfold substituted
  by_cases first : u = p.1
  · have none_ : ps.find? (fun q => p.2 = q.1) = none := List.find?_eq_none.mpr (by simpa using fresh)
    rw [if_pos first, none_, List.find?_cons_of_pos (by simpa using first)]
  · rw [if_neg first, List.find?_cons_of_neg (by simpa using first)]

/-- Quoted strings that stand in a text once, each replaced in its turn. -/
theorem replaceAll_each {ps : List (Text × Text)} {ss : List Text} (free : ∀ u ∈ ss, '"' ∉ u)
    (distinct : (ps.map Prod.fst).Nodup) (once : ∀ p ∈ ps, ∃ i, Once ss p.1 i)
    (fresh : ∀ p ∈ ps, ∀ q ∈ ps, p.2 ≠ q.1) (bare : ∀ p ∈ ps, '"' ∉ p.2) :
    ps.foldl (fun t p => replaceAll (enquote p.1) (enquote p.2) t) (join ss) =
      join (changed (substituted ps) ss) := by
  induction ps generalizing ss with
  | nil =>
    have same : changed (substituted []) ss = ss := by
      refine List.ext_getElem? fun i => ?_
      rw [getElem?_changed]
      simp [substituted]
    rw [same]
    rfl
  | cons p ps ih =>
    obtain ⟨i, first⟩ := once p List.mem_cons_self
    obtain ⟨new, others⟩ := List.nodup_cons.mp distinct
    have later : ∀ q ∈ ps, ∃ j, Once (changed (fun u => if u = p.1 then p.2 else u) ss) q.1 j := by
      intro q mem
      obtain ⟨j, there⟩ := once q (List.mem_cons_of_mem p mem)
      have other : q.1 ≠ p.1 := fun same => new (same ▸ List.mem_map_of_mem mem)
      have kept : p.2 ≠ q.1 := fresh p List.mem_cons_self q (List.mem_cons_of_mem p mem)
      refine ⟨j, there.changed (if_neg other) fun u same => ?_⟩
      split_ifs at same
      · exact absurd same kept
      · exact same
    have keeps : ∀ u, '"' ∉ u → '"' ∉ (if u = p.1 then p.2 else u) := by
      intro u plain
      split_ifs
      · exact bare p List.mem_cons_self
      · exact plain
    rw [List.foldl_cons, replaceAll_enquote first free, ih (changed_free free keeps) others later
      (fun a mem b mem' => fresh a (List.mem_cons_of_mem p mem) b (List.mem_cons_of_mem p mem'))
      (fun a mem => bare a (List.mem_cons_of_mem p mem)), changed_changed]
    congr 2
    funext u
    exact substituted_cons (fun q mem => fresh p List.mem_cons_self q (List.mem_cons_of_mem p mem)) u

end Replacing

section Counting
variable {s : Text}

lemma literal_run {u r : Text} (h : (literal s).run u = some ((), r)) : r.length = u.length - s.length := by
  change (if s <+: u then some ((), u.drop s.length) else none) = _ at h
  split at h
  · cases h
    rw [List.length_drop]
  · cases h

lemma one_le_finditerFrom {n j : ℕ} {last : Option Char} {t : Text} (low : n ≤ j) (high : j < t.length)
    (found : (matchAt (fun _ => literal s) j last t).isSome) :
    1 ≤ (finditerFrom (fun _ => literal s) n last t).length := by
  by_contra none_
  have empty : finditerFrom (fun _ => literal s) n last t = [] := List.length_eq_zero_iff.mp (by omega)
  clear none_
  induction t generalizing n j last with
  | nil => simp at high
  | cons c t ih =>
    cases n with
    | succ n =>
      obtain ⟨k, rfl⟩ : ∃ k, j = k + 1 := ⟨j - 1, by omega⟩
      exact ih (Nat.le_of_succ_le_succ low) (by simpa using high) found empty
    | zero =>
      cases ran : (literal s).run (c :: t) with
      | some p => simp [finditerFrom, ran] at empty
      | none =>
        cases j with
        | zero => simp [matchAt, ran] at found
        | succ k =>
          simp only [finditerFrom, ran] at empty
          exact ih (Nat.zero_le k) (by simpa using high) found empty

/-- Two places of a literal that do not overlap are two matches. -/
lemma two_le_finditerFrom {n i j : ℕ} {last : Option Char} {t : Text} (low : n ≤ i)
    (apart : i + s.length ≤ j) (some_ : s ≠ []) (high : j < t.length)
    (first : (matchAt (fun _ => literal s) i last t).isSome)
    (second : (matchAt (fun _ => literal s) j last t).isSome) :
    2 ≤ (finditerFrom (fun _ => literal s) n last t).length := by
  have long := List.length_pos_iff.mpr some_
  induction t generalizing n i j last with
  | nil => simp at high
  | cons c t ih =>
    have short : j - 1 < t.length := by
      simp only [List.length_cons] at high
      omega
    obtain ⟨k, rfl⟩ : ∃ k, j = k + 1 := ⟨j - 1, by omega⟩
    cases n with
    | succ n =>
      obtain ⟨m, rfl⟩ : ∃ m, i = m + 1 := ⟨i - 1, by omega⟩
      exact ih (Nat.le_of_succ_le_succ low) (by omega) short first second
    | zero =>
      cases ran : (literal s).run (c :: t) with
      | some p =>
        obtain ⟨⟨⟩, r⟩ := p
        have rest := literal_run ran
        rw [List.length_cons] at rest
        have later : 1 ≤ (finditerFrom (fun _ => literal s) (t.length - r.length) (some c) t).length :=
          one_le_finditerFrom (by omega) short second
        simp only [finditerFrom, ran, List.length_cons]
        omega
      | none =>
        cases i with
        | zero => simp [matchAt, ran] at first
        | succ m =>
          simp only [finditerFrom, ran]
          exact ih (Nat.zero_le m) (by omega) short first second

variable {ss : List Text}

lemma enquote_found {i : ℕ} (inner : Inner ss i) (here : ss[i]? = some s) :
    (matchAt (fun _ => literal (enquote s)) (join (ss.take i)).length none (join ss)).isSome := by
  rw [join_enquote inner here, matchAt_append, takes_literal]
  rfl

lemma enquote_twice {i j : ℕ} (inner : Inner ss i) (inner' : Inner ss j) (here : ss[i]? = some s)
    (there : ss[j]? = some s) (apart : i + 1 < j) :
    2 ≤ (finditer (fun _ => literal (enquote s)) (join ss)).length := by
  have before : Inner (ss.take j) i := by
    have long := inner'.2
    refine ⟨inner.1, ?_⟩
    rw [List.length_take]
    omega
  have same : (ss.take j)[i]? = some s := by
    rw [List.getElem?_take, if_pos (by omega), here]
  have start := congrArg List.length (join_enquote before same)
  have stop := congrArg List.length (join_enquote inner' there)
  rw [List.take_take, Nat.min_eq_left (by omega)] at start
  simp only [List.length_append] at start stop
  have long : 0 < (enquote s).length := by simp [enquote]
  exact two_le_finditerFrom (Nat.zero_le _) (by omega) (by simp [enquote]) (by omega) (enquote_found inner here)
    (enquote_found inner' there)

/-- A quoted string that is counted once, and does not share a quote with itself, stands there only. -/
theorem once_of_count {i : ℕ} (inner : Inner ss i) (here : ss[i]? = some s) (before : ss[i - 1]? ≠ some s)
    (behind : ss[i + 1]? ≠ some s) (one : (finditer (fun _ => literal (enquote s)) (join ss)).length = 1) :
    Once ss s i := by
  refine ⟨inner, here, fun j inner' there => ?_⟩
  by_contra other
  have low := inner'.1
  rcases Nat.lt_or_gt_of_ne other with smaller | larger
  · have apart : j + 1 ≠ i := by
      rintro rfl
      exact before there
    have two := enquote_twice inner' inner there here (by omega)
    omega
  · have apart : j ≠ i + 1 := by
      rintro rfl
      exact behind there
    have two := enquote_twice inner inner' here there (by omega)
    omega

end Counting

end PlatformConfig.QuotedText
