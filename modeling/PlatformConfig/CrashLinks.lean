import Mathlib.Data.List.AList
import Mathlib.Data.Finset.Card
import Mathlib.Logic.Function.Basic

/-!
# Names and hard links

A volume maps names to numbered nodes; a node has as many links as it has names. `Extends`
describes a volume that differs from an earlier one by the names of a single new node, which is
all that publishing a file through a hard link does.
-/
namespace PlatformConfig.CrashLinks

variable {N I : Type} [DecidableEq N]

/-- Names and the nodes they stand for. Node numbers from `next` on were never given out. -/
structure Volume (N I : Type) [DecidableEq N] where
  names : AList fun _ : N => ℕ
  node : ℕ → I
  next : ℕ
  bounded : ∀ n i, names.lookup n = some i → i < next

namespace Volume

/-- A volume without names. -/
def empty (x : I) : Volume N I where
  names := ∅
  node _ := x
  next := 0
  bounded n i h := by simp at h

/-- The names of a node. -/
def namesOf (v : Volume N I) (i : ℕ) : Finset N :=
  v.names.keys.toFinset.filter fun n => v.names.lookup n = some i

def links (v : Volume N I) (i : ℕ) : ℕ := (v.namesOf i).card

/-- The node behind a name, and how many links it has. -/
def stat (v : Volume N I) (n : N) : Option (I × ℕ) :=
  (v.names.lookup n).map fun i => (v.node i, v.links i)

/-- Give a new name to a new node. -/
def create (v : Volume N I) (n : N) (x : I) : Option (Volume N I) :=
  if v.names.lookup n = none then
    some
      { names := v.names.insert n v.next
        node := Function.update v.node v.next x
        next := v.next + 1
        bounded := by
          intro m i found
          by_cases h : m = n
          · subst h
            rw [AList.lookup_insert] at found
            injection found
            omega
          · rw [AList.lookup_insert_ne h] at found
            exact Nat.lt_succ_of_lt (v.bounded m i found) }
  else none

/-- Change the node behind a name. -/
def modify (v : Volume N I) (n : N) (f : I → I) : Option (Volume N I) :=
  (v.names.lookup n).map fun i => { v with node := Function.update v.node i (f (v.node i)) }

/-- Give the node behind `a` a second, new name. -/
def link (v : Volume N I) (a b : N) : Option (Volume N I) :=
  match found : v.names.lookup a with
  | none => none
  | some i =>
    if v.names.lookup b = none then
      some
        { v with
          names := v.names.insert b i
          bounded := by
            intro m j h
            by_cases same : m = b
            · subst same
              rw [AList.lookup_insert] at h
              cases h
              exact v.bounded a i found
            · rw [AList.lookup_insert_ne same] at h
              exact v.bounded m j h }
    else none

/-- Take a name away. -/
def unlink (v : Volume N I) (a : N) : Option (Volume N I) :=
  (v.names.lookup a).map fun _ =>
    { v with
      names := v.names.erase a
      bounded := by
        intro m j h
        by_cases same : m = a
        · subst same
          rw [AList.lookup_erase] at h
          cases h
        · rw [AList.lookup_erase_ne same] at h
          exact v.bounded m j h }

/-- Move the node behind `a` to the name `b`, whatever `b` was. -/
def replace (v : Volume N I) (a b : N) : Option (Volume N I) :=
  match found : v.names.lookup a with
  | none => none
  | some i =>
    some
      { v with
        names := (v.names.erase a).insert b i
        bounded := by
          intro m j h
          by_cases same : m = b
          · subst same
            rw [AList.lookup_insert] at h
            cases h
            exact v.bounded a i found
          · rw [AList.lookup_insert_ne same] at h
            by_cases gone : m = a
            · subst gone
              rw [AList.lookup_erase] at h
              cases h
            · rw [AList.lookup_erase_ne gone] at h
              exact v.bounded m j h }

variable {v w : Volume N I} {m n : N} {x : I} {i j k : ℕ}

lemma stat_eq_none : v.stat n = none ↔ v.names.lookup n = none := by simp [stat]

lemma stat_eq_some : v.stat n = some (x, k) ↔
    ∃ i, v.names.lookup n = some i ∧ v.node i = x ∧ v.links i = k := by
  simp [stat]

@[simp] lemma mem_namesOf : n ∈ v.namesOf i ↔ v.names.lookup n = some i := by
  simp only [namesOf, Finset.mem_filter, List.mem_toFinset, and_iff_right_iff_imp]
  intro found
  exact AList.mem_keys.mpr (AList.lookup_isSome.mp (by rw [found]; rfl))

lemma links_congr (same : ∀ n, v.names.lookup n = some i ↔ w.names.lookup n = some j) :
    v.links i = w.links j := by
  refine congrArg Finset.card (Finset.ext fun n => ?_)
  rw [mem_namesOf, mem_namesOf]
  exact same n

/-- A name with a single link is the only one of its node. -/
lemma stat_single (single : v.stat n = some (x, 1)) (same : v.names.lookup m = v.names.lookup n) :
    m = n := by
  obtain ⟨i, found, -, one⟩ := stat_eq_some.mp single
  obtain ⟨o, only⟩ := Finset.card_eq_one.mp one
  have first : m ∈ v.namesOf i := mem_namesOf.mpr (same.trans found)
  have second : n ∈ v.namesOf i := mem_namesOf.mpr found
  rw [only, Finset.mem_singleton] at first second
  exact first.trans second.symm

/-- Taking away a name that shares its node with no other one. -/
lemma stat_unlink (single : v.stat n = some (x, 1)) (applied : v.unlink n = some w) :
    w.stat n = none ∧ ∀ m, m ≠ n → w.stat m = v.stat m := by
  unfold unlink at applied
  obtain ⟨i, found, rfl⟩ := Option.map_eq_some_iff.mp applied
  refine ⟨stat_eq_none.mpr (AList.lookup_erase ..), fun m other => ?_⟩
  have same : (v.names.erase n).lookup m = v.names.lookup m := AList.lookup_erase_ne other
  unfold stat
  rw [same]
  refine Option.map_congr fun j there => ?_
  have there : v.names.lookup m = some j := there
  refine congrArg (Prod.mk (v.node j)) (links_congr fun o => ?_)
  by_cases gone : o = n
  · subst gone
    rw [AList.lookup_erase]
    refine ⟨by simp, fun shared => ?_⟩
    exact absurd (stat_single single (there.trans shared.symm)) other
  · rw [AList.lookup_erase_ne gone]

lemma replace_applies (found : v.names.lookup m = some i) (n : N) : ∃ w, v.replace m n = some w := by
  unfold replace
  split
  case h_1 absent =>
    rw [found] at absent
    cases absent
  case h_2 => exact ⟨_, rfl⟩

/-- The names after a move. -/
lemma replace_names (other : m ≠ n) (applied : v.replace m n = some w) :
    ∃ i, v.names.lookup m = some i ∧ w.names.lookup n = some i ∧ w.names.lookup m = none ∧
      (∀ o, o ≠ m → o ≠ n → w.names.lookup o = v.names.lookup o) ∧ w.node = v.node ∧ w.next = v.next := by
  unfold replace at applied
  split at applied
  case h_1 => cases applied
  case h_2 i found =>
    cases applied
    refine ⟨i, found, AList.lookup_insert _, ?_, fun o first second => ?_, rfl, rfl⟩
    · exact (AList.lookup_insert_ne other).trans (AList.lookup_erase ..)
    · exact (AList.lookup_insert_ne second).trans (AList.lookup_erase_ne first)

/-- Moving a file with a single name over another one. -/
lemma stat_replace {y : I} (other : m ≠ n) (source : v.stat m = some (x, 1))
    (target : v.stat n = some (y, 1)) (applied : v.replace m n = some w) :
    w.stat n = some (x, 1) ∧ w.stat m = none ∧ ∀ o, o ≠ m → o ≠ n → w.stat o = v.stat o := by
  obtain ⟨i, found, moved, gone, rest, node, -⟩ := replace_names other applied
  obtain ⟨i', found', held, -⟩ := stat_eq_some.mp source
  rw [found] at found'
  cases found'
  have only : ∀ o, v.names.lookup o = some i → o = m := fun o there => stat_single source (there.trans found.symm)
  refine ⟨stat_eq_some.mpr ⟨i, moved, by rw [node, held], ?_⟩, stat_eq_none.mpr gone, fun o first second => ?_⟩
  · refine Finset.card_eq_one.mpr ⟨n, Finset.ext fun o => ?_⟩
    rw [mem_namesOf, Finset.mem_singleton]
    refine ⟨fun there => ?_, fun same => same ▸ moved⟩
    by_contra different
    by_cases same : o = m
    · subst same
      rw [gone] at there
      cases there
    · rw [rest o same different] at there
      exact same (only o there)
  · unfold stat
    rw [rest o first second, node]
    refine Option.map_congr fun j there => ?_
    have there : v.names.lookup o = some j := there
    refine congrArg (Prod.mk (v.node j)) (links_congr fun p => ?_)
    by_cases third : p = m
    · subst third
      rw [gone, found]
      simp only [reduceCtorEq, Option.some.injEq, false_iff]
      rintro rfl
      exact first (only o there)
    by_cases fourth : p = n
    · subst fourth
      rw [moved]
      have apart : v.names.lookup p ≠ some j := fun shared =>
        second (stat_single target (there.trans shared.symm))
      simp only [apart, iff_false, Option.some.injEq]
      rintro rfl
      exact first (only o there)
    · rw [rest p third fourth]

end Volume

open Volume

/-- `v` is `u` with the names `S` for one new node `x`. -/
structure Extends (u v : Volume N I) (S : Finset N) (x : I) : Prop where
  new : ∀ m ∈ S, u.names.lookup m = none ∧ v.names.lookup m = some u.next
  old : ∀ m ∉ S, v.names.lookup m = u.names.lookup m
  node : ∀ i < u.next, v.node i = u.node i
  newNode : v.node u.next = x
  next : v.next = u.next + 1

namespace Extends

variable {u v w : Volume N I} {S : Finset N} {x y : I} {a b m n : N}

lemma newLinks (h : Extends u v S x) : v.links u.next = S.card := by
  refine congrArg Finset.card (Finset.ext fun m => ?_)
  rw [mem_namesOf]
  by_cases member : m ∈ S
  · simp [member, (h.new m member).2]
  · rw [h.old m member]
    refine ⟨fun found => ?_, fun known => absurd known member⟩
    exact absurd (u.bounded m _ found) (lt_irrefl _)

lemma oldLinks (h : Extends u v S x) {i : ℕ} (below : i < u.next) : v.links i = u.links i := by
  refine links_congr fun m => ?_
  by_cases member : m ∈ S
  · rw [(h.new m member).1, (h.new m member).2]
    simp only [Option.some.injEq, reduceCtorEq, iff_false]
    omega
  · rw [h.old m member]

theorem stat_new (h : Extends u v S x) (member : m ∈ S) : v.stat m = some (x, S.card) := by
  obtain ⟨-, found⟩ := h.new m member
  exact stat_eq_some.mpr ⟨u.next, found, h.newNode, h.newLinks⟩

theorem stat_old (h : Extends u v S x) (other : m ∉ S) : v.stat m = u.stat m := by
  unfold stat
  rw [h.old m other]
  cases found : u.names.lookup m with
  | none => rfl
  | some i =>
    have below := u.bounded m i found
    simp only [Option.map_some, h.node i below, h.oldLinks below]

theorem create (applied : u.create n x = some v) : Extends u v {n} x := by
  unfold Volume.create at applied
  split at applied
  case isTrue absent =>
    cases applied
    refine ⟨fun m member => ?_, fun m other => ?_, fun i below => ?_, ?_, rfl⟩
    · rw [Finset.mem_singleton] at member
      subst member
      exact ⟨absent, AList.lookup_insert _⟩
    · exact AList.lookup_insert_ne (by simpa using other)
    · exact Function.update_of_ne (by omega) ..
    · exact Function.update_self ..
  case isFalse => cases applied

theorem modify {f : I → I} (h : Extends u v S x) (member : a ∈ S)
    (applied : v.modify a f = some w) : Extends u w S (f x) := by
  unfold Volume.modify at applied
  rw [(h.new a member).2] at applied
  cases applied
  refine ⟨h.new, h.old, fun i below => ?_, ?_, h.next⟩
  · exact (Function.update_of_ne (by omega) ..).trans (h.node i below)
  · exact (Function.update_self ..).trans (by rw [h.newNode])

theorem link (h : Extends u v S x) (member : a ∈ S) (applied : v.link a b = some w) :
    Extends u w (insert b S) x := by
  have source := (h.new a member).2
  unfold Volume.link at applied
  split at applied
  case h_1 absent =>
    rw [source] at absent
    cases absent
  case h_2 i found =>
    rw [source] at found
    cases found
    obtain ⟨free, ⟨⟩⟩ := Option.ite_none_right_eq_some.mp applied
    have other : b ∉ S := fun known => by
      rw [(h.new b known).2] at free
      cases free
    refine ⟨fun m known => ?_, fun m unknown => ?_, h.node, h.newNode, h.next⟩
    · by_cases same : m = b
      · subst same
        exact ⟨(h.old m other).symm.trans free, AList.lookup_insert _⟩
      · have known := Finset.mem_of_mem_insert_of_ne known same
        exact ⟨(h.new m known).1, (AList.lookup_insert_ne same).trans (h.new m known).2⟩
    · rw [Finset.mem_insert, not_or] at unknown
      exact (AList.lookup_insert_ne unknown.1).trans (h.old m unknown.2)

theorem unlink (h : Extends u v S x) (member : a ∈ S) (applied : v.unlink a = some w) :
    Extends u w (S.erase a) x := by
  unfold Volume.unlink at applied
  rw [(h.new a member).2] at applied
  cases applied
  refine ⟨fun m known => ?_, fun m unknown => ?_, h.node, h.newNode, h.next⟩
  · obtain ⟨same, known⟩ := Finset.mem_erase.mp known
    exact ⟨(h.new m known).1, (AList.lookup_erase_ne same).trans (h.new m known).2⟩
  · by_cases same : m = a
    · subst same
      exact (AList.lookup_erase m _).trans (h.new m member).1.symm
    · refine (AList.lookup_erase_ne same).trans (h.old m fun known => ?_)
      exact unknown (Finset.mem_erase.mpr ⟨same, known⟩)

/-- Every step on the new node can be taken. -/
lemma modify_applies (h : Extends u v S x) (member : a ∈ S) (f : I → I) :
    ∃ w, v.modify a f = some w := by
  simp [Volume.modify, (h.new a member).2]

lemma unlink_applies (h : Extends u v S x) (member : a ∈ S) : ∃ w, v.unlink a = some w := by
  simp [Volume.unlink, (h.new a member).2]

lemma link_applies (h : Extends u v S x) (member : a ∈ S) (free : v.stat b = none) :
    ∃ w, v.link a b = some w := by
  unfold Volume.link
  split
  case h_1 absent =>
    rw [(h.new a member).2] at absent
    cases absent
  case h_2 i found => simp [stat_eq_none.mp free]

end Extends

/-- Everything that `f` reads of a node is as it was, under each name of the earlier volume. -/
def Keeps {J : Type} (f : I → J) (u v : Volume N I) : Prop :=
  u.next ≤ v.next ∧ ∀ n i, u.names.lookup n = some i →
    v.names.lookup n = some i ∧ f (v.node i) = f (u.node i) ∧ v.links i = u.links i

namespace Keeps

variable {J : Type} {f : I → J} {u v w : Volume N I}

lemma refl (u : Volume N I) : Keeps f u u := ⟨le_refl _, fun _ _ found => ⟨found, rfl, rfl⟩⟩

lemma trans (first : Keeps f u v) (second : Keeps f v w) : Keeps f u w := by
  refine ⟨first.1.trans second.1, fun n i found => ?_⟩
  obtain ⟨there, node, links⟩ := first.2 n i found
  obtain ⟨there', node', links'⟩ := second.2 n i there
  exact ⟨there', node'.trans node, links'.trans links⟩

theorem of_extends {S : Finset N} {x : I} (h : Extends u v S x) : Keeps f u v := by
  refine ⟨by rw [h.next]; omega, fun n i found => ?_⟩
  have below := u.bounded n i found
  have other : n ∉ S := fun member => by
    rw [(h.new n member).1] at found
    cases found
  exact ⟨(h.old n other).trans found, congrArg f (h.node i below), h.oldLinks below⟩

/-- A change of a node that `f` does not see. -/
theorem of_modify {g : I → I} {n : N} (unseen : ∀ x, f (g x) = f x)
    (applied : u.modify n g = some v) : Keeps f u v := by
  unfold Volume.modify at applied
  cases found : u.names.lookup n with
  | none =>
    rw [found] at applied
    cases applied
  | some j =>
    rw [found] at applied
    cases applied
    refine ⟨le_refl _, fun m i known => ⟨known, ?_, rfl⟩⟩
    by_cases same : i = j
    · subst same
      simp [unseen]
    · simp [Function.update_of_ne same]

lemma stat {n : N} {x : I} {k : ℕ} (h : Keeps f u v) (found : u.stat n = some (x, k)) :
    ∃ y, v.stat n = some (y, k) ∧ f y = f x := by
  obtain ⟨i, there, rfl, rfl⟩ := stat_eq_some.mp found
  obtain ⟨there', node, links⟩ := h.2 n i there
  exact ⟨v.node i, stat_eq_some.mpr ⟨i, there', rfl, links⟩, node⟩

end Keeps

/-- Changing a node leaves the names alone. -/
lemma stat_modify {v w : Volume N I} {g : I → I} {n m : N} (applied : v.modify n g = some w) :
    (v.stat m = none → w.stat m = none) ∧ ∀ x k, v.stat m = some (x, k) →
      w.stat m = some (x, k) ∨ w.stat m = some (g x, k) := by
  unfold Volume.modify at applied
  cases found : v.names.lookup n with
  | none =>
    rw [found] at applied
    cases applied
  | some j =>
    rw [found] at applied
    cases applied
    constructor
    · intro absent
      have free := stat_eq_none.mp absent
      exact stat_eq_none.mpr free
    intro x k known
    obtain ⟨i, there, rfl, rfl⟩ := stat_eq_some.mp known
    by_cases same : i = j
    · subst same
      exact .inr (stat_eq_some.mpr ⟨i, there, Function.update_self .., rfl⟩)
    · exact .inl (stat_eq_some.mpr ⟨i, there, Function.update_of_ne same .., rfl⟩)

end PlatformConfig.CrashLinks
