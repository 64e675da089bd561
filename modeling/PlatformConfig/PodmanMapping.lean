import PlatformConfig.CanonicalJson
import PlatformConfig.RecordText

/-!
# The ID mapping of rootless Podman

The mapping that Podman reports is accepted in one pass over its sorted entries: they follow one another without a gap,
lie in the subordinate ranges of the user and do not overlap on the host. The entry of container ID 0 comes before the
pass.
-/
namespace PlatformConfig.PodmanMapping

open CanonicalJson
open RecordText (Text splitLines isDigits)

/-- `MIN_SUBORDINATE_IDS` -/
def minSubordinateIds : ℤ := 65536

/-- Start and count. -/
abbrev Range := ℤ × ℤ

def isBlank (c : Char) : Bool := c = ' ' || 9 ≤ c.toNat && c.toNat ≤ 13 || 28 ≤ c.toNat && c.toNat ≤ 31

def strip (t : Text) : Text := ((t.dropWhile isBlank).reverse.dropWhile isBlank).reverse

/-- One line of a file of subordinate IDs: no record of the user, a bad record, or a range. -/
def readRange (username path : String) (userId : ℕ) (line : Text) : Except String (Option Range) :=
  if strip line = [] || (strip line).head? = some '#' then .ok none
  else
    match (strip line).splitOn ':' with
    | name :: fields =>
      if !(name = username.toList || name = userId.repr.toList) then .ok none
      else
        match fields with
        | [start, count] =>
          if !(isDigits start && isDigits count) then
            .error s!"malformed subordinate-ID record for {username}: {path}"
          else if Nat.ofDigitChars 10 start 0 = 0 || Nat.ofDigitChars 10 count 0 = 0 then
            .error s!"invalid subordinate-ID record for {username}: {path}"
          else .ok (some (Nat.ofDigitChars 10 start 0, Nat.ofDigitChars 10 count 0))
        | _ => .error s!"malformed subordinate-ID record for {username}: {path}"
    | [] => .ok none

/-- `subordinate_ranges` of a file with ASCII text and numbers of at most 4300 digits. -/
def subordinateRanges (text : Text) (username path : String) (userId : ℕ) : Except String (List Range) := do
  let records ← (splitLines text).mapM (readRange username path userId)
  let ranges := records.reduceOption
  if ranges = [] then .error s!"no subordinate-ID range for {username}: {path}"
  else if ranges.all fun r => r.2 < minSubordinateIds then
    .error s!"subordinate-ID range for {username} is smaller than 65536: {path}"
  else .ok ranges

/-- An entry of a mapping. -/
structure Mapping where
  container : ℤ
  host : ℤ
  size : ℤ
deriving DecidableEq

/-- The order of tuples. -/
def Mapping.le (a b : Mapping) : Prop :=
  a.container < b.container ∨ a.container = b.container ∧ (a.host < b.host ∨ a.host = b.host ∧ a.size ≤ b.size)

instance : DecidableRel Mapping.le := fun _ _ => inferInstanceAs (Decidable (_ ∨ _))

/-- `entry.get(name, entry.get(other))` as an integer. -/
def idOf (entry : Json) (name other : String) : Option ℤ := ((entry.get? name).or (entry.get? other)).bind Json.int?

def readMapping (entry : Json) : Option Mapping := do
  let container ← idOf entry "container_id" "containerID"
  let host ← idOf entry "host_id" "hostID"
  let size ← (entry.get? "size").bind Json.int?
  if container < 0 ∨ host < 0 ∨ size ≤ 0 then none else some ⟨container, host, size⟩

def overlaps (m : Mapping) (interval : ℤ × ℤ) : Bool := m.host < interval.2 && interval.1 < m.host + m.size

def inRange (m : Mapping) (r : Range) : Bool := r.1 ≤ m.host && m.host + m.size ≤ r.1 + r.2

/-- The pass over the entries behind the first one, with the number of their IDs. -/
def scan (ranges : List Range) : ℤ → List (ℤ × ℤ) → ℤ → List Mapping → Option ℤ
  | _, _, count, [] => some count
  | cursor, intervals, count, m :: ms =>
    if m.container ≠ cursor then none
    else if !ranges.any (inRange m) then none
    else if intervals.any (overlaps m) then none
    else scan ranges (cursor + m.size) (intervals ++ [(m.host, m.host + m.size)]) (count + m.size) ms

/-- The entries of a mapping value, if each of them is well formed. -/
def mappings : Json → Option (List Mapping)
  | .arr entries => entries.mapM readMapping
  | _ => none

/-- `podman_mapping_valid` -/
def podmanMappingValid (value : Json) (currentId : ℤ) (ranges : List Range) : Bool :=
  match (mappings value).map fun ms => ms.insertionSort Mapping.le with
  | some (first :: rest) =>
    first = ⟨0, currentId, 1⟩ && (scan ranges 1 [] 0 rest).any (minSubordinateIds ≤ ·)
  | _ => false

/-! ## The map that a mapping induces -/

namespace Mapping

def Covers (m : Mapping) (c : ℤ) : Prop := m.container ≤ c ∧ c < m.container + m.size

instance (m : Mapping) (c : ℤ) : Decidable (m.Covers c) := inferInstanceAs (Decidable (_ ∧ _))

/-- The host ID of a container ID that the entry covers. -/
def hostOf (m : Mapping) (c : ℤ) : ℤ := m.host + (c - m.container)

def CoversHost (m : Mapping) (h : ℤ) : Prop := m.host ≤ h ∧ h < m.host + m.size

end Mapping

/-- The container ID `c` is the host ID `h`. -/
def Maps (ms : List Mapping) (c h : ℤ) : Prop := ∃ m ∈ ms, m.Covers c ∧ h = m.hostOf c

/-- A mapping of a user namespace without faults. -/
structure Sound (ms : List Mapping) (currentId : ℤ) (ranges : List Range) : Prop where
  covered : ∃ n, minSubordinateIds ≤ n ∧ ∀ c, (∃ h, Maps ms c h) ↔ 0 ≤ c ∧ c ≤ n
  disjoint : ms.Pairwise fun m m' => ∀ c, ¬(m.Covers c ∧ m'.Covers c)
  root : ∀ h, Maps ms 0 h ↔ h = currentId
  others : ∀ c h, 0 < c → Maps ms c h → ∃ r ∈ ranges, r.1 ≤ h ∧ h < r.1 + r.2
  injective : ∀ c c' h, Maps ms c h → Maps ms c' h → c = c'

/-- No entry but that of container ID 0 covers the current ID on the host. -/
def Apart (ms : List Mapping) (currentId : ℤ) : Prop := ∀ m ∈ ms, m.container ≠ 0 → ¬m.CoversHost currentId

/-! ## The pass -/

section Scan
variable {ranges : List Range} {cursor count total : ℤ} {intervals : List (ℤ × ℤ)} {m : Mapping} {ms : List Mapping}

/-- One step of the pass. -/
lemma scan_cons (h : scan ranges cursor intervals count (m :: ms) = some total) :
    m.container = cursor ∧ (∃ r ∈ ranges, inRange m r = true) ∧ (∀ i ∈ intervals, overlaps m i = false) ∧
      scan ranges (cursor + m.size) (intervals ++ [(m.host, m.host + m.size)]) (count + m.size) ms = some total := by
  rw [scan] at h
  split_ifs at h with at_ inside free
  refine ⟨not_not.mp at_, ?_, ?_, h⟩
  · simpa using inside
  · simpa using free

/-- What a pass has found of its entries. -/
structure Passed (ranges : List Range) (cursor : ℤ) (intervals : List (ℤ × ℤ)) (length : ℤ) (ms : List Mapping) :
    Prop where
  forward : 0 ≤ length
  covered : ∀ c, (∃ m ∈ ms, m.Covers c) ↔ cursor ≤ c ∧ c < cursor + length
  behind : ∀ m ∈ ms, cursor ≤ m.container
  disjoint : ms.Pairwise fun m m' => ∀ c, ¬(m.Covers c ∧ m'.Covers c)
  inside : ∀ m ∈ ms, ∃ r ∈ ranges, inRange m r = true
  free : ∀ m ∈ ms, ∀ i ∈ intervals, overlaps m i = false
  apart : ms.Pairwise fun m m' => ∀ h, ¬(m.CoversHost h ∧ m'.CoversHost h)

/-- The induction is on the entries; each adds its host interval to those that the later ones are compared with. -/
lemma scan_passed (positive : ∀ m ∈ ms, 0 < m.size) (h : scan ranges cursor intervals count ms = some total) :
    Passed ranges cursor intervals (total - count) ms := by
  induction ms generalizing cursor intervals count with
  | nil =>
    obtain rfl := Option.some.inj h
    exact ⟨by omega, fun c => by simp, by simp, .nil, by simp, by simp, .nil⟩
  | cons m ms ih =>
    obtain ⟨size, positive⟩ := List.forall_mem_cons.mp positive
    obtain ⟨at_, inside, free, rest⟩ := scan_cons h
    have later := ih positive rest
    have forward := later.forward
    refine ⟨by omega, fun c => ?_, ?_, ?_, ?_, ?_, ?_⟩
    · have tail := later.covered c
      rw [List.exists_mem_cons_iff, tail, Mapping.Covers]
      omega
    · refine List.forall_mem_cons.mpr ⟨le_of_eq at_.symm, fun m' mem => ?_⟩
      have := later.behind m' mem
      omega
    · refine List.pairwise_cons.mpr ⟨fun m' mem c both => ?_, later.disjoint⟩
      have := later.behind m' mem
      simp only [Mapping.Covers] at both
      omega
    · exact List.forall_mem_cons.mpr ⟨inside, later.inside⟩
    · refine List.forall_mem_cons.mpr ⟨free, fun m' mem i there => ?_⟩
      exact later.free m' mem i (List.mem_append_left _ there)
    · refine List.pairwise_cons.mpr ⟨fun m' mem x both => ?_, later.apart⟩
      have := later.free m' mem (m.host, m.host + m.size) (by simp)
      simp only [overlaps, Bool.and_eq_false_iff, decide_eq_false_iff_not] at this
      simp only [Mapping.CoversHost] at both
      omega

end Scan

/-! ## Accepted mappings -/

section Accepted
variable {value : Json} {currentId : ℤ} {ranges : List Range} {ms rest : List Mapping}

lemma readMapping_size {entry : Json} {m : Mapping} (read : readMapping entry = some m) : 0 < m.size := by
  obtain ⟨container, -, read⟩ := Option.bind_eq_some_iff.mp read
  obtain ⟨host, -, read⟩ := Option.bind_eq_some_iff.mp read
  obtain ⟨size, -, read⟩ := Option.bind_eq_some_iff.mp read
  split_ifs at read with bad
  obtain rfl := Option.some.inj read
  simp only [not_or] at bad
  exact not_le.mp bad.2.2

lemma mapM_all {α β : Type} {f : α → Option β} {P : β → Prop} (each : ∀ a b, f a = some b → P b) {xs : List α}
    {ys : List β} (read : xs.mapM f = some ys) : ∀ y ∈ ys, P y := by
  induction xs generalizing ys with
  | nil =>
    obtain rfl := Option.some.inj read
    simp
  | cons x xs ih =>
    rw [List.mapM_cons] at read
    obtain ⟨y, first, read⟩ := Option.bind_eq_some_iff.mp read
    obtain ⟨ys', others, read⟩ := Option.bind_eq_some_iff.mp read
    obtain rfl := Option.some.inj read
    exact List.forall_mem_cons.mpr ⟨each x y first, ih others⟩

lemma mappings_positive (read : mappings value = some ms) : ∀ m ∈ ms, 0 < m.size := by
  unfold mappings at read
  split at read
  · exact mapM_all (fun _ _ => readMapping_size) read
  · cases read

/-- What has been accepted: the entry of container ID 0, and others that have passed. -/
structure Accepted (ranges : List Range) (currentId : ℤ) (ms rest : List Mapping) : Prop where
  entries : ms.Perm (⟨0, currentId, 1⟩ :: rest)
  passed : ∃ total, minSubordinateIds ≤ total ∧ Passed ranges 1 [] total rest

lemma valid_accepted (valid : podmanMappingValid value currentId ranges = true) :
    ∃ ms rest, mappings value = some ms ∧ Accepted ranges currentId ms rest := by
  unfold podmanMappingValid at valid
  split at valid
  · next first rest sorted =>
    obtain ⟨ms, read, order⟩ := Option.map_eq_some_iff.mp sorted
    obtain ⟨root, counted⟩ := Bool.and_eq_true_iff.mp valid
    obtain ⟨total, found, enough⟩ := (Option.any_eq_true _ _).mp counted
    have same : ms.Perm (first :: rest) := order ▸ (List.perm_insertionSort Mapping.le ms).symm
    have positive : ∀ m ∈ rest, 0 < m.size := fun m mem =>
      mappings_positive read m (same.mem_iff.mpr (List.mem_cons_of_mem first mem))
    have passed := scan_passed positive found
    rw [sub_zero] at passed
    rw [of_decide_eq_true root] at same
    exact ⟨ms, rest, read, same, total, of_decide_eq_true enough, passed⟩
  · cases valid

lemma covers_root {c : ℤ} : (⟨0, currentId, 1⟩ : Mapping).Covers c ↔ c = 0 := by
  simp only [Mapping.Covers]
  omega

/-- A container ID is mapped by the first entry or by one of the others. -/
lemma Accepted.maps (h : Accepted ranges currentId ms rest) {c x : ℤ} :
    Maps ms c x ↔ c = 0 ∧ x = currentId ∨ Maps rest c x := by
  have entries : Maps ms c x ↔ Maps (⟨0, currentId, 1⟩ :: rest) c x := by
    simp only [Maps, h.entries.mem_iff]
  rw [entries, Maps, List.exists_mem_cons_iff, covers_root, Mapping.hostOf, ← Maps]
  refine or_congr (and_congr_right fun zero => ?_) Iff.rfl
  rw [zero, sub_zero, add_zero]

/-- The others map exactly the container IDs behind 0. -/
lemma Accepted.others (h : Accepted ranges currentId ms rest) :
    ∃ n, minSubordinateIds ≤ n ∧ ∀ c, (∃ x, Maps rest c x) ↔ 0 < c ∧ c ≤ n := by
  obtain ⟨total, enough, passed⟩ := h.passed
  refine ⟨total, enough, fun c => ?_⟩
  have mapped : (∃ x, Maps rest c x) ↔ ∃ m ∈ rest, m.Covers c := by
    constructor
    · rintro ⟨-, m, mem, covers, -⟩
      exact ⟨m, mem, covers⟩
    · rintro ⟨m, mem, covers⟩
      exact ⟨m.hostOf c, m, mem, covers, rfl⟩
  rw [mapped, passed.covered]
  omega

lemma Accepted.behind (h : Accepted ranges currentId ms rest) : ∀ m ∈ rest, 0 < m.container := by
  obtain ⟨total, -, passed⟩ := h.passed
  intro m mem
  have := passed.behind m mem
  omega

/-- Two container IDs behind 0 have different host IDs. -/
lemma Accepted.separate (h : Accepted ranges currentId ms rest) {c c' x : ℤ} (first : Maps rest c x)
    (second : Maps rest c' x) : c = c' := by
  obtain ⟨total, -, passed⟩ := h.passed
  obtain ⟨m, mem, covers, rfl⟩ := first
  obtain ⟨m', mem', covers', same⟩ := second
  simp only [Mapping.hostOf, Mapping.Covers] at same covers covers'
  by_cases one : m = m'
  · subst one
    omega
  · have symmetric : Std.Symm fun m m' : Mapping => ∀ x, ¬(m.CoversHost x ∧ m'.CoversHost x) :=
      ⟨fun _ _ apart x both => apart x ⟨both.2, both.1⟩⟩
    refine absurd ?_ (passed.apart.forall mem mem' one (m.hostOf c))
    simp only [Mapping.CoversHost, Mapping.hostOf]
    omega

/-- The current ID is not shared exactly when no other entry covers it. -/
lemma Accepted.apart (h : Accepted ranges currentId ms rest) : Apart ms currentId ↔ ∀ c, ¬Maps rest c currentId := by
  constructor
  · rintro apart c ⟨m, mem, covers, same⟩
    refine apart m (h.entries.mem_iff.mpr (List.mem_cons_of_mem _ mem)) (h.behind m mem).ne' ?_
    simp only [Mapping.hostOf, Mapping.Covers, Mapping.CoversHost] at same covers ⊢
    omega
  · intro free m mem other covers
    rcases List.mem_cons.mp (h.entries.mem_iff.mp mem) with rfl | inside
    · exact other rfl
    · refine free (m.container + (currentId - m.host)) ⟨m, inside, ?_, ?_⟩
      · simp only [Mapping.CoversHost, Mapping.Covers] at covers ⊢
        omega
      · simp only [Mapping.hostOf]
        omega

/-- An accepted mapping is sound but for the host ID of container ID 0, which another entry can cover. -/
theorem mapping_sound (valid : podmanMappingValid value currentId ranges = true) :
    ∃ ms, mappings value = some ms ∧ (Sound ms currentId ranges ↔ Apart ms currentId) := by
  obtain ⟨ms, rest, read, h⟩ := valid_accepted valid
  obtain ⟨n, enough, mapped⟩ := h.others
  refine ⟨ms, read, ?_⟩
  rw [h.apart]
  constructor
  · intro sound c shared
    have zero := sound.injective c 0 currentId (h.maps.mpr (.inr shared)) (h.maps.mpr (.inl ⟨rfl, rfl⟩))
    have positive := (mapped c).mp ⟨currentId, shared⟩
    omega
  · intro apart
    refine ⟨⟨n, enough, fun c => ?_⟩, ?_, fun x => ?_, fun c x positive maps => ?_, fun c c' x first second => ?_⟩
    · simp only [h.maps, exists_or, exists_and_left, exists_eq, and_true, mapped]
      have : (0 : ℤ) < minSubordinateIds := by decide
      omega
    · obtain ⟨total, -, passed⟩ := h.passed
      refine (h.entries.pairwise_iff fun apart c both => apart c ⟨both.2, both.1⟩).mpr ?_
      refine List.pairwise_cons.mpr ⟨fun m mem c both => ?_, passed.disjoint⟩
      obtain rfl := covers_root.mp both.1
      have := h.behind m mem
      simp only [Mapping.Covers] at both
      omega
    · rw [h.maps, or_iff_left, eq_self_iff_true, true_and]
      intro maps
      have := (mapped 0).mp ⟨x, maps⟩
      omega
    · rcases h.maps.mp maps with ⟨zero, -⟩ | ⟨m, mem, covers, rfl⟩
      · omega
      · obtain ⟨total, -, passed⟩ := h.passed
        obtain ⟨r, there, inside⟩ := passed.inside m mem
        simp only [inRange, Bool.and_eq_true, decide_eq_true_eq, Mapping.Covers] at inside covers
        refine ⟨r, there, ?_⟩
        simp only [Mapping.hostOf]
        omega
    · rcases h.maps.mp first with ⟨rfl, rfl⟩ | first
      · rcases h.maps.mp second with ⟨rfl, -⟩ | second
        · rfl
        · exact absurd second (apart c')
      · rcases h.maps.mp second with ⟨rfl, rfl⟩ | second
        · exact absurd first (apart c)
        · exact h.separate first second

end Accepted

/-- A mapping of the user with ID 1000 on one range of subordinate IDs. -/
def mappingOf (start : ℤ) : Json := .arr [
  .obj [("container_id", .int 0), ("host_id", .int 1000), ("size", .int 1)],
  .obj [("container_id", .int 1), ("host_id", .int start), ("size", .int 65536)]]

theorem usual_mapping_sound : ∃ ms, mappings (mappingOf 100000) = some ms ∧
    (Sound ms 1000 [(100000, 65536)] ↔ Apart ms 1000) := mapping_sound (by decide +kernel)

/-- The range begins with the ID of the user, and container IDs 0 and 1 are the same user on the host. -/
theorem current_id_shared :
    (subordinateRanges "alice:1000:65536\n".toList "alice" "/etc/subuid" 1000).toOption = some [(1000, 65536)] ∧
      podmanMappingValid (mappingOf 1000) 1000 [(1000, 65536)] = true ∧
        ∃ ms, mappings (mappingOf 1000) = some ms ∧ ¬Sound ms 1000 [(1000, 65536)] := by
  refine ⟨by decide +kernel, by decide +kernel, [⟨0, 1000, 1⟩, ⟨1, 1000, 65536⟩], by decide +kernel, fun sound => ?_⟩
  have first : Maps [⟨0, 1000, 1⟩, ⟨1, 1000, 65536⟩] 0 1000 := ⟨⟨0, 1000, 1⟩, by simp, by decide, rfl⟩
  have second : Maps [⟨0, 1000, 1⟩, ⟨1, 1000, 65536⟩] 1 1000 := ⟨⟨1, 1000, 65536⟩, by simp, by decide, rfl⟩
  exact absurd (sound.injective 0 1 1000 first second) (by decide)

end PlatformConfig.PodmanMapping
