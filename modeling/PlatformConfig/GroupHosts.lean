import PlatformConfig.CanonicalJson
import PlatformConfig.OperationSummary

/-!
# The hosts of a group

`group_hosts` expands a group of an inventory along its children. The set of groups that it keeps
is the path to the current group, not all the groups that it has seen; the expansion still ends,
and it fails exactly where a reachable group is malformed or lies on a cycle.
-/
namespace PlatformConfig.GroupHosts

open CanonicalJson Operation

abbrev Inventory := List (String × Json)

/-- A list under a key of a mapping, which may be missing but not of another type. -/
def listField (value : List (String × Json)) (key : String) : Option (List Json) :=
  match value.lookup key with
  | none => some []
  | some (.arr xs) => some xs
  | some _ => none

/-- `safe_text` of any value -/
def textOf (value : Json) (maximum : ℕ) : Option String := value.str?.filter (safeText · maximum)

/-- The groups that a path can still enter. -/
def unvisited (inventory : Inventory) (visiting : List String) : List String :=
  (inventory.map Prod.fst).filter (· ∉ visiting)

lemma mem_keys_of_lookup {inventory : Inventory} {name : String} {value : Json}
    (h : inventory.lookup name = some value) : name ∈ inventory.map Prod.fst := by
  induction inventory with
  | nil => cases h
  | cons entry rest ih =>
    rw [List.lookup_cons] at h
    split at h
    next same => simp [eq_of_beq same]
    next => exact List.mem_cons_of_mem _ (ih h)

/-- A group that is entered leaves fewer groups to enter. -/
lemma unvisited_lt {inventory : Inventory} {visiting : List String} {name : String} {value : Json}
    (fresh : name ∉ visiting) (h : inventory.lookup name = some value) :
    (unvisited inventory (name :: visiting)).length < (unvisited inventory visiting).length := by
  have narrower : unvisited inventory (name :: visiting) =
      (unvisited inventory visiting).filter (· ≠ name) := by
    simp [unvisited, List.filter_filter]
  rw [narrower]
  apply List.length_filter_lt_length_iff_exists.mpr
  exact ⟨name, by simp [unvisited, fresh, mem_keys_of_lookup h], by simp⟩

section Visit
variable (address : String → Bool) (inventory : Inventory)

/-- `safe_host` of any value -/
def hostOf (value : Json) : Option String := value.str?.filter (safeHost address)

/-- `visit`, with the groups of the path that leads to the name. -/
def visit (visiting : List String) (name : String) (found : Finset String) : Option (Finset String) :=
  if name ∈ visiting then none
  else
    match _mapped : inventory.lookup name with
    | some (.obj value) =>
      match listField value "hosts", listField value "children" with
      | some hosts, some children => do
        let found ← hosts.foldlM (fun found host => (hostOf address host).map (insert · found)) found
        children.foldlM (fun found child => do visit (name :: visiting) (← textOf child 255) found) found
      | _, _ => none
    | _ => some found
termination_by (unvisited inventory visiting).length
decreasing_by exact unvisited_lt ‹_› _mapped

/-- `group_hosts` -/
def groupHosts (group : String) : Option (Finset String) := visit address inventory [] group ∅

/-! ## What a group says -/

/-- A group with a mapping whose lists or names are not what they must be. -/
def Malformed (name : String) : Prop :=
  ∃ value, inventory.lookup name = some (.obj value) ∧
    ¬∃ hosts children, listField value "hosts" = some hosts ∧ listField value "children" = some children ∧
      (∀ host ∈ hosts, (hostOf address host).isSome) ∧ ∀ child ∈ children, (textOf child 255).isSome

def Child (name child : String) : Prop :=
  ∃ value children entry, inventory.lookup name = some (.obj value) ∧
    listField value "children" = some children ∧ entry ∈ children ∧ textOf entry 255 = some child

def Lists (name host : String) : Prop :=
  ∃ value hosts entry, inventory.lookup name = some (.obj value) ∧
    listField value "hosts" = some hosts ∧ entry ∈ hosts ∧ hostOf address entry = some host

end Visit

section Fold
variable {α : Type} {step : Finset String → α → Option (Finset String)}

/-- A run of steps that each collect what their own item stands for. -/
lemma foldlM_collects {P : α → Prop} {Q : α → String → Prop}
    (each : ∀ found x r, step found x = some r → P x ∧ ∀ h, h ∈ r ↔ h ∈ found ∨ Q x h)
    {xs : List α} {found r : Finset String} (ran : xs.foldlM step found = some r) :
    (∀ x ∈ xs, P x) ∧ ∀ h, h ∈ r ↔ h ∈ found ∨ ∃ x ∈ xs, Q x h := by
  induction xs generalizing found with
  | nil =>
    cases ran
    simp
  | cons x xs ih =>
    obtain ⟨next, first, rest⟩ := Option.bind_eq_some_iff.mp ran
    obtain ⟨holds, adds⟩ := each found x next first
    obtain ⟨all, collects⟩ := ih rest
    refine ⟨List.forall_mem_cons.mpr ⟨holds, all⟩, fun h => ?_⟩
    simp [collects, adds, or_assoc]

lemma foldlM_fails {xs : List α} {found : Finset String} (failed : xs.foldlM step found = none) :
    ∃ x ∈ xs, ∃ found, step found x = none := by
  induction xs generalizing found with
  | nil => cases failed
  | cons x xs ih =>
    cases first : step found x with
    | none => exact ⟨x, by simp, found, first⟩
    | some next =>
      rw [List.foldlM_cons, first] at failed
      obtain ⟨y, mem, fails⟩ := ih failed
      exact ⟨y, List.mem_cons_of_mem _ mem, fails⟩

end Fold

variable {address : String → Bool} {inventory : Inventory}

abbrev Reaches (inventory : Inventory) : String → String → Prop := Relation.ReflTransGen (Child inventory)

def OnCycle (inventory : Inventory) (name : String) : Prop := Relation.TransGen (Child inventory) name name

/-- What a completed visit of a name has shown: the groups behind it are in order, off the path and
on no cycle, and exactly their hosts are new. -/
structure Visited (address : String → Bool) (inventory : Inventory) (visiting : List String)
    (name : String) (found r : Finset String) : Prop where
  off : ∀ g, Reaches inventory name g → g ∉ visiting
  sound : ∀ g, Reaches inventory name g → ¬Malformed address inventory g ∧ ¬OnCycle inventory g
  hosts : ∀ h, h ∈ r ↔ h ∈ found ∨ ∃ g, Reaches inventory name g ∧ Lists address inventory g h

/-- A name without children reaches only itself. -/
lemma reaches_leaf {name g : String} (leaf : ∀ c, ¬Child inventory name c)
    (reach : Reaches inventory name g) : g = name := by
  cases reach.cases_head with
  | inl same => exact same.symm
  | inr step =>
    obtain ⟨c, child, -⟩ := step
    exact absurd child (leaf c)

lemma unmapped_child {name c : String} (unmapped : ∀ value, inventory.lookup name ≠ some (.obj value)) :
    ¬Child inventory name c := by
  rintro ⟨value, -, -, mapped, -⟩
  exact unmapped value mapped

/-- A name that is no group adds nothing. -/
lemma visited_unmapped {visiting : List String} {name : String} {found : Finset String}
    (fresh : name ∉ visiting) (unmapped : ∀ value, inventory.lookup name ≠ some (.obj value)) :
    Visited address inventory visiting name found found := by
  have leaf : ∀ g, Reaches inventory name g → g = name :=
    fun g => reaches_leaf fun _ => unmapped_child unmapped
  refine ⟨fun g reach => leaf g reach ▸ fresh, fun g reach => ?_, fun h => ?_⟩
  · obtain rfl := leaf g reach
    refine ⟨fun bad => ?_, fun cycle => ?_⟩
    · obtain ⟨value, mapped, -⟩ := bad
      exact unmapped value mapped
    · obtain ⟨c, child, -⟩ := Relation.TransGen.head'_iff.mp cycle
      exact unmapped_child unmapped child
  · refine ⟨.inl, fun member => member.resolve_right fun listed => ?_⟩
    obtain ⟨g, reach, value, -, -, mapped, -⟩ := listed
    exact unmapped value (leaf g reach ▸ mapped)

section Mapped
variable {visiting : List String} {name : String} {value : List (String × Json)}
  {hosts children : List Json} (mapped : inventory.lookup name = some (.obj value))
  (hostList : listField value "hosts" = some hosts) (childList : listField value "children" = some children)

include mapped childList in
lemma child_iff {c : String} : Child inventory name c ↔ ∃ entry ∈ children, textOf entry 255 = some c := by
  constructor
  · intro child
    obtain ⟨value', children', entry, mapped', list, mem, text⟩ := child
    obtain rfl : value = value' := by simpa [mapped] using mapped'
    obtain rfl : children = children' := by simpa [childList] using list
    exact ⟨entry, mem, text⟩
  · intro listed
    obtain ⟨entry, mem, text⟩ := listed
    exact ⟨value, children, entry, mapped, childList, mem, text⟩

include mapped hostList in
lemma lists_iff {h : String} : Lists address inventory name h ↔ ∃ entry ∈ hosts, hostOf address entry = some h := by
  constructor
  · intro lists
    obtain ⟨value', hosts', entry, mapped', list, mem, text⟩ := lists
    obtain rfl : value = value' := by simpa [mapped] using mapped'
    obtain rfl : hosts = hosts' := by simpa [hostList] using list
    exact ⟨entry, mem, text⟩
  · intro listed
    obtain ⟨entry, mem, text⟩ := listed
    exact ⟨value, hosts, entry, mapped, hostList, mem, text⟩

include mapped hostList childList

lemma malformed_iff : Malformed address inventory name ↔
    (∃ host ∈ hosts, hostOf address host = none) ∨ ∃ child ∈ children, textOf child 255 = none := by
  have lists : Malformed address inventory name ↔
      ¬((∀ host ∈ hosts, (hostOf address host).isSome) ∧ ∀ child ∈ children, (textOf child 255).isSome) := by
    simp [Malformed, mapped, hostList, childList]
  rw [lists, not_and_or]
  simp

/-- A mapped group behind which every child's visit has gone well. -/
lemma visited_mapped {found own r : Finset String} (fresh : name ∉ visiting)
    (names : ∀ host ∈ hosts, (hostOf address host).isSome)
    (listed : ∀ h, h ∈ own ↔ h ∈ found ∨ ∃ host ∈ hosts, hostOf address host = some h)
    (visits : ∀ child ∈ children, ∃ c, textOf child 255 = some c ∧
      (∀ g, Reaches inventory c g → g ∉ name :: visiting) ∧
      ∀ g, Reaches inventory c g → ¬Malformed address inventory g ∧ ¬OnCycle inventory g)
    (collected : ∀ h, h ∈ r ↔ h ∈ own ∨ ∃ child ∈ children, ∃ c, textOf child 255 = some c ∧
      ∃ g, Reaches inventory c g ∧ Lists address inventory g h) :
    Visited address inventory visiting name found r := by
  have behind : ∀ {c}, Child inventory name c →
      (∀ g, Reaches inventory c g → g ∉ name :: visiting) ∧
      ∀ g, Reaches inventory c g → ¬Malformed address inventory g ∧ ¬OnCycle inventory g := by
    intro c child
    obtain ⟨entry, mem, text⟩ := (child_iff mapped childList).mp child
    obtain ⟨c', text', off, sound⟩ := visits entry mem
    obtain rfl : c = c' := by simpa [text] using text'
    exact ⟨off, sound⟩
  refine ⟨fun g reach => ?_, fun g reach => ?_, fun h => ?_⟩
  · rcases reach.cases_head with rfl | ⟨c, child, rest⟩
    · exact fresh
    · exact fun mem => (behind child).1 g rest (List.mem_cons_of_mem _ mem)
  · rcases reach.cases_head with rfl | ⟨c, child, rest⟩
    · refine ⟨fun bad => ?_, fun cycle => ?_⟩
      · rcases (malformed_iff mapped hostList childList).mp bad with ⟨host, mem, none_⟩ | ⟨entry, mem, none_⟩
        · simpa [none_] using names host mem
        · obtain ⟨c, text, -⟩ := visits entry mem
          rw [none_] at text
          cases text
      · -- a cycle would come back to the name from one of its children
        obtain ⟨c, child, rest⟩ := Relation.TransGen.head'_iff.mp cycle
        exact (behind child).1 name rest List.mem_cons_self
    · exact (behind child).2 g rest
  · rw [collected, listed, or_assoc]
    apply or_congr_right
    constructor
    · intro found
      rcases found with own | ⟨entry, mem, c, text, g, reach, lists⟩
      · exact ⟨name, .refl, (lists_iff mapped hostList).mpr own⟩
      · have child := (child_iff mapped childList).mpr ⟨entry, mem, text⟩
        exact ⟨g, .head child reach, lists⟩
    · intro found
      obtain ⟨g, reach, lists⟩ := found
      rcases reach.cases_head with rfl | ⟨c, child, rest⟩
      · exact .inl ((lists_iff mapped hostList).mp lists)
      · obtain ⟨entry, mem, text⟩ := (child_iff mapped childList).mp child
        exact .inr ⟨entry, mem, c, text, g, rest, lists⟩

end Mapped

theorem visit_some {visiting : List String} {name : String} {found r : Finset String}
    (ran : visit address inventory visiting name found = some r) :
    Visited address inventory visiting name found r := by
  fun_induction visit generalizing r with
  | case1 | case3 => cases ran
  | case4 visiting name found fresh unmapped =>
    cases ran
    exact visited_unmapped fresh unmapped
  | case2 visiting name found fresh value mapped hosts children childList hostList ih =>
    obtain ⟨own, listed, ran⟩ := Option.bind_eq_some_iff.mp ran
    obtain ⟨names, own_iff⟩ := foldlM_collects (P := fun host => (hostOf address host).isSome)
      (Q := fun host h => hostOf address host = some h) (fun found host r step => by
        obtain ⟨h, named, rfl⟩ := Option.map_eq_some_iff.mp step
        simp [named, or_comm, eq_comm]) listed
    obtain ⟨visits, collected⟩ := foldlM_collects (P := fun child => ∃ c, textOf child 255 = some c ∧
        (∀ g, Reaches inventory c g → g ∉ name :: visiting) ∧
        ∀ g, Reaches inventory c g → ¬Malformed address inventory g ∧ ¬OnCycle inventory g)
      (Q := fun child h => ∃ c, textOf child 255 = some c ∧
        ∃ g, Reaches inventory c g ∧ Lists address inventory g h) (fun found child r step => by
        obtain ⟨c, text, step⟩ := Option.bind_eq_some_iff.mp step
        obtain ⟨off, sound, adds⟩ := ih found c step
        exact ⟨⟨c, text, off, sound⟩, fun h => by simp [adds, text]⟩) ran
    exact visited_mapped mapped hostList childList fresh names own_iff visits collected

/-- A visit that fails has come to a group that is malformed, on its path or on a cycle. -/
theorem visit_none {visiting : List String} {name : String} {found : Finset String}
    (failed : visit address inventory visiting name found = none) :
    ∃ g, Reaches inventory name g ∧ (Malformed address inventory g ∨ OnCycle inventory g ∨ g ∈ visiting) := by
  fun_induction visit with
  | case1 visiting name found again => exact ⟨name, .refl, .inr (.inr again)⟩
  | case4 => cases failed
  | case3 visiting name found fresh value mapped shape =>
    refine ⟨name, .refl, .inl ⟨value, mapped, fun formed => ?_⟩⟩
    obtain ⟨hosts, children, hostList, childList, -⟩ := formed
    exact shape hosts children hostList childList
  | case2 visiting name found fresh value mapped hosts children childList hostList ih =>
    cases listed : hosts.foldlM (fun found host => (hostOf address host).map (insert · found)) found with
    | none =>
      obtain ⟨host, mem, found, step⟩ := foldlM_fails listed
      have bad := Option.map_eq_none_iff.mp step
      exact ⟨name, .refl, .inl ((malformed_iff mapped hostList childList).mpr (.inl ⟨host, mem, bad⟩))⟩
    | some own =>
      rw [listed] at failed
      obtain ⟨entry, mem, found, step⟩ := foldlM_fails failed
      cases text : textOf entry 255 with
      | none =>
        exact ⟨name, .refl, .inl ((malformed_iff mapped hostList childList).mpr (.inr ⟨entry, mem, text⟩))⟩
      | some c =>
        have child := (child_iff mapped childList).mpr ⟨entry, mem, text⟩
        rw [text] at step
        obtain ⟨g, reach, bad | cycle | again⟩ := ih found c step
        · exact ⟨g, .head child reach, .inl bad⟩
        · exact ⟨g, .head child reach, .inr (.inl cycle)⟩
        · rcases List.mem_cons.mp again with rfl | before
          · exact ⟨g, .refl, .inr (.inl (.head' child reach))⟩
          · exact ⟨g, .head child reach, .inr (.inr before)⟩

/-- The expansion of a group: it fails exactly where a reachable group is malformed or lies on a
cycle, and otherwise gives exactly the hosts that the reachable groups list. -/
theorem group_hosts_exact (address : String → Bool) (inventory : Inventory) (group : String) :
    (groupHosts address inventory group = none ↔
      ∃ g, Reaches inventory group g ∧ (Malformed address inventory g ∨ OnCycle inventory g)) ∧
    ∀ hosts, groupHosts address inventory group = some hosts →
      ∀ h, h ∈ hosts ↔ ∃ g, Reaches inventory group g ∧ Lists address inventory g h := by
  refine ⟨⟨fun failed => ?_, fun bad => ?_⟩, fun hosts expanded h => ?_⟩
  · obtain ⟨g, reach, bad | cycle | path⟩ := visit_none failed
    · exact ⟨g, reach, .inl bad⟩
    · exact ⟨g, reach, .inr cycle⟩
    · cases path
  · obtain ⟨g, reach, bad⟩ := bad
    cases expanded : groupHosts address inventory group with
    | none => rfl
    | some hosts =>
      obtain ⟨formed, acyclic⟩ := (visit_some expanded).sound g reach
      exact (bad.elim formed acyclic).elim
  · rw [(visit_some expanded).hosts]
    simp

end PlatformConfig.GroupHosts
