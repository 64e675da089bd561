import Mathlib

/-!
# Directory trees

A directory holds named files, symbolic links, special files and directories. The leaves and the
folders of a tree are listed with their paths; a path names at most one of them, its text determines
it, and a change of mode touches nothing else. Text is held in UTF-8.
-/
namespace PlatformConfig.FileTree

/-! ## Names and paths -/

/-- A name of a directory entry. -/
structure Name where
  text : List Char
  nonempty : text ≠ []
  single : '/' ∉ text
  clean : Char.ofNat 0 ∉ text
  proper : text ≠ ['.'] ∧ text ≠ ['.', '.']
  deriving DecidableEq

abbrev Path := List Name

/-- The parts of a path as text. -/
def parts (p : Path) : List (List Char) := p.map Name.text

def posixText (p : Path) : List Char := ['/'].intercalate (parts p)

/-- The path as text, relative to the root of the tree. -/
def posix (p : Path) : String := String.ofList (posixText p)

theorem text_injective : Function.Injective Name.text := by
  intro a b same
  cases a
  cases b
  cases same
  rfl

theorem parts_injective : Function.Injective parts := List.map_injective_iff.mpr text_injective

theorem splitOn_posixText {p : Path} (below : p ≠ []) : (posixText p).splitOn '/' = parts p := by
  apply List.splitOn_intercalate
  · intro part member
    obtain ⟨name, _, rfl⟩ := List.mem_map.mp member
    exact name.single
  · simpa [parts] using below

theorem posixText_inj {p q : Path} (below : p ≠ []) (below' : q ≠ []) (same : posixText p = posixText q) :
    p = q := by
  apply parts_injective
  rw [← splitOn_posixText below, ← splitOn_posixText below', same]

theorem posix_inj {p q : Path} (below : p ≠ []) (below' : q ≠ []) (same : posix p = posix q) : p = q :=
  posixText_inj below below' (String.ofList_injective same)

theorem mem_intercalate {x c : Char} {ls : List (List Char)} (h : c ∈ [x].intercalate ls) :
    c = x ∨ ∃ l ∈ ls, c ∈ l := by
  induction ls with
  | nil => simp [List.intercalate] at h
  | cons l ls ih =>
    cases ls with
    | nil => exact Or.inr ⟨l, by simp, by simpa using h⟩
    | cons l' ls =>
      rw [List.intercalate_cons_cons, List.append_assoc] at h
      rcases List.mem_append.mp h with first | rest
      · exact Or.inr ⟨l, by simp, first⟩
      · rcases List.mem_cons.mp rest with same | rest
        · exact Or.inl same
        · rcases ih rest with same | ⟨l'', inside, found⟩
          · exact Or.inl same
          · exact Or.inr ⟨l'', List.mem_cons_of_mem l inside, found⟩

theorem posixText_clean (p : Path) : Char.ofNat 0 ∉ posixText p := by
  intro member
  rcases mem_intercalate member with slash | ⟨part, inside, found⟩
  · exact absurd slash (by decide)
  · obtain ⟨name, _, rfl⟩ := List.mem_map.mp inside
    exact name.clean found

theorem posixText_ne_nil {p : Path} (below : p ≠ []) : posixText p ≠ [] := by
  intro empty
  have split := splitOn_posixText below
  rw [empty] at split
  obtain ⟨name, rest, rfl⟩ := List.exists_cons_of_ne_nil below
  have first : name.text = [] := by simpa [parts] using (congrArg List.head? split).symm
  exact name.nonempty first

theorem posixText_head {p : Path} (below : p ≠ []) : (posixText p).head? ≠ some '/' := by
  obtain ⟨name, rest, rfl⟩ := List.exists_cons_of_ne_nil below
  obtain ⟨c, t, text⟩ := List.exists_cons_of_ne_nil name.nonempty
  have solid : c ≠ '/' := by
    intro slash
    exact name.single (by simp [text, slash])
  cases rest with
  | nil => simpa [posixText, parts, text] using solid
  | cons other rest => simpa [posixText, parts, text, List.intercalate_cons_cons] using solid

/-! ## Nodes -/

/-- A node with its permission bits. A file that is not `readable` and a folder that does not `open`
refuse the process. A link whose target is not text has none here. -/
inductive Node
  | file (mode : ℕ) (readable : Bool) (content : List UInt8)
  | link (target : Option String)
  | special
  | folder (mode : ℕ) (opens : Bool) (children : List (Name × Node))

namespace Node

mutual

/-- Everything but folders, with its path. -/
def leaves (at_ : Path) : Node → List (Path × Node)
  | folder _ _ children => leavesIn at_ children
  | file mode readable content => [(at_, file mode readable content)]
  | link target => [(at_, link target)]
  | special => [(at_, special)]

def leavesIn (at_ : Path) : List (Name × Node) → List (Path × Node)
  | [] => []
  | (name, n) :: children => leaves (at_ ++ [name]) n ++ leavesIn at_ children

end

mutual

/-- The folders with their paths, modes and whether they open. -/
def folders (at_ : Path) : Node → List (Path × ℕ × Bool)
  | folder mode opens children => (at_, mode, opens) :: foldersIn at_ children
  | _ => []

def foldersIn (at_ : Path) : List (Name × Node) → List (Path × ℕ × Bool)
  | [] => []
  | (name, n) :: children => folders (at_ ++ [name]) n ++ foldersIn at_ children

end

mutual

def size : Node → ℕ
  | folder _ _ children => 1 + sizeIn children
  | _ => 1

def sizeIn : List (Name × Node) → ℕ
  | [] => 0
  | (_, n) :: children => size n + sizeIn children

end

mutual

/-- No folder has a name twice. -/
def WellFormed : Node → Prop
  | folder _ _ children => (children.map Prod.fst).Nodup ∧ WellFormedIn children
  | _ => True

def WellFormedIn : List (Name × Node) → Prop
  | [] => True
  | (_, n) :: children => WellFormed n ∧ WellFormedIn children

end

def isFolder : Node → Bool
  | folder .. => true
  | _ => false

theorem leavesIn_eq (at_ : Path) (children : List (Name × Node)) :
    leavesIn at_ children = children.flatMap fun c => leaves (at_ ++ [c.1]) c.2 := by
  induction children with
  | nil => rfl
  | cons c children ih => rw [leavesIn, ih, List.flatMap_cons]

theorem foldersIn_eq (at_ : Path) (children : List (Name × Node)) :
    foldersIn at_ children = children.flatMap fun c => folders (at_ ++ [c.1]) c.2 := by
  induction children with
  | nil => rfl
  | cons c children ih => rw [foldersIn, ih, List.flatMap_cons]

theorem wellFormedIn_iff (children : List (Name × Node)) :
    WellFormedIn children ↔ ∀ c ∈ children, c.2.WellFormed := by
  induction children with
  | nil => simp [WellFormedIn]
  | cons c children ih => rw [WellFormedIn, ih, List.forall_mem_cons]

mutual

/-- A leaf lies behind the path of its tree. -/
theorem leaves_below : ∀ (n : Node) (at_ : Path), ∀ x ∈ leaves at_ n, ∃ q, x.1 = at_ ++ q
  | folder _ _ children, at_, x, member => by
    obtain ⟨name, q, _, same⟩ := leavesIn_below children at_ x member
    exact ⟨name :: q, by simpa using same⟩
  | file .., at_, x, member => ⟨[], by simp_all [leaves]⟩
  | link _, at_, x, member => ⟨[], by simp_all [leaves]⟩
  | special, at_, x, member => ⟨[], by simp_all [leaves]⟩

theorem leavesIn_below : ∀ (children : List (Name × Node)) (at_ : Path), ∀ x ∈ leavesIn at_ children,
    ∃ name q, name ∈ children.map Prod.fst ∧ x.1 = at_ ++ [name] ++ q
  | [], _, x, member => by simp [leavesIn] at member
  | (name, n) :: children, at_, x, member => by
    rcases List.mem_append.mp member with first | rest
    · obtain ⟨q, same⟩ := leaves_below n (at_ ++ [name]) x first
      exact ⟨name, q, by simp, same⟩
    · obtain ⟨name', q, inside, same⟩ := leavesIn_below children at_ x rest
      exact ⟨name', q, by simp [inside], same⟩

end

mutual

/-- The paths of the leaves differ. -/
theorem leaves_nodup : ∀ (n : Node) (at_ : Path), WellFormed n → ((leaves at_ n).map Prod.fst).Nodup
  | folder _ _ children, at_, good => leavesIn_nodup children at_ good.1 good.2
  | file .., at_, _ => by simp [leaves]
  | link _, at_, _ => by simp [leaves]
  | special, at_, _ => by simp [leaves]

theorem leavesIn_nodup : ∀ (children : List (Name × Node)) (at_ : Path),
    (children.map Prod.fst).Nodup → WellFormedIn children → ((leavesIn at_ children).map Prod.fst).Nodup
  | [], at_, _, _ => by simp [leavesIn]
  | (name, n) :: children, at_, distinct, good => by
    obtain ⟨fresh, distinct⟩ := List.nodup_cons.mp distinct
    rw [leavesIn, List.map_append, List.nodup_append]
    refine ⟨leaves_nodup n _ good.1, leavesIn_nodup children at_ distinct good.2, ?_⟩
    intro p first q rest same
    obtain ⟨x, member, rfl⟩ := List.mem_map.mp first
    obtain ⟨y, member', rfl⟩ := List.mem_map.mp rest
    obtain ⟨r, left⟩ := leaves_below n (at_ ++ [name]) x member
    obtain ⟨name', r', inside, right⟩ := leavesIn_below children at_ y member'
    rw [left, right, List.append_assoc, List.append_assoc] at same
    obtain ⟨rfl, -⟩ := List.cons.inj (List.append_cancel_left same)
    exact fresh inside

end

/-! ## Modes -/

/-- The node at a path gets new permission bits; a link keeps its own. -/
def chmod (mode : ℕ) : Path → Node → Node
  | [], file _ readable content => file mode readable content
  | [], folder _ opens children => folder mode opens children
  | name :: p, folder k opens children =>
    folder k opens (children.map fun c => if c.1 = name then (c.1, chmod mode p c.2) else c)
  | _, n => n

def setMode (mode : ℕ) : Node → Node
  | file _ readable content => file mode readable content
  | n => n

/-- The leaf at a path gets new permission bits. -/
def retouch (mode : ℕ) (p : Path) (x : Path × Node) : Path × Node :=
  if x.1 = p then (x.1, x.2.setMode mode) else x

def refolder (mode : ℕ) (p : Path) (x : Path × ℕ × Bool) : Path × ℕ × Bool :=
  if x.1 = p then (x.1, mode, x.2.2) else x

/-- What lies elsewhere keeps its mode. -/
theorem map_retouch {mode : ℕ} {p : Path} {xs : List (Path × Node)} (other : ∀ x ∈ xs, x.1 ≠ p) :
    xs.map (retouch mode p) = xs := by
  rw [List.map_congr_left (g := id), List.map_id]
  intro x member
  simp [retouch, other x member]

theorem leaves_chmod (mode : ℕ) (p : Path) (n : Node) (at_ : Path) :
    leaves at_ (chmod mode p n) = (leaves at_ n).map (retouch mode (at_ ++ p)) := by
  induction p generalizing n at_ with
  | nil =>
    cases n with
    | folder k opens children =>
      have other : ∀ x ∈ leavesIn at_ children, x.1 ≠ at_ ++ [] := by
        intro x member
        obtain ⟨name, q, _, same⟩ := leavesIn_below children at_ x member
        simp [same]
      simp only [chmod, leaves]
      exact (map_retouch other).symm
    | _ => simp [chmod, leaves, retouch, setMode]
  | cons name p ih =>
    cases n with
    | folder k opens children =>
      simp only [chmod, leaves, leavesIn_eq, List.flatMap_map, List.map_flatMap]
      apply List.flatMap_congr
      intro c _
      by_cases own : c.1 = name
      · subst own
        rw [if_pos rfl, ih, List.append_assoc]
        rfl
      · have other : ∀ x ∈ leaves (at_ ++ [c.1]) c.2, x.1 ≠ at_ ++ name :: p := by
          intro x member same
          obtain ⟨q, below⟩ := leaves_below c.2 _ x member
          rw [below, List.append_assoc] at same
          exact own (List.cons.inj (List.append_cancel_left same)).1
        rw [if_neg own, map_retouch other]
    | _ => simp [chmod, leaves, retouch]

mutual

theorem folders_below : ∀ (n : Node) (at_ : Path), ∀ x ∈ folders at_ n, ∃ q, x.1 = at_ ++ q
  | folder _ _ children, at_, x, member => by
    rcases List.mem_cons.mp member with rfl | inside
    · exact ⟨[], by simp⟩
    · obtain ⟨name, q, _, same⟩ := foldersIn_below children at_ x inside
      exact ⟨name :: q, by simpa using same⟩
  | file .., _, _, member | link _, _, _, member | special, _, _, member => by simp [folders] at member

theorem foldersIn_below : ∀ (children : List (Name × Node)) (at_ : Path), ∀ x ∈ foldersIn at_ children,
    ∃ name q, name ∈ children.map Prod.fst ∧ x.1 = at_ ++ [name] ++ q
  | [], _, x, member => by simp [foldersIn] at member
  | (name, n) :: children, at_, x, member => by
    rcases List.mem_append.mp member with first | rest
    · obtain ⟨q, same⟩ := folders_below n (at_ ++ [name]) x first
      exact ⟨name, q, by simp, same⟩
    · obtain ⟨name', q, inside, same⟩ := foldersIn_below children at_ x rest
      exact ⟨name', q, by simp [inside], same⟩

end

theorem map_refolder {mode : ℕ} {p : Path} {xs : List (Path × ℕ × Bool)} (other : ∀ x ∈ xs, x.1 ≠ p) :
    xs.map (refolder mode p) = xs := by
  rw [List.map_congr_left (g := id), List.map_id]
  intro x member
  simp [refolder, other x member]

theorem folders_chmod (mode : ℕ) (p : Path) (n : Node) (at_ : Path) :
    folders at_ (chmod mode p n) = (folders at_ n).map (refolder mode (at_ ++ p)) := by
  induction p generalizing n at_ with
  | nil =>
    cases n with
    | folder k opens children =>
      have other : ∀ x ∈ foldersIn at_ children, x.1 ≠ at_ ++ [] := by
        intro x member
        obtain ⟨name, q, _, same⟩ := foldersIn_below children at_ x member
        simp [same]
      simp only [chmod, folders, List.map_cons, map_refolder other]
      simp [refolder]
    | _ => simp [chmod, folders]
  | cons name p ih =>
    cases n with
    | folder k opens children =>
      simp only [chmod, folders, foldersIn_eq, List.flatMap_map, List.map_cons, List.map_flatMap]
      congr 1
      · simp [refolder]
      · apply List.flatMap_congr
        intro c _
        by_cases own : c.1 = name
        · subst own
          rw [if_pos rfl, ih, List.append_assoc]
          rfl
        · have other : ∀ x ∈ folders (at_ ++ [c.1]) c.2, x.1 ≠ at_ ++ name :: p := by
            intro x member same
            obtain ⟨q, below⟩ := folders_below c.2 _ x member
            rw [below, List.append_assoc] at same
            exact own (List.cons.inj (List.append_cancel_left same)).1
          rw [if_neg own, map_refolder other]
    | _ => simp [chmod, folders]

mutual

/-- No path is that of a leaf and that of a folder. -/
theorem leaves_ne_folders : ∀ (n : Node) (at_ : Path), WellFormed n →
    ∀ x ∈ leaves at_ n, ∀ y ∈ folders at_ n, x.1 ≠ y.1
  | folder _ _ children, at_, good, x, leaf, y, inside, same => by
    rcases List.mem_cons.mp inside with rfl | inside
    · obtain ⟨name, q, _, below⟩ := leavesIn_below children at_ x leaf
      simp [below] at same
    · exact leavesIn_ne_foldersIn children at_ good.1 good.2 x leaf y inside same
  | file .., _, _, _, _, _, inside, _ | link _, _, _, _, _, _, inside, _
  | special, _, _, _, _, _, inside, _ => by simp [folders] at inside

theorem leavesIn_ne_foldersIn : ∀ (children : List (Name × Node)) (at_ : Path),
    (children.map Prod.fst).Nodup → WellFormedIn children →
    ∀ x ∈ leavesIn at_ children, ∀ y ∈ foldersIn at_ children, x.1 ≠ y.1
  | [], _, _, _, x, leaf, _, _, _ => by simp [leavesIn] at leaf
  | (name, n) :: children, at_, distinct, good, x, leaf, y, inside, same => by
    obtain ⟨fresh, distinct⟩ := List.nodup_cons.mp distinct
    rcases List.mem_append.mp leaf with first | rest
    · rcases List.mem_append.mp inside with first' | rest'
      · exact leaves_ne_folders n _ good.1 x first y first' same
      · obtain ⟨q, below⟩ := leaves_below n (at_ ++ [name]) x first
        obtain ⟨name', q', named, below'⟩ := foldersIn_below children at_ y rest'
        rw [below, below', List.append_assoc, List.append_assoc] at same
        obtain ⟨rfl, -⟩ := List.cons.inj (List.append_cancel_left same)
        exact fresh named
    · rcases List.mem_append.mp inside with first' | rest'
      · obtain ⟨name', q, named, below⟩ := leavesIn_below children at_ x rest
        obtain ⟨q', below'⟩ := folders_below n (at_ ++ [name]) y first'
        rw [below, below', List.append_assoc, List.append_assoc] at same
        obtain ⟨rfl, -⟩ := List.cons.inj (List.append_cancel_left same)
        exact fresh named
      · exact leavesIn_ne_foldersIn children at_ distinct good.2 x rest y rest' same

end

theorem wellFormed_chmod (mode : ℕ) (p : Path) {n : Node} (good : WellFormed n) :
    WellFormed (chmod mode p n) := by
  induction p generalizing n with
  | nil => cases n <;> exact good
  | cons name p ih =>
    cases n with
    | folder k opens children =>
      obtain ⟨distinct, below⟩ := good
      have names : (children.map fun c => if c.1 = name then (c.1, chmod mode p c.2) else c).map Prod.fst =
          children.map Prod.fst := by
        rw [List.map_map]
        apply List.map_congr_left
        intro c _
        simp only [Function.comp_apply]
        split <;> rfl
      refine ⟨by rwa [names], (wellFormedIn_iff _).mpr fun c member => ?_⟩
      obtain ⟨c', member', rfl⟩ := List.mem_map.mp member
      have good' := (wellFormedIn_iff _).mp below c' member'
      split
      · exact ih good'
      · exact good'
    | _ => exact good

/-! ## What a path leads to -/

/-- What stands at the end of a path: a node, nothing, or what a link on the way decides. -/
inductive Located
  | node (n : Node)
  | absent
  | beyond

def locate : Node → List (List Char) → Located
  | n, [] => .node n
  | folder _ _ children, part :: rest =>
    match children.find? fun c => c.1.text = part with
    | none => .absent
    | some c => locate c.2 rest
  | link _, _ :: _ => .beyond
  | _, _ :: _ => .absent

/-- A path leads to a folder without a link on the way. -/
def FolderAt (n : Node) (ps : List (List Char)) : Prop :=
  ∃ mode opens children, locate n ps = .node (folder mode opens children)

theorem folderAt_chmod (mode : ℕ) {ps : List (List Char)} {n : Node} (h : FolderAt n ps) (p : Path) :
    FolderAt (chmod mode p n) ps := by
  induction ps generalizing n p with
  | nil =>
    obtain ⟨k, opens, children, same⟩ := h
    simp only [locate, Located.node.injEq] at same
    subst same
    cases p with
    | nil => exact ⟨mode, opens, children, rfl⟩
    | cons name p => exact ⟨k, opens, _, rfl⟩
  | cons part ps ih =>
    cases n with
    | folder k opens children =>
      cases p with
      | nil => exact h
      | cons name p =>
        obtain ⟨k', opens', children', same⟩ := h
        simp only [locate] at same
        cases found : children.find? fun c => c.1.text = part with
        | none => simp [found] at same
        | some c =>
          rw [found] at same
          have kept : (children.map fun c => if c.1 = name then (c.1, chmod mode p c.2) else c).find?
              (fun c => c.1.text = part) = some (if c.1 = name then (c.1, chmod mode p c.2) else c) := by
            rw [List.find?_map, Function.comp_def]
            have names : (fun x : Name × Node => decide ((if x.1 = name then (x.1, chmod mode p x.2)
                else x).1.text = part)) = fun x => decide (x.1.text = part) := by
              funext x
              split <;> rfl
            rw [names, found]
            rfl
          simp only [FolderAt, chmod, locate, kept]
          split
          · exact ih ⟨k', opens', children', same⟩ p
          · exact ⟨k', opens', children', same⟩
    | file m r c => obtain ⟨_, _, _, same⟩ := h; simp [locate] at same
    | link t => obtain ⟨_, _, _, same⟩ := h; simp [locate] at same
    | special => obtain ⟨_, _, _, same⟩ := h; simp [locate] at same

/-- A new entry of the root. -/
def insert (name : Name) (new : Node) : Node → Node
  | folder mode opens children => folder mode opens (children ++ [(name, new)])
  | n => n

theorem folderAt_insert {ps : List (List Char)} {n : Node} (h : FolderAt n ps) (name : Name) (new : Node) :
    FolderAt (insert name new n) ps := by
  cases n with
  | folder mode opens children =>
    cases ps with
    | nil => exact ⟨mode, opens, _, rfl⟩
    | cons part ps =>
      obtain ⟨k, o, children', same⟩ := h
      simp only [locate] at same
      cases found : children.find? fun c => c.1.text = part with
      | none => simp [found] at same
      | some c =>
        rw [found] at same
        refine ⟨k, o, children', ?_⟩
        simp only [insert, locate, List.find?_append, found, Option.some_or]
        exact same
  | _ => exact h

theorem leaves_insert {mode : ℕ} {opens : Bool} {children : List (Name × Node)} (name : Name) (new : Node) :
    leaves [] (insert name new (folder mode opens children)) =
      leaves [] (folder mode opens children) ++ leaves [name] new := by
  simp [insert, leaves, leavesIn_eq]

theorem folders_insert {mode : ℕ} {opens : Bool} {children : List (Name × Node)} (name : Name) (new : Node) :
    folders [] (insert name new (folder mode opens children)) =
      folders [] (folder mode opens children) ++ folders [name] new := by
  simp [insert, folders, foldersIn_eq]

theorem wellFormed_insert {mode : ℕ} {opens : Bool} {children : List (Name × Node)} {name : Name} {new : Node}
    (good : WellFormed (folder mode opens children)) (good' : WellFormed new)
    (fresh : ∀ c ∈ children, c.1 ≠ name) : WellFormed (insert name new (folder mode opens children)) := by
  obtain ⟨distinct, below⟩ := good
  refine ⟨?_, (wellFormedIn_iff _).mpr fun c member => ?_⟩
  · rw [List.map_append, List.nodup_append]
    refine ⟨distinct, List.nodup_singleton _, ?_⟩
    intro other inside same own
    obtain ⟨c, member, rfl⟩ := List.mem_map.mp inside
    rw [List.map_singleton, List.mem_singleton] at own
    rintro rfl
    exact fresh c member own
  · rcases List.mem_append.mp member with inside | own
    · exact (wellFormedIn_iff _).mp below c inside
    · rw [List.mem_singleton.mp own]
      exact good'

/-! ## Several changes of mode -/

def applyModes (ops : List (ℕ × Path)) (n : Node) : Node := ops.foldl (fun n op => n.chmod op.1 op.2) n

/-- The mode behind the changes at a path. -/
def lastMode (ops : List (ℕ × Path)) (p : Path) (mode : ℕ) : ℕ :=
  ops.foldl (fun k op => if op.2 = p then op.1 else k) mode

/-- A file with another mode. -/
def remode (f : ℕ → ℕ) : Node → Node
  | file mode readable content => file (f mode) readable content
  | n => n

theorem leaves_applyModes (ops : List (ℕ × Path)) (n : Node) : leaves [] (applyModes ops n) =
    (leaves [] n).map fun x => (x.1, x.2.remode (lastMode ops x.1)) := by
  induction ops generalizing n with
  | nil =>
    have same : (fun x : Path × Node => (x.1, x.2.remode (lastMode [] x.1))) = id := by
      funext x
      obtain ⟨p, n⟩ := x
      cases n <;> rfl
    rw [same, List.map_id]
    rfl
  | cons op ops ih =>
    rw [applyModes, List.foldl_cons, ← applyModes, ih, leaves_chmod, List.map_map]
    apply List.map_congr_left
    intro x _
    obtain ⟨p, n⟩ := x
    by_cases own : p = op.2
    · subst own
      cases n <;> simp [retouch, remode, setMode, lastMode]
    · have other : op.2 ≠ p := fun same => own same.symm
      cases n <;> simp [retouch, remode, lastMode, own, other]

theorem folders_applyModes (ops : List (ℕ × Path)) (n : Node) : folders [] (applyModes ops n) =
    (folders [] n).map fun x => (x.1, lastMode ops x.1 x.2.1, x.2.2) := by
  induction ops generalizing n with
  | nil => simp [applyModes, lastMode]
  | cons op ops ih =>
    rw [applyModes, List.foldl_cons, ← applyModes, ih, folders_chmod, List.map_map]
    apply List.map_congr_left
    intro x _
    by_cases own : x.1 = op.2
    · simp [refolder, lastMode, own]
    · have other : op.2 ≠ x.1 := fun same => own same.symm
      simp [refolder, lastMode, own, other]

theorem folderAt_applyModes (ops : List (ℕ × Path)) {n : Node} {ps : List (List Char)}
    (h : FolderAt n ps) : FolderAt (applyModes ops n) ps := by
  induction ops generalizing n with
  | nil => exact h
  | cons op ops ih => exact ih (folderAt_chmod op.1 h op.2)

theorem wellFormed_applyModes (ops : List (ℕ × Path)) {n : Node} (good : WellFormed n) :
    WellFormed (applyModes ops n) := by
  induction ops generalizing n with
  | nil => exact good
  | cons op ops ih => exact ih (wellFormed_chmod op.1 op.2 good)

theorem lastMode_none {ops : List (ℕ × Path)} {p : Path} (none : ∀ op ∈ ops, op.2 ≠ p) (k : ℕ) :
    lastMode ops p k = k := by
  induction ops generalizing k with
  | nil => rfl
  | cons op ops ih =>
    obtain ⟨first, rest⟩ := List.forall_mem_cons.mp none
    rw [lastMode, List.foldl_cons, if_neg first]
    exact ih rest k

/-- The changes from some place on agree about a path, and one of them is for it. -/
theorem lastMode_eq {before after : List (ℕ × Path)} {p : Path} {mode : ℕ}
    (some_ : ∃ op ∈ after, op.2 = p) (agree : ∀ op ∈ after, op.2 = p → op.1 = mode) (k : ℕ) :
    lastMode (before ++ after) p k = mode := by
  rw [lastMode, List.foldl_append, ← lastMode, ← lastMode]
  generalize lastMode before p k = k
  induction after generalizing k with
  | nil => simp at some_
  | cons op after ih =>
    obtain ⟨first, rest⟩ := List.forall_mem_cons.mp agree
    rw [lastMode, List.foldl_cons, ← lastMode]
    by_cases later : ∃ op ∈ after, op.2 = p
    · exact ih later rest _
    · have own : op.2 = p := by
        obtain ⟨op', member, own⟩ := some_
        rcases List.mem_cons.mp member with rfl | member
        · exact own
        · exact absurd ⟨op', member, own⟩ later
      have others : ∀ op ∈ after, op.2 ≠ p := fun op' member same => later ⟨op', member, same⟩
      rw [lastMode_none others, if_pos own, first own]

end Node

/-! ## UTF-8 -/

def utf8 (t : List Char) : List UInt8 := t.flatMap String.utf8EncodeChar

def decodeUtf8 (bytes : List UInt8) : Option (List Char) :=
  bytes.toByteArray.utf8Decode?.map Array.toList

@[simp]
theorem decodeUtf8_utf8 (t : List Char) : decodeUtf8 (utf8 t) = some t := by
  have decoded : (utf8 t).toByteArray.utf8Decode? = some t.toArray := List.utf8Decode?_utf8Encode
  rw [decodeUtf8, decoded]
  rfl

theorem utf8EncodeChar_pos {c : Char} (clean : c ≠ Char.ofNat 0) : 0 ∉ String.utf8EncodeChar c := by
  have nonzero : c.val.toNat ≠ 0 := by
    intro zero
    apply clean
    apply Char.ext
    exact UInt32.toNat_inj.mp zero
  have byte (n : ℕ) (h : n % 256 ≠ 0) : (0 : UInt8) ≠ UInt8.ofNat n := by
    intro same
    have := congrArg UInt8.toNat same
    simp at this
    omega
  unfold String.utf8EncodeChar
  simp only
  split
  · simp only [List.mem_singleton]
    exact byte _ (by omega)
  · split
    · simp only [List.mem_cons, List.not_mem_nil, or_false, not_or]
      exact ⟨byte _ (by omega), byte _ (by omega)⟩
    · split
      · simp only [List.mem_cons, List.not_mem_nil, or_false, not_or]
        exact ⟨byte _ (by omega), byte _ (by omega), byte _ (by omega)⟩
      · simp only [List.mem_cons, List.not_mem_nil, or_false, not_or]
        exact ⟨byte _ (by omega), byte _ (by omega), byte _ (by omega), byte _ (by omega)⟩

/-- Only the character 0 is written with a byte 0. -/
theorem utf8_clean {t : List Char} (clean : Char.ofNat 0 ∉ t) : 0 ∉ utf8 t := by
  intro member
  obtain ⟨c, inside, byte⟩ := List.mem_flatMap.mp member
  refine utf8EncodeChar_pos ?_ byte
  rintro rfl
  exact clean inside

end PlatformConfig.FileTree
