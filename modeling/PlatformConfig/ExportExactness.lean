import PlatformConfig.ExportManifest
import PlatformConfig.FailoverPlan
import PlatformConfig.Fallible

/-!
# What an accepted export holds

A scan finds the leaves and the folders of a tree. A tree that is accepted holds exactly the files and
links that its manifest lists, with their contents, targets and modes, and two trees accepted with one
manifest hold the same ones unless their contents collide. What is not accepted is refused.
-/
namespace PlatformConfig.ExportManifest

open CanonicalJson FileTree RecordText
open FailoverPlan (bind_ok)

/-! ## Scanning -/

abbrev Stack := List (Path × Bool × List (Name × Node))

def stackLeaves (pending : Stack) : List (Path × Node) := pending.flatMap fun p => Node.leavesIn p.1 p.2.2

def stackFolders (pending : Stack) : List (Path × ℕ × Bool) :=
  pending.flatMap fun p => Node.foldersIn p.1 p.2.2

def modes (folders : List (Path × ℕ × Bool)) : List (Path × ℕ) := folders.map fun y => (y.1, y.2.1)

theorem scanChildren_found {directory : Path} {children : List (Name × Node)} {found found' : Found}
    {pending pending' : Stack}
    (h : scanChildren directory children found pending = .ok (found', pending')) :
    (∀ x, x ∈ found'.entries ∨ x ∈ stackLeaves pending' ↔
      (x ∈ found.entries ∨ x ∈ stackLeaves pending) ∨ x ∈ Node.leavesIn directory children) ∧
    ∀ y, y ∈ found'.directories ∨ y ∈ modes (stackFolders pending') ↔
      (y ∈ found.directories ∨ y ∈ modes (stackFolders pending)) ∨
        y ∈ modes (Node.foldersIn directory children) := by
  induction children generalizing found pending with
  | nil =>
    obtain ⟨rfl, rfl⟩ := by simpa [scanChildren] using h
    simp [Node.leavesIn, Node.foldersIn, modes]
  | cons c rest ih =>
    obtain ⟨name, n⟩ := c
    cases n with
    | special => cases h
    | folder mode opens children =>
      obtain ⟨leaves, folders⟩ := ih h
      constructor
      · intro x
        rw [leaves x]
        simp only [stackLeaves, List.flatMap_cons, Node.leavesIn, Node.leaves, List.mem_append]
        tauto
      · intro y
        rw [folders y]
        simp only [stackFolders, modes, List.flatMap_cons, Node.foldersIn, Node.folders, List.mem_append,
          List.map_append, List.map_cons, List.mem_cons, List.not_mem_nil, or_false]
        tauto
    | file mode readable content =>
      obtain ⟨leaves, folders⟩ := ih h
      constructor
      · intro x
        rw [leaves x]
        simp only [Node.leavesIn, Node.leaves, List.mem_append, List.mem_singleton]
        tauto
      · intro y
        rw [folders y]
        simp only [Node.foldersIn, Node.folders, List.nil_append]
    | link target =>
      obtain ⟨leaves, folders⟩ := ih h
      constructor
      · intro x
        rw [leaves x]
        simp only [Node.leavesIn, Node.leaves, List.mem_append, List.mem_singleton]
        tauto
      · intro y
        rw [folders y]
        simp only [Node.foldersIn, Node.folders, List.nil_append]

theorem scanLoop_found {pending : Stack} {found found' : Found} (h : scanLoop pending found = .ok found') :
    (∀ x, x ∈ found'.entries ↔ x ∈ found.entries ∨ x ∈ stackLeaves pending) ∧
      ∀ y, y ∈ found'.directories ↔ y ∈ found.directories ∨ y ∈ modes (stackFolders pending) := by
  fun_induction scanLoop pending found with
  | case1 found =>
    cases h
    simp [stackLeaves, stackFolders, modes]
  | case2 => cases h
  | case3 found directory children pending next pending' scanned ih =>
    obtain ⟨leaves, folders⟩ := ih h
    obtain ⟨leaves', folders'⟩ := scanChildren_found scanned
    constructor
    · intro x
      rw [leaves, leaves']
      simp only [stackLeaves, List.flatMap_cons, List.mem_append]
      tauto
    · intro y
      rw [folders, folders']
      simp only [stackFolders, modes, List.flatMap_cons, List.map_append, List.mem_append]
      tauto
  | case4 => cases h

/-- A directory of the stack below which a scan meets nothing special and no closed folder. -/
def Clear (p : Path × Bool × List (Name × Node)) : Prop :=
  p.2.1 = true ∧ (∀ x ∈ Node.leavesIn p.1 p.2.2, x.2 ≠ .special) ∧
    ∀ y ∈ Node.foldersIn p.1 p.2.2, y.2.2 = true

theorem scanChildren_passes {directory : Path} {children : List (Name × Node)} {found : Found}
    {pending : Stack} (clear : ∀ p ∈ pending, Clear p)
    (plain : ∀ x ∈ Node.leavesIn directory children, x.2 ≠ .special)
    (opened : ∀ y ∈ Node.foldersIn directory children, y.2.2 = true) :
    ∃ found' pending', scanChildren directory children found pending = .ok (found', pending') ∧
      ∀ p ∈ pending', Clear p := by
  induction children generalizing found pending with
  | nil => exact ⟨found, pending, rfl, clear⟩
  | cons c rest ih =>
    obtain ⟨name, n⟩ := c
    simp only [Node.leavesIn, Node.foldersIn, List.forall_mem_append] at plain opened
    cases n with
    | special => exact absurd rfl (plain.1 (directory ++ [name], .special) (by simp [Node.leaves]))
    | folder mode opens children =>
      have own := List.forall_mem_cons.mp opened.1
      exact ih (List.forall_mem_cons.mpr ⟨⟨own.1, plain.1, own.2⟩, clear⟩) plain.2 opened.2
    | file mode readable content => exact ih clear plain.2 opened.2
    | link target => exact ih clear plain.2 opened.2

theorem scanLoop_passes {pending : Stack} {found : Found} (clear : ∀ p ∈ pending, Clear p) :
    ∃ found', scanLoop pending found = .ok found' := by
  fun_induction scanLoop pending found with
  | case1 found => exact ⟨found, rfl⟩
  | case2 found directory children pending e failed =>
    obtain ⟨⟨_, plain, opened⟩, clear⟩ := List.forall_mem_cons.mp clear
    obtain ⟨_, _, passed, _⟩ := @scanChildren_passes directory children found pending clear plain opened
    rw [failed] at passed
    cases passed
  | case3 found directory children pending next pending' scanned ih =>
    obtain ⟨⟨_, plain, opened⟩, clear⟩ := List.forall_mem_cons.mp clear
    obtain ⟨_, _, passed, clear'⟩ := @scanChildren_passes directory children found pending clear plain opened
    rw [scanned] at passed
    cases passed
    exact ih clear'
  | case4 found directory opens children pending closed =>
    obtain ⟨⟨open_, _⟩, _⟩ := List.forall_mem_cons.mp clear
    exact absurd open_ closed

/-- A scan passes where every folder opens and nothing is special. -/
theorem scanTree_passes {mode : ℕ} {opens : Bool} {children : List (Name × Node)}
    (plain : ∀ x ∈ (Node.folder mode opens children).leaves [], x.2 ≠ .special)
    (opened : ∀ y ∈ (Node.folder mode opens children).folders [], y.2.2 = true) :
    ∃ found, scanTree (.folder mode opens children) = .ok found := by
  obtain ⟨own, below⟩ := List.forall_mem_cons.mp opened
  apply scanLoop_passes
  intro p member
  rw [List.mem_singleton.mp member]
  exact ⟨own, plain, below⟩

/-- A scan finds every leaf and every folder. -/
theorem scanTree_found {tree : Node} {found : Found} (h : scanTree tree = .ok found) :
    (∀ x, x ∈ found.entries ↔ x ∈ tree.leaves []) ∧
      ∀ y, y ∈ found.directories ↔ y ∈ modes (tree.folders []) := by
  cases tree with
  | folder mode opens children =>
    obtain ⟨leaves, folders⟩ := scanLoop_found h
    constructor
    · intro x
      rw [leaves x]
      simp [stackLeaves, Node.leaves]
    · intro y
      rw [folders y]
      simp [stackFolders, modes, Node.folders]
  | _ => cases h

/-! ## Accepted trees -/

/-- A leaf agrees with its listed entry. -/
def Agrees (host : Host) : Node → Listed → Prop
  | .file mode _ content, .file executable digest =>
    mode = exportMode executable ∧ (host.sha256 content).1 = digest
  | .link (some t), .symlink target => t = target
  | _, _ => False

theorem agrees_file {host : Host} {n : Node} {executable : Bool} {digest : Text} :
    Agrees host n (.file executable digest) ↔
      ∃ readable content, n = .file (exportMode executable) readable content ∧
        (host.sha256 content).1 = digest := by
  cases n <;> simp [Agrees]

theorem agrees_symlink {host : Host} {n : Node} {target : String} :
    Agrees host n (.symlink target) ↔ n = .link (some target) := by
  cases n with
  | link t => cases t <;> simp [Agrees]
  | _ => simp [Agrees]

theorem agrees_gitlink {host : Host} {n : Node} {commit : Text} :
    ¬ Agrees host n (.gitlink commit) := by
  cases n with
  | link t => cases t <;> simp [Agrees]
  | _ => simp [Agrees]

/-- A tree holds exactly the listed files and links, and every folder has mode 0700. -/
structure Exact (host : Host) (tree : Node) (entries : List (String × Listed)) : Prop where
  folders : ∀ y ∈ tree.folders [], y.2.1 = 0o700
  listed : ∀ x ∈ tree.leaves [], x.1 ≠ [manifestName] →
    ∃ l, (posix x.1, l) ∈ entries ∧ Agrees host x.2 l
  held : ∀ e ∈ entries, isGitlink e.2 = false →
    ∃ x ∈ tree.leaves [], x.1 ≠ [manifestName] ∧ posix x.1 = e.1 ∧ Agrees host x.2 e.2

/-- The leaves of a folder lie below its path. -/
theorem leaf_ne_nil {mode : ℕ} {opens : Bool} {children : List (Name × Node)} {x : Path × Node}
    (leaf : x ∈ (Node.folder mode opens children).leaves []) : x.1 ≠ [] := by
  obtain ⟨name, q, _, same⟩ := Node.leavesIn_below children [] x leaf
  simp [same]

theorem lookup_eq {actual : List (Path × Node)} {path : String} {x : Path × Node}
    (h : lookup actual path = some x) : x ∈ actual ∧ posix x.1 = path := by
  have found := List.find?_some h
  exact ⟨List.mem_of_find?_eq_some h, by simpa using found⟩

theorem checkEntry_ok {host : Host} {tree : Node} {actual : List (Path × Node)} {e : String × Listed}
    (h : checkEntry host tree actual e = .ok ()) (plain : isGitlink e.2 = false) :
    ∃ x, lookup actual e.1 = some x ∧ Agrees host x.2 e.2 := by
  obtain ⟨path, listed⟩ := e
  cases listed with
  | gitlink commit => cases plain
  | symlink target =>
    simp only [checkEntry] at h
    split at h <;> grind [Agrees, refuse]
  | file executable digest =>
    simp only [checkEntry] at h
    split at h <;> grind [Agrees, refuse]

/-- A path names one leaf. -/
theorem leaf_unique {tree : Node} (good : tree.WellFormed) {x y : Path × Node} (leaf : x ∈ tree.leaves [])
    (leaf' : y ∈ tree.leaves []) (same : x.1 = y.1) : x = y :=
  List.inj_on_of_nodup_map (Node.leaves_nodup tree [] good) leaf leaf' same

/-- A listed file or link is one path of the tree. -/
theorem mem_expected {entries : List (String × Listed)} {path : String} :
    path ∈ (entries.filter fun e => !isGitlink e.2).map Prod.fst ↔
      ∃ e ∈ entries, isGitlink e.2 = false ∧ e.1 = path := by
  simp [and_assoc]

theorem verifyTree_exact {host : Host} {mode : ℕ} {opens : Bool} {children : List (Name × Node)}
    {entries : List (String × Listed)} (good : (Node.folder mode opens children).WellFormed)
    (h : verifyTree host (.folder mode opens children) entries = .ok ()) :
    Exact host (.folder mode opens children) entries := by
  simp only [verifyTree] at h
  obtain ⟨found, scanned, h⟩ := bind_ok.mp h
  obtain ⟨leaves, folders⟩ := scanTree_found scanned
  cases private_ : found.directories.find? fun d => d.2 ≠ 0o700 with
  | some d =>
    simp only [private_] at h
    cases h
  | none =>
    simp only [private_] at h
    split at h
    case isTrue => cases h
    case isFalse same =>
      obtain ⟨within, covered⟩ := not_not.mp same
      have checked := Fallible.forM_ok.mp h
      refine ⟨?_, ?_, ?_⟩
      · intro y member
        have listed := (folders (y.1, y.2.1)).mpr (List.mem_map.mpr ⟨y, member, rfl⟩)
        simpa using List.find?_eq_none.mp private_ _ listed
      · intro x leaf other
        have plain : posix x.1 ≠ manifestPath :=
          fun same => other (posix_inj (leaf_ne_nil leaf) (by simp) same)
        have actual : posix x.1 ∈ (found.entries.map fun e => posix e.1).filter (· ≠ manifestPath) := by
          simp only [List.mem_filter, List.mem_map, decide_eq_true_eq]
          exact ⟨⟨x, (leaves x).mpr leaf, rfl⟩, plain⟩
        obtain ⟨⟨path, l⟩, member, kind, rfl⟩ := mem_expected.mp (within actual)
        obtain ⟨x', looked, agrees⟩ := checkEntry_ok (checked _ member) kind
        obtain ⟨member', path'⟩ := lookup_eq looked
        have leaf' := (leaves x').mp member'
        have equal := leaf_unique good leaf' leaf
          (posix_inj (leaf_ne_nil leaf') (leaf_ne_nil leaf) path')
        subst equal
        exact ⟨l, member, agrees⟩
      · intro e member kind
        obtain ⟨x, looked, agrees⟩ := checkEntry_ok (checked e member) kind
        obtain ⟨member', path⟩ := lookup_eq looked
        have leaf := (leaves x).mp member'
        have actual := covered (mem_expected.mpr ⟨e, member, kind, rfl⟩)
        have plain : e.1 ≠ manifestPath := by simpa using (List.mem_filter.mp actual).2
        refine ⟨x, leaf, ?_, path, agrees⟩
        intro own
        rw [own] at path
        exact plain path.symm

/-! ## What is read from a manifest -/

theorem pair_ok {x : Result Listed} {path : String} {e : String × Listed}
    (h : (do return (path, ← x)) = (.ok e : Result (String × Listed))) : e.1 = path := by
  obtain ⟨l, _, h⟩ := bind_ok.mp h
  cases h
  rfl

/-- The paths of the entries ascend. -/
theorem verifyEntry_path {previous : String} {raw : Json} {e : String × Listed}
    (h : verifyEntry previous raw = .ok e) : previous < e.1 := by
  cases raw with
  | obj fields =>
    simp only [verifyEntry] at h
    obtain ⟨path, _, h⟩ := bind_ok.mp h
    split at h
    · cases h
    · rename_i above
      have same : e.1 = path := by
        split at h
        · cases h
        · split at h
          · split at h
            · cases h
            · exact pair_ok h
          · split at h
            · cases h
            · exact pair_ok h
          · split at h
            · cases h
            · exact pair_ok h
          · cases h
      rw [same]
      exact not_le.mp above
  | _ => cases h

theorem verifyEntries_sorted {raw : List Json} {previous : String} {entries : List (String × Listed)}
    (h : verifyEntries previous raw = .ok entries) :
    (entries.map Prod.fst).Pairwise (· < ·) ∧ ∀ path ∈ entries.map Prod.fst, previous < path := by
  induction raw generalizing previous entries with
  | nil =>
    cases h
    simp
  | cons r raw ih =>
    obtain ⟨e, first, h⟩ := bind_ok.mp h
    obtain ⟨rest, later, h⟩ := bind_ok.mp h
    cases h
    obtain ⟨ascending, above⟩ := ih later
    have path := verifyEntry_path first
    simp only [List.map_cons, List.pairwise_cons, List.forall_mem_cons]
    exact ⟨⟨above, ascending⟩, path, fun p member => path.trans (above p member)⟩

theorem readManifest_sorted {repository : String} {manifest : Json} {commit : Text}
    {entries : List (String × Listed)} (h : readManifest repository manifest = .ok (commit, entries)) :
    (entries.map Prod.fst).Pairwise (· < ·) := by
  simp only [readManifest] at h
  split at h
  · cases h
  split at h
  · cases h
  split at h
  · cases h
  split at h
  · cases h
  split at h
  · obtain ⟨entries', read, h⟩ := bind_ok.mp h
    cases h
    exact (verifyEntries_sorted read).1
  · cases h

/-- A tree is accepted where it agrees with what its manifest file says. -/
theorem verifyManifest_ok {host : Host} {repository : String} {tree : Node} {commit : Text}
    (h : verifyManifest host repository tree = .ok commit) :
    ∃ mode opens children manifest entries, tree = .folder mode opens children ∧
      loadManifest host opens children = .ok manifest ∧
        readManifest repository manifest = .ok (commit, entries) ∧ verifyTree host tree entries = .ok () := by
  cases tree with
  | folder mode opens children =>
    simp only [verifyManifest] at h
    obtain ⟨manifest, loaded, h⟩ := bind_ok.mp h
    obtain ⟨⟨c, entries⟩, read, h⟩ := bind_ok.mp h
    obtain ⟨_, verified, h⟩ := bind_ok.mp h
    cases h
    exact ⟨mode, opens, children, manifest, entries, rfl, loaded, read, verified⟩
  | _ => cases h

/-- What a tree holds at a path: mode and content of a file, target of a link. -/
def view : Node → Option (ℕ × List UInt8 ⊕ Option String)
  | .file mode _ content => some (.inl (mode, content))
  | .link target => some (.inr target)
  | _ => none

def contentOf : Node → Option (List UInt8)
  | .file _ _ content => some content
  | _ => none

/-- No two contents of the trees have one digest. -/
def NoCollision (host : Host) (tree tree' : Node) : Prop :=
  ∀ x ∈ tree.leaves [], ∀ y ∈ tree'.leaves [], ∀ c ∈ contentOf x.2, ∀ c' ∈ contentOf y.2,
    (host.sha256 c).1 = (host.sha256 c').1 → c = c'

theorem agrees_view {host : Host} {n n' : Node} {l : Listed} (left : Agrees host n l)
    (right : Agrees host n' l) (collide : ∀ c ∈ contentOf n, ∀ c' ∈ contentOf n',
      (host.sha256 c).1 = (host.sha256 c').1 → c = c') : view n = view n' := by
  cases l with
  | gitlink commit => exact absurd left agrees_gitlink
  | symlink target => rw [agrees_symlink.mp left, agrees_symlink.mp right]
  | file executable digest =>
    obtain ⟨readable, content, rfl, digest⟩ := agrees_file.mp left
    obtain ⟨readable', content', rfl, digest'⟩ := agrees_file.mp right
    rw [view, view, collide content rfl content' rfl (digest.trans digest'.symm)]

/-- The manifest file of a tree. -/
def manifestBytes : Node → Option (List UInt8)
  | .folder _ _ children => (children.find? fun c => c.1 = manifestName).bind fun c => contentOf c.2
  | _ => none

/-- A manifest is the value of the text of its file. -/
theorem loadManifest_ok {host : Host} (mode : ℕ) {opens : Bool} {children : List (Name × Node)}
    {manifest : Json} (h : loadManifest host opens children = .ok manifest) :
    ((manifestBytes (.folder mode opens children)).bind decodeUtf8).bind (JsonText.loads host.float) =
      some manifest := by
  simp only [loadManifest] at h
  split at h
  · cases h
  split at h
  · cases h
  · rename_i found
    split at h
    · cases h
    split at h
    · cases h
    split at h
    · cases h
    rename_i text decoded
    split at h
    · cases h
    split at h
    · cases h
    · rename_i fields loaded
      cases h
      simp [manifestBytes, found, contentOf, decoded, loaded]
    · cases h
  · cases h

/-- What one of two exact trees holds, the other holds as well. -/
theorem holds_of_exact {host : Host} {tree tree' : Node} {entries : List (String × Listed)}
    (left : Exact host tree entries) (right : Exact host tree' entries) (collide : NoCollision host tree tree')
    (below : ∀ x ∈ tree.leaves [], x.1 ≠ []) (below' : ∀ x ∈ tree'.leaves [], x.1 ≠ [])
    {p : Path} {n : Node} (leaf : (p, n) ∈ tree.leaves []) (other : p ≠ [manifestName]) :
    ∃ n', (p, n') ∈ tree'.leaves [] ∧ view n = view n' := by
  obtain ⟨l, listed, agrees⟩ := left.listed _ leaf other
  have plain : isGitlink l = false := by
    cases l with
    | gitlink commit => exact absurd agrees agrees_gitlink
    | _ => rfl
  obtain ⟨x, leaf', _, path, agrees'⟩ := right.held _ listed plain
  have same : x.1 = p := posix_inj (below' x leaf') (below _ leaf) path
  subst same
  exact ⟨x.2, leaf', agrees_view agrees agrees' (collide _ leaf _ leaf')⟩

theorem NoCollision.symm {host : Host} {tree tree' : Node} (h : NoCollision host tree tree') :
    NoCollision host tree' tree :=
  fun x leaf y leaf' c inside c' inside' same => (h y leaf' x leaf c' inside' c inside same.symm).symm

/-- Trees accepted with one manifest hold the same files and links. -/
theorem accepted_same {host : Host} {repository : String} {tree tree' : Node} {commit commit' : Text}
    (good : tree.WellFormed) (good' : tree'.WellFormed)
    (accepted : verifyManifest host repository tree = .ok commit)
    (accepted' : verifyManifest host repository tree' = .ok commit')
    (same : manifestBytes tree = manifestBytes tree') (collide : NoCollision host tree tree')
    {p : Path} (other : p ≠ [manifestName]) (v : Option (ℕ × List UInt8 ⊕ Option String)) :
    (∃ n, (p, n) ∈ tree.leaves [] ∧ view n = v) ↔ ∃ n, (p, n) ∈ tree'.leaves [] ∧ view n = v := by
  obtain ⟨mode, opens, children, manifest, entries, rfl, loaded, read, verified⟩ := verifyManifest_ok accepted
  obtain ⟨mode', opens', children', manifest', entries', rfl, loaded', read', verified'⟩ :=
    verifyManifest_ok accepted'
  have value := loadManifest_ok mode loaded
  rw [same, loadManifest_ok mode' loaded'] at value
  cases value
  rw [read] at read'
  cases read'
  have left := verifyTree_exact good verified
  have right := verifyTree_exact good' verified'
  have below : ∀ x ∈ (Node.folder mode opens children).leaves [], x.1 ≠ [] := fun x => leaf_ne_nil
  have below' : ∀ x ∈ (Node.folder mode' opens' children').leaves [], x.1 ≠ [] := fun x => leaf_ne_nil
  constructor
  · rintro ⟨n, leaf, rfl⟩
    obtain ⟨n', leaf', seen⟩ := holds_of_exact left right collide below below' leaf other
    exact ⟨n', leaf', seen.symm⟩
  · rintro ⟨n, leaf, rfl⟩
    obtain ⟨n', leaf', seen⟩ := holds_of_exact right left collide.symm below' below leaf other
    exact ⟨n', leaf', seen.symm⟩

/-! ## How a tree is refused -/

open Fallible

/-- A `ManifestError`, or an `OSError` where the system refuses something. -/
def Refused (permits : Prop) (f : Failure) : Prop := (∃ r, f = .manifest r) ∨ f = .os ∧ ¬ permits

theorem Refused.weaken {permits permits' : Prop} {f : Failure} (h : Refused permits f)
    (weaker : permits' → permits) : Refused permits' f := by
  rcases h with refusal | ⟨os, denied⟩
  · exact Or.inl refusal
  · exact Or.inr ⟨os, mt weaker denied⟩

theorem refuse_fails {α : Type} {permits : Prop} {r : Refusal} :
    Fails (Refused permits) (refuse r : Result α) := Fails.error (Or.inl ⟨r, rfl⟩)

/-- A directory of the stack with everything below it opens. -/
def Opened (p : Path × Bool × List (Name × Node)) : Prop :=
  p.2.1 = true ∧ ∀ y ∈ Node.foldersIn p.1 p.2.2, y.2.2 = true

theorem scanChildren_opened {directory : Path} {children : List (Name × Node)} {found found' : Found}
    {pending pending' : Stack} (h : scanChildren directory children found pending = .ok (found', pending'))
    (stacked : ∀ p ∈ pending, Opened p) (below : ∀ y ∈ Node.foldersIn directory children, y.2.2 = true) :
    ∀ p ∈ pending', Opened p := by
  induction children generalizing found pending with
  | nil =>
    obtain ⟨rfl, rfl⟩ := by simpa [scanChildren] using h
    exact stacked
  | cons c rest ih =>
    obtain ⟨name, n⟩ := c
    simp only [Node.foldersIn, List.forall_mem_append] at below
    cases n with
    | special => cases h
    | folder mode opens children =>
      have own := List.forall_mem_cons.mp below.1
      exact ih h (List.forall_mem_cons.mpr ⟨own, stacked⟩) below.2
    | file mode readable content => exact ih h stacked below.2
    | link target => exact ih h stacked below.2

theorem scanChildren_fails {permits : Prop} {directory : Path} {children : List (Name × Node)}
    {found : Found} {pending : Stack} :
    Fails (Refused permits) (scanChildren directory children found pending) := by
  induction children generalizing found pending with
  | nil => exact Fails.ok
  | cons c rest ih =>
    obtain ⟨name, n⟩ := c
    cases n with
    | special => exact refuse_fails
    | folder mode opens children => exact ih
    | file mode readable content => exact ih
    | link target => exact ih

theorem scanLoop_fails {pending : Stack} {found : Found} :
    Fails (Refused (∀ p ∈ pending, Opened p)) (scanLoop pending found) := by
  fun_induction scanLoop pending found with
  | case1 => exact Fails.ok
  | case2 found directory children pending e failed =>
    apply Fails.error
    exact scanChildren_fails e failed
  | case3 found directory children pending next pending' scanned ih =>
    refine Fails.imp ih fun e refused => refused.weaken fun opened => ?_
    obtain ⟨own, rest⟩ := List.forall_mem_cons.mp opened
    exact scanChildren_opened scanned rest own.2
  | case4 found directory opens children pending closed =>
    apply Fails.error
    refine Or.inr ⟨rfl, fun opened => ?_⟩
    exact closed (opened _ List.mem_cons_self).1

theorem entryPath_fails {permits : Prop} {j : Option Json} :
    Fails (Refused permits) (entryPath j) := by
  simp only [entryPath, validPath]
  split
  · split_ifs
    · exact refuse_fails
    · exact refuse_fails
    · exact refuse_fails
    · exact Fails.ok
  · exact refuse_fails

/-- The type and the mode of an entry can be looked up. -/
def Plain (raw : Json) : Prop := ∀ key ∈ ["type", "mode"], isHashable ((raw.get? key).getD .null) = true

theorem fileEntry_fails {permits : Prop} {path : String} {raw : Json}
    (mode : isHashable ((raw.get? "mode").getD .null) = true) :
    Fails (Refused permits) (fileEntry path raw) := by
  simp only [fileEntry, mode, Bool.not_true, Bool.false_eq_true, if_false]
  split
  · exact refuse_fails
  · split
    · exact refuse_fails
    · exact Fails.ok

theorem symlinkEntry_fails {permits : Prop} {path : String} {raw : Json} :
    Fails (Refused permits) (symlinkEntry path raw) := by
  simp only [symlinkEntry]
  split
  · exact Fails.ok
  · exact refuse_fails

theorem gitlinkEntry_fails {permits : Prop} {path : String} {raw : Json} :
    Fails (Refused permits) (gitlinkEntry path raw) := by
  simp only [gitlinkEntry]
  split
  · split
    · exact Fails.ok
    · exact refuse_fails
  · exact refuse_fails

theorem verifyEntry_fails {permits : Prop} {previous : String} {raw : Json} (plain : Plain raw) :
    Fails (Refused permits) (verifyEntry previous raw) := by
  cases raw with
  | obj fields =>
    have kind := plain "type" (by simp)
    have mode := plain "mode" (by simp)
    apply entryPath_fails.bind
    intro path
    split
    · exact refuse_fails
    simp only [kind, Bool.not_true, Bool.false_eq_true, if_false]
    split
    · split
      · exact refuse_fails
      · apply (fileEntry_fails mode).bind
        exact fun _ => Fails.ok
    · split
      · exact refuse_fails
      · apply symlinkEntry_fails.bind
        exact fun _ => Fails.ok
    · split
      · exact refuse_fails
      · apply gitlinkEntry_fails.bind
        exact fun _ => Fails.ok
    · exact refuse_fails
  | _ => exact refuse_fails

theorem verifyEntries_fails {permits : Prop} {raw : List Json} (plain : ∀ r ∈ raw, Plain r)
    (previous : String) : Fails (Refused permits) (verifyEntries previous raw) := by
  induction raw generalizing previous with
  | nil => exact Fails.ok
  | cons r raw ih =>
    obtain ⟨first, rest⟩ := List.forall_mem_cons.mp plain
    apply (verifyEntry_fails first).bind
    intro e
    apply (ih rest e.1).bind
    intro entries
    exact Fails.ok

/-- The entries of a manifest. -/
def rawEntries (manifest : Json) : List Json :=
  match manifest.get? "entries" with
  | some (.arr raw) => raw
  | _ => []

theorem readManifest_fails {permits : Prop} {repository : String} {manifest : Json}
    (plain : ∀ raw ∈ rawEntries manifest, Plain raw) :
    Fails (Refused permits) (readManifest repository manifest) := by
  simp only [readManifest]
  split
  · exact refuse_fails
  split
  · exact refuse_fails
  split
  · exact refuse_fails
  split
  · exact refuse_fails
  split
  · rename_i raw listed
    apply (verifyEntries_fails (by simpa [rawEntries, listed] using plain) "").bind
    exact fun _ => Fails.ok
  · exact refuse_fails

/-- The system refuses nothing: every folder opens, every file can be read, and every path can be
looked up. -/
structure Permits (host : Host) (tree : Node) : Prop where
  folder : tree.isFolder = true
  folders : ∀ y ∈ tree.folders [], y.2.2 = true
  files : ∀ x ∈ tree.leaves [], ∀ mode content, x.2 ≠ .file mode false content
  absent : ∀ ps, host.absentRefused ps = false
  follow : ∀ ps, (host.follow ps).isSome = true

theorem checkPlaceholder_fails {host : Host} {tree : Node} {path : String} :
    Fails (Refused (Permits host tree)) (checkPlaceholder host tree path) := by
  simp only [checkPlaceholder]
  split
  · exact Fails.ok
  · split
    · rename_i denied
      refine Fails.error (Or.inr ⟨rfl, fun permits => ?_⟩)
      simpa [denied] using permits.follow (pathParts path.toList)
    · exact refuse_fails
    · exact Fails.ok
  · exact refuse_fails
  · split
    · rename_i denied
      refine Fails.error (Or.inr ⟨rfl, fun permits => ?_⟩)
      simp [permits.absent] at denied
    · exact Fails.ok
  · split
    · rename_i denied
      refine Fails.error (Or.inr ⟨rfl, fun permits => ?_⟩)
      simpa [denied] using permits.follow (pathParts path.toList)
    · split
      · exact Fails.ok
      · exact refuse_fails
    · exact Fails.ok

theorem checkEntry_fails {host : Host} {tree : Node} {actual : List (Path × Node)} {e : String × Listed}
    (leaves : ∀ x ∈ actual, x ∈ tree.leaves [])
    (present : isGitlink e.2 = false → e.1 ∈ actual.map fun x => posix x.1) :
    Fails (Refused (Permits host tree)) (checkEntry host tree actual e) := by
  obtain ⟨path, l⟩ := e
  have looked (plain : isGitlink l = false) : lookup actual path ≠ none := by
    obtain ⟨x, member, same⟩ := List.mem_map.mp (present plain)
    intro absent
    simpa [same] using List.find?_eq_none.mp absent x member
  cases l with
  | gitlink commit => exact checkPlaceholder_fails
  | symlink target =>
    simp only [checkEntry]
    split
    · rename_i absent
      exact absurd absent (looked rfl)
    · split
      · exact Fails.ok
      · exact refuse_fails
    · exact refuse_fails
  | file executable digest =>
    simp only [checkEntry]
    split
    · rename_i absent
      exact absurd absent (looked rfl)
    · rename_i p mode readable content found
      split
      · exact refuse_fails
      split
      · rename_i denied
        refine Fails.error (Or.inr ⟨rfl, fun permits => ?_⟩)
        have closed : readable = false := by simpa using denied
        subst closed
        exact permits.files _ (leaves _ (lookup_eq found).1) mode content rfl
      split
      · exact refuse_fails
      · exact Fails.ok
    · exact refuse_fails

theorem scanTree_fails {host : Host} {mode : ℕ} {opens : Bool} {children : List (Name × Node)} :
    Fails (Refused (Permits host (.folder mode opens children))) (scanTree (.folder mode opens children)) := by
  refine Fails.imp scanLoop_fails fun e refused => refused.weaken fun permits => ?_
  obtain ⟨own, below⟩ := List.forall_mem_cons.mp permits.folders
  intro p member
  rw [List.mem_singleton.mp member]
  exact ⟨own, below⟩

theorem verifyTree_fails {host : Host} {mode : ℕ} {opens : Bool} {children : List (Name × Node)}
    {entries : List (String × Listed)} : Fails (Refused (Permits host (.folder mode opens children)))
      (verifyTree host (.folder mode opens children) entries) := by
  intro e failed
  rcases bind_error.mp failed with failed | ⟨found, scanned, failed⟩
  · exact scanTree_fails e failed
  · obtain ⟨leaves, _⟩ := scanTree_found scanned
    split at failed
    · exact refuse_fails e failed
    simp only at failed
    split at failed
    · exact refuse_fails e failed
    · rename_i same
      obtain ⟨_, covered⟩ := not_not.mp same
      refine Fails.forM (fun entry member => ?_) e failed
      apply checkEntry_fails fun x => (leaves x).mp
      intro plain
      exact (List.mem_filter.mp (covered (mem_expected.mpr ⟨entry, member, plain, rfl⟩))).1

theorem loadManifest_fails {host : Host} {mode : ℕ} {opens : Bool} {children : List (Name × Node)}
    (within : ∀ bytes ∈ manifestBytes (.folder mode opens children), ∀ text ∈ decodeUtf8 bytes,
      host.exceeds text = false) :
    Fails (Refused (Permits host (.folder mode opens children))) (loadManifest host opens children) := by
  simp only [loadManifest]
  split
  · rename_i closed
    refine Fails.error (Or.inr ⟨rfl, fun permits => ?_⟩)
    have own := (List.forall_mem_cons.mp permits.folders).1
    simp_all
  split
  · exact refuse_fails
  · rename_i found
    split
    · exact refuse_fails
    split
    · exact refuse_fails
    split
    · exact refuse_fails
    rename_i text decoded
    split
    · rename_i beyond
      have limit := within _ (by simp [manifestBytes, found, contentOf]) text decoded
      simp [limit] at beyond
    split
    · exact refuse_fails
    · exact Fails.ok
    · exact refuse_fails
  · exact refuse_fails

/-- What is not accepted is refused with a `ManifestError`, or with an `OSError` of the system, where
the manifest is within the decoder's limits and the types and modes of its entries can be looked up. -/
theorem verifyManifest_fails {host : Host} {repository : String} {tree : Node}
    (within : ∀ bytes ∈ manifestBytes tree, ∀ text ∈ decodeUtf8 bytes, host.exceeds text = false)
    (plain : ∀ bytes ∈ manifestBytes tree, ∀ text ∈ decodeUtf8 bytes,
      ∀ manifest ∈ JsonText.loads host.float text, ∀ raw ∈ rawEntries manifest, Plain raw) :
    Fails (Refused (Permits host tree)) (verifyManifest host repository tree) := by
  cases tree with
  | folder mode opens children =>
    intro e failed
    rcases bind_error.mp failed with failed | ⟨manifest, loaded, failed⟩
    · exact loadManifest_fails within e failed
    obtain ⟨text, decoded, value⟩ := Option.bind_eq_some_iff.mp (loadManifest_ok mode loaded)
    obtain ⟨bytes, found, decoded⟩ := Option.bind_eq_some_iff.mp decoded
    rcases bind_error.mp failed with failed | ⟨⟨commit, entries⟩, read, failed⟩
    · exact readManifest_fails (plain bytes found text decoded manifest value) e failed
    rcases bind_error.mp failed with failed | ⟨_, verified, failed⟩
    · exact verifyTree_fails e failed
    · cases failed
  | _ =>
    apply Fails.error
    refine Or.inr ⟨rfl, fun permits => ?_⟩
    cases permits.folder

end PlatformConfig.ExportManifest
