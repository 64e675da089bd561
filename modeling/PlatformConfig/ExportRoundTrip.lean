import PlatformConfig.ExportExactness

/-!
# Exporting a Git tree

The archive of a Git tree is extracted, its manifest is created, and the export is accepted with the
commit it was made from.
-/
namespace PlatformConfig.ExportManifest

open CanonicalJson FileTree RecordText
open FailoverPlan (bind_ok)

/-! ## Git trees -/

inductive Kind
  | regular
  | executable
  | symlink
  | gitlink
  deriving DecidableEq

def Kind.mode : Kind → String
  | regular => "100644"
  | executable => "100755"
  | symlink => "120000"
  | gitlink => "160000"

def Kind.object : Kind → String
  | gitlink => "commit"
  | _ => "blob"

/-- An entry of a Git tree. -/
structure GitEntry where
  path : Path
  below : path ≠ []
  kind : Kind
  id : Text
  object : isCommit id = true

/-- A commit with the entries of its tree, below all directories. -/
structure GitTree where
  commit : Text
  head : isCommit commit = true
  entries : List GitEntry
  distinct : (entries.map GitEntry.path).Nodup

/-- What stands before the tab. -/
def GitEntry.metadata (e : GitEntry) : Text :=
  e.kind.mode.toList ++ ' ' :: (e.kind.object.toList ++ ' ' :: e.id)

def GitEntry.line (e : GitEntry) : Bytes := encode e.metadata ++ 9 :: utf8 (posixText e.path)

/-- `git ls-tree -rz` -/
def lsTree (g : GitTree) : Bytes := g.entries.flatMap fun e => e.line ++ [0]

def GitEntry.record (e : GitEntry) : Record :=
  ⟨posix e.path, e.kind.mode, e.kind.object, String.ofList e.id⟩

/-- Git answers for a tree, from its worktree root. -/
structure Answers (g : GitTree) (source : Source) : Prop where
  root : ∃ bytes text, source.topLevel = some bytes ∧ decodeUtf8 bytes = some text ∧
    source.resolve text = some source.path
  head : source.head = some (encode (g.commit ++ ['\n']))
  records : source.records = some (lsTree g)

def KindOf : Kind → Node → Prop
  | .regular, .file _ readable _ => readable = true
  | .executable, .file _ readable _ => readable = true
  | .symlink, .link _ => True
  | _, _ => False

/-- A directory that holds the extracted archive of a tree: a file or link for each entry, a directory
for each gitlink, and no directory that leads to none of them. -/
structure Extracted (g : GitTree) (tree : Node) : Prop where
  folder : tree.isFolder = true
  wellFormed : tree.WellFormed
  held : ∀ e ∈ g.entries, e.kind ≠ .gitlink → e.path ∈ (tree.leaves []).map Prod.fst
  only : ∀ x ∈ tree.leaves [], ∃ e ∈ g.entries, e.path = x.1 ∧ KindOf e.kind x.2
  placeholders : ∀ e ∈ g.entries, e.kind = .gitlink → tree.FolderAt (parts e.path)
  opens : ∀ y ∈ tree.folders [], y.2.2 = true
  prefixes : ∀ y ∈ tree.folders [], y.1 = [] ∨ ∃ e ∈ g.entries, y.1 <+: e.path

/-- No entry is or lies below the name of the manifest. -/
def Unreserved (g : GitTree) : Prop := ∀ e ∈ g.entries, e.path.head? ≠ some manifestName

/-- The target of each link is text. -/
def TextTargets (tree : Node) : Prop := ∀ x ∈ tree.leaves [], x.2 ≠ .link none

/-! ## The records of Git -/

theorem hex_ascii {c : Char} (h : isHex c = true) : 47 < c.toNat ∧ c.toNat < 103 := by
  simp only [isHex, Char.isDigit, Bool.or_eq_true, Bool.and_eq_true, decide_eq_true_eq, Char.le_def,
    UInt32.le_iff_toNat_le, ge_iff_le] at h
  have digits : '0'.val.toNat = 48 ∧ '9'.val.toNat = 57 := by decide
  have letters : 'a'.val.toNat = 97 ∧ 'f'.val.toNat = 102 := by decide
  simp only [Char.toNat]
  omega

theorem commit_hex {t : Text} (h : isCommit t = true) : ∀ c ∈ t, isHex c = true := by
  simp only [isCommit, Bool.and_eq_true] at h
  exact List.all_eq_true.mp h.2

theorem kind_plain (k : Kind) : (∀ c ∈ k.mode.toList, 32 < c.toNat ∧ c.toNat < 128) ∧
    ∀ c ∈ k.object.toList, 32 < c.toNat ∧ c.toNat < 128 := by
  cases k <;> simp [Kind.mode, Kind.object]

theorem metadata_plain (e : GitEntry) : ∀ c ∈ e.metadata, 31 < c.toNat ∧ c.toNat < 128 := by
  obtain ⟨mode, object⟩ := kind_plain e.kind
  intro c member
  simp only [GitEntry.metadata, List.mem_append, List.mem_cons] at member
  have blank : ' '.toNat = 32 := rfl
  rcases member with inside | rfl | inside | rfl | inside
  · have := mode c inside
    omega
  · omega
  · have := object c inside
    omega
  · omega
  · have := hex_ascii (commit_hex e.object c inside)
    omega

theorem metadata_parts (e : GitEntry) :
    e.metadata.splitOn ' ' = [e.kind.mode.toList, e.kind.object.toList, e.id] := by
  obtain ⟨mode, object⟩ := kind_plain e.kind
  have blank : ' '.toNat = 32 := rfl
  have free : ' ' ∉ e.kind.mode.toList := by
    intro inside
    have := mode ' ' inside
    omega
  have free' : ' ' ∉ e.kind.object.toList := by
    intro inside
    have := object ' ' inside
    omega
  have free'' : ' ' ∉ e.id := by
    intro inside
    have := hex_ascii (commit_hex e.object ' ' inside)
    omega
  rw [GitEntry.metadata, List.splitOn_append_cons_self_of_not_mem free,
    List.splitOn_append_cons_self_of_not_mem free', List.splitOn_eq_singleton free'']

theorem encode_free {t : Text} {b : UInt8} (plain : ∀ c ∈ t, 31 < c.toNat ∧ c.toNat < 128) (low : b ≤ 31) :
    b ∉ encode t := by
  intro member
  obtain ⟨c, inside, rfl⟩ := List.mem_map.mp member
  have bounds := plain c inside
  have small := UInt8.le_iff_toNat_le.mp low
  simp at small
  omega

theorem pathParts_posixText {p : Path} (below : p ≠ []) : pathParts (posixText p) = parts p := by
  rw [pathParts, splitOn_posixText below]
  apply List.filter_eq_self.mpr
  intro part member
  obtain ⟨name, _, rfl⟩ := List.mem_map.mp member
  simp [name.nonempty, name.proper.1]

theorem validPath_posix {p : Path} (below : p ≠ []) (free : p ≠ [manifestName]) :
    validPath (posix p) = .ok (posix p) := by
  have text : (posix p).toList = posixText p := String.toList_ofList
  have dots : ¬ (pathParts (posixText p)).any (· = ['.', '.']) = true := by
    rw [pathParts_posixText below]
    intro some_
    obtain ⟨part, member, double⟩ := List.any_eq_true.mp some_
    obtain ⟨name, _, same⟩ := List.mem_map.mp member
    exact name.proper.2 (same.trans (of_decide_eq_true double))
  have plain : posix p ≠ manifestPath := fun same => free (posix_inj below (by simp) same)
  simp only [validPath, text]
  rw [if_neg, if_neg, if_neg plain]
  · rintro (slash | double)
    · exact posixText_head below slash
    · exact dots double
  · rintro (empty | null)
    · exact posixText_ne_nil below empty
    · exact posixText_clean p null

theorem parseRecord_line {e : GitEntry} (free : e.path ≠ [manifestName]) :
    parseRecord e.line = .ok e.record := by
  have plain := metadata_plain e
  have free_tab : ∀ b ∈ encode e.metadata, decide (b ≠ 9) = true := by
    intro b member
    rw [decide_eq_true_eq]
    rintro rfl
    exact encode_free plain (by decide) member
  have cut : e.line.span (· ≠ 9) = (encode e.metadata, 9 :: utf8 (posixText e.path)) := by
    rw [List.span_eq_takeWhile_dropWhile, GitEntry.line, List.takeWhile_append_of_pos free_tab,
      List.dropWhile_append_of_pos free_tab]
    simp
  have ascii : decode (encode e.metadata) = some e.metadata :=
    decode_encode fun c inside => (plain c inside).2
  simp only [parseRecord, cut, ascii, Option.map_some, metadata_parts, decodeUtf8_utf8]
  rw [← posix, validPath_posix e.below free]
  simp [GitEntry.record, String.ofList_toList]

theorem record_supported (e : GitEntry) :
    e.record.mode ∈ ["100644", "100755", "120000", "160000"] ∧
      (e.record.mode = "160000" ↔ e.record.kind = "commit") ∧
      (e.record.mode ≠ "160000" → e.record.kind = "blob") := by
  cases kind : e.kind <;> simp [GitEntry.record, kind, Kind.mode, Kind.object]

theorem checkRecord_line {e : GitEntry} (free : e.path ≠ [manifestName]) :
    checkRecord e.line = .ok e.record := by
  rw [checkRecord, parseRecord_line free]
  obtain ⟨supported, placeholder, blob⟩ := record_supported e
  simp only [bind, Except.bind]
  rw [if_neg (not_not.mpr supported), if_neg (not_not.mpr (propext placeholder)), if_neg]
  · rfl
  · exact fun other => other.2 (blob other.1)

theorem line_clean (e : GitEntry) : 0 ∉ e.line := by
  intro member
  rcases List.mem_append.mp member with inside | inside
  · exact encode_free (metadata_plain e) (by decide) inside
  · rcases List.mem_cons.mp inside with tab | inside
    · exact absurd tab (by decide)
    · exact utf8_clean (posixText_clean e.path) inside

/-- The records of the output are the entries of the tree. -/
theorem split_lsTree (g : GitTree) :
    ((lsTree g).splitOn 0).filter (· ≠ []) = g.entries.map GitEntry.line := by
  have cut (es : List GitEntry) :
      (es.flatMap fun e => e.line ++ [0]).splitOn 0 = es.map GitEntry.line ++ [[]] := by
    induction es with
    | nil => rfl
    | cons e es ih =>
      rw [List.flatMap_cons, List.append_assoc, List.singleton_append,
        List.splitOn_append_cons_self_of_not_mem (line_clean e), ih]
      rfl
  rw [lsTree, cut, List.filter_append, List.filter_eq_self.mpr]
  · simp
  · intro line member
    obtain ⟨e, _, rfl⟩ := List.mem_map.mp member
    simp [GitEntry.line]

theorem mapM_ok {α β ε : Type} {f : α → Except ε β} {g : α → β} {xs : List α}
    (h : ∀ x ∈ xs, f x = .ok (g x)) : xs.mapM f = .ok (xs.map g) := by
  induction xs with
  | nil => rfl
  | cons x xs ih =>
    obtain ⟨first, rest⟩ := List.forall_mem_cons.mp h
    rw [List.mapM_cons, first, ih rest]
    rfl

/-- The records are read back from what Git prints. -/
theorem records_read (g : GitTree) (free : Unreserved g) :
    (((lsTree g).splitOn 0).filter (· ≠ [])).mapM checkRecord = .ok (g.entries.map GitEntry.record) := by
  rw [split_lsTree, List.mapM_map]
  apply mapM_ok
  intro e member
  apply checkRecord_line
  intro own
  exact free e member (by simp [own])

/-- The line with a commit is the commit without its end. -/
theorem strip_commit {t : Text} (h : isCommit t = true) : strip (t ++ ['\n']) = t := by
  have solid : ∀ c ∈ t, TextScan.isBlank c = false := by
    intro c member
    have high := (hex_ascii (commit_hex h c member)).1
    have above : ¬ c.toNat ≤ 13 ∧ ¬ c.toNat ≤ 32 := by omega
    simp [TextScan.isBlank, above]
  have front {u : Text} (solid : ∀ c ∈ u, TextScan.isBlank c = false) (r : Text) (some_ : u ≠ []) :
      (u ++ r).dropWhile TextScan.isBlank = u ++ r := by
    obtain ⟨c, u, rfl⟩ := List.exists_cons_of_ne_nil some_
    rw [List.cons_append, List.dropWhile_cons, solid c List.mem_cons_self, if_neg Bool.false_ne_true]
  have some_ : t ≠ [] := by
    rintro rfl
    simp [isCommit] at h
  have back : t.reverse.dropWhile TextScan.isBlank = t.reverse := by
    have := front (fun c member => solid c (List.mem_reverse.mp member)) [] (by simpa using some_)
    simpa using this
  rw [strip, front solid _ some_, List.reverse_append, List.reverse_singleton, List.singleton_append,
    List.dropWhile_cons_of_pos (by decide), back, List.reverse_reverse]

/-! ## The entries of the manifest -/

/-- What stands in the manifest for an entry of the tree. -/
def listedOf (host : Host) (actual : List (Path × Node)) (e : GitEntry) : Listed :=
  match e.kind, (lookup actual (posix e.path)).map Prod.snd with
  | .gitlink, _ => .gitlink e.id
  | .symlink, some (.link (some target)) => .symlink target
  | .regular, some (.file _ _ content) => .file false (host.sha256 content).1
  | .executable, some (.file _ _ content) => .file true (host.sha256 content).1
  | _, _ => .symlink ""

def listedJson (path : String) : Listed → Json
  | .file executable digest => .obj [("mode", .str (if executable then "100755" else "100644")),
      ("path", .str path), ("sha256", .str (String.ofList digest)), ("type", .str "file")]
  | .symlink target => .obj [("mode", .str "120000"), ("path", .str path), ("target", .str target),
      ("type", .str "symlink")]
  | .gitlink commit => .obj [("commit", .str (String.ofList commit)), ("mode", .str "160000"),
      ("path", .str path), ("type", .str "gitlink")]

/-- The change of mode that an entry of the tree leads to. -/
def GitEntry.touch (e : GitEntry) : List (ℕ × Path) :=
  match e.kind with
  | .regular => [(exportMode false, e.path)]
  | .executable => [(exportMode true, e.path)]
  | _ => []

/-- The entry has its file or link among the scanned ones. -/
def Present (actual : List (Path × Node)) (e : GitEntry) : Prop :=
  e.kind ≠ .gitlink → ∃ n, lookup actual (posix e.path) = some (e.path, n) ∧ KindOf e.kind n ∧ n ≠ .link none

theorem sourceEntry_ok {host : Host} {actual : List (Path × Node)} {e : GitEntry} (present : Present actual e)
    (tree : Node) : sourceEntry host actual e.record tree =
      .ok (listedJson (posix e.path) (listedOf host actual e), Node.applyModes e.touch tree) := by
  cases kind : e.kind with
  | gitlink => simp [sourceEntry, GitEntry.record, kind, Kind.mode, listedOf, listedJson, GitEntry.touch,
      Node.applyModes]
  | symlink =>
    obtain ⟨n, looked, kindOf, text⟩ := present (by simp [kind])
    rw [kind] at kindOf
    cases n with
    | link target =>
      cases target with
      | none => exact absurd rfl text
      | some target => simp [sourceEntry, GitEntry.record, kind, Kind.mode, listedOf, listedJson, looked,
          GitEntry.touch, Node.applyModes]
    | _ => cases kindOf
  | regular =>
    obtain ⟨n, looked, kindOf, _⟩ := present (by simp [kind])
    rw [kind] at kindOf
    cases n with
    | file mode readable content =>
      cases kindOf
      simp [sourceEntry, GitEntry.record, kind, Kind.mode, listedOf, listedJson, looked, GitEntry.touch,
        Node.applyModes]
    | _ => cases kindOf
  | executable =>
    obtain ⟨n, looked, kindOf, _⟩ := present (by simp [kind])
    rw [kind] at kindOf
    cases n with
    | file mode readable content =>
      cases kindOf
      simp [sourceEntry, GitEntry.record, kind, Kind.mode, listedOf, listedJson, looked, GitEntry.touch,
        Node.applyModes]
    | _ => cases kindOf

theorem sourceList_ok {host : Host} {actual : List (Path × Node)} {es : List GitEntry}
    (present : ∀ e ∈ es, Present actual e) (tree : Node) :
    sourceList host actual (es.map GitEntry.record) tree =
      .ok (es.map fun e => listedJson (posix e.path) (listedOf host actual e),
        Node.applyModes (es.flatMap GitEntry.touch) tree) := by
  induction es generalizing tree with
  | nil => rfl
  | cons e es ih =>
    obtain ⟨first, rest⟩ := List.forall_mem_cons.mp present
    rw [List.map_cons, sourceList, sourceEntry_ok first]
    simp only [bind, Except.bind]
    rw [ih rest]
    simp [pure, Except.pure, Node.applyModes]

/-- What can be written for an entry and read back. -/
def Representable : Listed → Prop
  | .file _ digest => isDigest digest = true
  | .symlink _ => True
  | .gitlink commit => isCommit commit = true

theorem listedOf_representable (host : Host) (actual : List (Path × Node)) (e : GitEntry) :
    Representable (listedOf host actual e) := by
  unfold listedOf
  split
  · exact e.object
  · trivial
  · exact (host.sha256 _).2
  · exact (host.sha256 _).2
  · trivial

theorem verifyEntry_listed {p : Path} {l : Listed} {previous : String} (below : p ≠ [])
    (free : p ≠ [manifestName]) (good : Representable l) (above : previous < posix p) :
    verifyEntry previous (listedJson (posix p) l) = .ok (posix p, l) := by
  have ascending : ¬ posix p ≤ previous := not_le.mpr above
  have path := validPath_posix below free
  cases l with
  | file executable digest =>
    have digest_ : isDigest digest = true := good
    cases executable <;>
      simp [verifyEntry, listedJson, entryPath, Json.get?, path, ascending, isHashable, fileEntry,
        stringAt, Json.str?, Option.filter, digest_, bind, Except.bind, pure, Except.pure, List.lookup]
  | symlink target =>
    simp [verifyEntry, listedJson, entryPath, Json.get?, path, ascending, isHashable, symlinkEntry,
      stringAt, Json.str?, bind, Except.bind, pure, Except.pure, List.lookup]
  | gitlink commit =>
    have commit_ : isCommit commit = true := good
    simp [verifyEntry, listedJson, entryPath, Json.get?, path, ascending, isHashable, gitlinkEntry,
      stringAt, Json.str?, commit_, bind, Except.bind, pure, Except.pure, List.lookup]

theorem verifyEntries_listed {host : Host} {actual : List (Path × Node)} {es : List GitEntry}
    {previous : String} (free : ∀ e ∈ es, e.path ≠ [manifestName])
    (above : ∀ e ∈ es, previous < posix e.path)
    (ascending : es.Pairwise fun a b => posix a.path < posix b.path) :
    verifyEntries previous (es.map fun e => listedJson (posix e.path) (listedOf host actual e)) =
      .ok (es.map fun e => (posix e.path, listedOf host actual e)) := by
  induction es generalizing previous with
  | nil => rfl
  | cons e es ih =>
    obtain ⟨free, frees⟩ := List.forall_mem_cons.mp free
    obtain ⟨later, ascending⟩ := List.pairwise_cons.mp ascending
    rw [List.map_cons, verifyEntries,
      verifyEntry_listed e.below free (listedOf_representable host actual e) (above e List.mem_cons_self)]
    simp only [bind, Except.bind]
    rw [ih frees later ascending]
    rfl

/-! ## The order of the entries -/

def GitTree.sorted (g : GitTree) : List GitEntry :=
  g.entries.insertionSort fun a b => a.record.key ≤ b.record.key

theorem sorted_records (g : GitTree) :
    (g.entries.map GitEntry.record).insertionSort (fun a b => a.key ≤ b.key) = g.sorted.map GitEntry.record :=
  (List.map_insertionSort _ _ GitEntry.record g.entries fun _ _ _ _ => Iff.rfl).symm

theorem sorted_perm (g : GitTree) : g.sorted.Perm g.entries := List.perm_insertionSort _ _

theorem mem_sorted {g : GitTree} {e : GitEntry} : e ∈ g.sorted ↔ e ∈ g.entries := (sorted_perm g).mem_iff

/-- The paths of the sorted entries ascend. -/
theorem sorted_ascending (g : GitTree) : g.sorted.Pairwise fun a b => posix a.path < posix b.path := by
  have keys : (g.sorted.map fun e => e.record.key) =
      (g.entries.map fun e => e.record.key).insertionSort (· ≤ ·) :=
    List.map_insertionSort _ _ (fun e : GitEntry => e.record.key) g.entries fun _ _ _ _ => Iff.rfl
  have ordered : g.sorted.Pairwise fun a b => a.record.key ≤ b.record.key := by
    rw [← List.pairwise_map (f := fun e : GitEntry => e.record.key), keys]
    exact List.pairwise_insertionSort _ _
  have distinct : (g.sorted.map GitEntry.path).Nodup := ((sorted_perm g).map _).nodup_iff.mpr g.distinct
  refine ordered.imp₂ ?_ (List.pairwise_map.mp distinct)
  intro a b le other
  rcases Prod.Lex.toLex_le_toLex.mp le with lt | ⟨same, _⟩
  · exact lt
  · exact absurd (posix_inj a.below b.below same) other

/-! ## The scanned tree -/

/-- A leaf is looked up by its path. -/
theorem lookup_of_leaf {tree : Node} {found : Found} (scanned : scanTree tree = .ok found)
    (distinct : ((tree.leaves []).map Prod.fst).Nodup) (below : ∀ x ∈ tree.leaves [], x.1 ≠ [])
    {x : Path × Node} (leaf : x ∈ tree.leaves []) : lookup found.entries (posix x.1) = some x := by
  obtain ⟨leaves, _⟩ := scanTree_found scanned
  cases looked : lookup found.entries (posix x.1) with
  | none =>
    have absent := List.find?_eq_none.mp looked x ((leaves x).mpr leaf)
    simp at absent
  | some y =>
    obtain ⟨member, path⟩ := lookup_eq looked
    have leaf' := (leaves y).mp member
    rw [List.inj_on_of_nodup_map distinct leaf' leaf (posix_inj (below y leaf') (below x leaf) path)]

section Archive
variable {host : Host} {g : GitTree} {source : Source} {mode : ℕ} {opens : Bool}
  {children : List (Name × Node)} {found : Found}

theorem entry_unique {a b : GitEntry} (left : a ∈ g.entries) (right : b ∈ g.entries)
    (same : a.path = b.path) : a = b :=
  List.inj_on_of_nodup_map g.distinct left right same

theorem present_of_extracted (extracted : Extracted g (.folder mode opens children))
    (targets : TextTargets (.folder mode opens children))
    (scanned : scanTree (.folder mode opens children) = .ok found) {e : GitEntry} (member : e ∈ g.entries) :
    Present found.entries e := by
  intro plain
  obtain ⟨x, leaf, path⟩ := List.mem_map.mp (extracted.held e member plain)
  obtain ⟨e', member', path', kind⟩ := extracted.only x leaf
  obtain rfl := entry_unique member' member (path'.trans path)
  have looked := lookup_of_leaf scanned (Node.leaves_nodup _ [] extracted.wellFormed)
    (fun _ => leaf_ne_nil) leaf
  rw [path] at looked
  refine ⟨x.2, ?_, kind, targets x leaf⟩
  rw [looked, ← path]

/-- The scan of an extracted archive passes. -/
theorem scan_extracted (extracted : Extracted g (.folder mode opens children)) :
    ∃ found, scanTree (.folder mode opens children) = .ok found := by
  apply scanTree_passes _ extracted.opens
  intro x leaf special
  obtain ⟨e, _, _, kind⟩ := extracted.only x leaf
  rw [special] at kind
  cases kind' : e.kind <;> simp [kind', KindOf] at kind

theorem mode_gitlink (e : GitEntry) : e.record.mode = "160000" ↔ e.kind = .gitlink := by
  cases kind : e.kind <;> simp [GitEntry.record, kind, Kind.mode]

/-- The files and links of an extracted archive are those that Git names. -/
theorem archive_matches (extracted : Extracted g (.folder mode opens children))
    (scanned : scanTree (.folder mode opens children) = .ok found) (path : String) :
    path ∈ found.entries.map (fun x => posix x.1) ↔
      path ∈ ((g.entries.map GitEntry.record).filter fun r => r.mode ≠ "160000").map Record.path := by
  obtain ⟨leaves, _⟩ := scanTree_found scanned
  simp only [List.mem_map, List.mem_filter, decide_eq_true_eq]
  constructor
  · rintro ⟨x, member, rfl⟩
    obtain ⟨e, member', path, kind⟩ := extracted.only x ((leaves x).mp member)
    refine ⟨e.record, ⟨⟨e, member', rfl⟩, ?_⟩, by simp [GitEntry.record, path]⟩
    intro placeholder
    rw [(mode_gitlink e).mp placeholder] at kind
    exact kind
  · rintro ⟨r, ⟨⟨e, member, rfl⟩, plain⟩, rfl⟩
    obtain ⟨x, leaf, path⟩ := List.mem_map.mp (extracted.held e member (mt (mode_gitlink e).mpr plain))
    exact ⟨x, (leaves x).mpr leaf, by simp [GitEntry.record, path]⟩

/-- The changes of mode: all directories, then the files. -/
def modeChanges (found : Found) (g : GitTree) : List (ℕ × Path) :=
  (0o700, []) :: found.directories.map (fun d => (0o700, d.1)) ++ g.sorted.flatMap GitEntry.touch

def manifestOf (host : Host) (repository : String) (g : GitTree) (found : Found) : Json :=
  manifestJson repository g.commit
    (g.sorted.map fun e => listedJson (posix e.path) (listedOf host found.entries e))

theorem sourceEntries_ok (answers : Answers g source) (extracted : Extracted g (.folder mode opens children))
    (free : Unreserved g) (targets : TextTargets (.folder mode opens children))
    (scanned : scanTree (.folder mode opens children) = .ok found) :
    sourceEntries host source (.folder mode opens children) =
      .ok (g.commit, g.sorted.map fun e => listedJson (posix e.path) (listedOf host found.entries e),
        Node.applyModes (modeChanges found g) (.folder mode opens children)) := by
  obtain ⟨bytes, text, topLevel, decoded_, resolved⟩ := answers.root
  have ascii : decode (encode (g.commit ++ ['\n'])) = some (g.commit ++ ['\n']) := by
    apply decode_encode
    intro c inside
    rcases List.mem_append.mp inside with hex | last
    · have := hex_ascii (commit_hex g.head c hex)
      omega
    · rw [List.mem_singleton.mp last]
      decide
  have same : found.entries.map (fun x => posix x.1) ⊆
        ((g.entries.map GitEntry.record).filter fun r => r.mode ≠ "160000").map Record.path ∧
      ((g.entries.map GitEntry.record).filter fun r => r.mode ≠ "160000").map Record.path ⊆
        found.entries.map (fun x => posix x.1) :=
    ⟨fun path => (archive_matches extracted scanned path).mp,
      fun path => (archive_matches extracted scanned path).mpr⟩
  have listed := @sourceList_ok host found.entries g.sorted
    (fun e member => present_of_extracted extracted targets scanned (mem_sorted.mp member))
  have touched : (found.directories.map Prod.fst).foldl (fun t p => Node.chmod 0o700 p t)
      (Node.chmod 0o700 [] (.folder mode opens children)) =
        Node.applyModes ((0o700, []) :: found.directories.map fun d => (0o700, d.1)) (.folder mode opens children) := by
    simp only [Node.applyModes, List.foldl_cons, List.foldl_map]
  have read := records_read g free
  simp only [ne_eq] at read same
  simp only [sourceEntries, topLevel, output, decoded, decoded_, resolved, answers.head, answers.records, ascii,
    strip_commit g.head, g.head, bind, Except.bind, pure, Except.pure, ne_eq, not_true_eq_false, if_false,
    Bool.not_true, Bool.false_eq_true]
  rw [read]
  simp only [scanned]
  rw [if_neg (not_not.mpr same), sorted_records, touched, listed]
  simp only [Node.applyModes, modeChanges, List.foldl_append]

/-- The changes of mode keep a folder and the names in it. -/
theorem applyModes_folder (ops : List (ℕ × Path)) (mode : ℕ) (opens : Bool) (children : List (Name × Node)) :
    ∃ mode' children', Node.applyModes ops (.folder mode opens children) = .folder mode' opens children' ∧
      children'.map Prod.fst = children.map Prod.fst := by
  induction ops generalizing mode children with
  | nil => exact ⟨mode, children, rfl, rfl⟩
  | cons op ops ih =>
    obtain ⟨m, p⟩ := op
    cases p with
    | nil => exact ih m children
    | cons name p =>
      obtain ⟨mode', children', changed, names⟩ :=
        ih mode (children.map fun c => if c.1 = name then (c.1, c.2.chmod m p) else c)
      refine ⟨mode', children', changed, names.trans ?_⟩
      rw [List.map_map]
      apply List.map_congr_left
      intro c _
      simp only [Function.comp_apply]
      split <;> rfl

/-- Nothing has the name of the manifest. -/
theorem manifest_absent (extracted : Extracted g (.folder mode opens children)) (free : Unreserved g) :
    ∀ c ∈ children, c.1 ≠ manifestName := by
  intro c member own
  obtain ⟨name, n⟩ := c
  subst own
  have inside {x : Path × Node} (leaf : x ∈ n.leaves [manifestName]) :
      x ∈ (Node.folder mode opens children).leaves [] := by
    rw [Node.leaves, Node.leavesIn_eq]
    exact List.mem_flatMap.mpr ⟨_, member, leaf⟩
  have refuted {x : Path × Node} (leaf : x ∈ n.leaves [manifestName]) (path : x.1 = [manifestName]) : False := by
    obtain ⟨e, member', path', _⟩ := extracted.only x (inside leaf)
    exact free e member' (by simp [path', path])
  cases n with
  | folder mode' opens' children' =>
    have folder : ([manifestName], mode', opens') ∈ (Node.folder mode opens children).folders [] := by
      rw [Node.folders, Node.foldersIn_eq]
      exact List.mem_cons_of_mem _ (List.mem_flatMap.mpr ⟨_, member, List.mem_cons_self⟩)
    rcases extracted.prefixes _ folder with root | ⟨e, member', rest, path⟩
    · cases root
    · exact free e member' (by simp [← path])
  | _ => exact refuted List.mem_cons_self rfl

/-- The exported tree. -/
def exported (host : Host) (repository : String) (g : GitTree) (found : Found) (tree : Node) : Node :=
  Node.insert manifestName
    (.file 0o600 true (utf8 (canonical (manifestOf host repository g found) ++ ['\n'])))
    (Node.applyModes (modeChanges found g) tree)

theorem createManifest_ok {repository : String} (answers : Answers g source)
    (extracted : Extracted g (.folder mode opens children)) (free : Unreserved g)
    (targets : TextTargets (.folder mode opens children))
    (scanned : scanTree (.folder mode opens children) = .ok found) :
    createManifest host repository source (.folder mode opens children) =
      .ok (exported host repository g found (.folder mode opens children)) := by
  have open_ : opens = true := extracted.opens ([], mode, opens) List.mem_cons_self
  have absent : (children.any fun c => c.1 = manifestName) = false := by
    simpa using manifest_absent extracted free
  simp only [createManifest, open_, Bool.not_true, Bool.false_eq_true, if_false, absent]
  subst open_
  rw [sourceEntries_ok answers extracted free targets scanned]
  rfl

/-! ## Verifying an exported tree -/

theorem leaves_exported {repository : String} : (exported host repository g found
    (.folder mode opens children)).leaves [] =
      ((Node.folder mode opens children).leaves []).map
        (fun x => (x.1, x.2.remode (Node.lastMode (modeChanges found g) x.1))) ++
      [([manifestName], .file 0o600 true
        (utf8 (canonical (manifestOf host repository g found) ++ ['\n'])))] := by
  rw [← Node.leaves_applyModes]
  obtain ⟨mode', children', changed, _⟩ := applyModes_folder (modeChanges found g) mode opens children
  rw [exported, changed, Node.leaves_insert]
  rfl

theorem folders_exported {repository : String} : (exported host repository g found
    (.folder mode opens children)).folders [] =
      ((Node.folder mode opens children).folders []).map
        (fun y => (y.1, Node.lastMode (modeChanges found g) y.1 y.2.1, y.2.2)) := by
  rw [← Node.folders_applyModes]
  obtain ⟨mode', children', changed, _⟩ := applyModes_folder (modeChanges found g) mode opens children
  rw [exported, changed, Node.folders_insert]
  simp [Node.folders]

/-- The changes for a file are those of its entry. -/
theorem lastMode_file {e : GitEntry} (member : e ∈ g.entries) {executable : Bool}
    (kind : e.kind = if executable then .executable else .regular) (k : ℕ) :
    Node.lastMode (modeChanges found g) e.path k = exportMode executable := by
  have own : e.touch = [(exportMode executable, e.path)] := by
    cases executable <;> simp_all [GitEntry.touch]
  apply Node.lastMode_eq
  · exact ⟨(exportMode executable, e.path),
      List.mem_flatMap.mpr ⟨e, mem_sorted.mpr member, by simp [own]⟩, rfl⟩
  · intro op inside path
    obtain ⟨e', member', touched⟩ := List.mem_flatMap.mp inside
    have path' : op.2 = e'.path := by
      cases kind' : e'.kind <;> simp_all [GitEntry.touch]
    obtain rfl := entry_unique (mem_sorted.mp member') member (path'.symm.trans path)
    rw [own, List.mem_singleton] at touched
    rw [touched]

/-- Every folder ends with mode 0700. -/
theorem lastMode_folder (extracted : Extracted g (.folder mode opens children))
    (scanned : scanTree (.folder mode opens children) = .ok found) {y : Path × ℕ × Bool}
    (folder : y ∈ (Node.folder mode opens children).folders []) (k : ℕ) :
    Node.lastMode (modeChanges found g) y.1 k = 0o700 := by
  obtain ⟨_, folders⟩ := scanTree_found scanned
  have listed : (y.1, y.2.1) ∈ found.directories := (folders _).mpr (List.mem_map.mpr ⟨y, folder, rfl⟩)
  apply @Node.lastMode_eq [] (modeChanges found g)
  · refine ⟨(0o700, y.1), ?_, rfl⟩
    simp only [modeChanges, List.mem_append, List.mem_cons, List.mem_map]
    exact Or.inl (Or.inr ⟨_, listed, rfl⟩)
  · intro op inside path
    simp only [modeChanges, List.mem_append, List.mem_cons, List.mem_map] at inside
    rcases inside with (rfl | ⟨d, _, rfl⟩) | touched
    · rfl
    · rfl
    · obtain ⟨e, member, touched⟩ := List.mem_flatMap.mp touched
      have path' : op.2 = e.path ∧ e.kind ≠ .gitlink := by
        cases kind : e.kind <;> simp_all [GitEntry.touch]
      obtain ⟨x, leaf, same⟩ := List.mem_map.mp (extracted.held e (mem_sorted.mp member) path'.2)
      exact absurd (same.trans (path'.1.symm.trans path))
        (Node.leaves_ne_folders _ [] extracted.wellFormed x leaf y folder)

theorem distinct_exported {repository : String} (extracted : Extracted g (.folder mode opens children))
    (free : Unreserved g) :
    (((exported host repository g found (.folder mode opens children)).leaves []).map Prod.fst).Nodup := by
  have paths : ((exported host repository g found (.folder mode opens children)).leaves []).map Prod.fst =
      ((Node.folder mode opens children).leaves []).map Prod.fst ++ [[manifestName]] := by
    rw [leaves_exported, List.map_append, List.map_map]
    rfl
  rw [paths, List.nodup_append]
  refine ⟨Node.leaves_nodup _ [] extracted.wellFormed, List.nodup_singleton _, ?_⟩
  intro p inside q manifest same
  obtain ⟨x, leaf, rfl⟩ := List.mem_map.mp inside
  obtain ⟨e, member, path, _⟩ := extracted.only x leaf
  exact free e member (by simp [path, same, List.mem_singleton.mp manifest])

/-- A leaf of the exported tree is one of the archive with its last mode, or the manifest. -/
theorem mem_exported {repository : String} {x : Path × Node} :
    x ∈ (exported host repository g found (.folder mode opens children)).leaves [] ↔
      (∃ n, (x.1, n) ∈ (Node.folder mode opens children).leaves [] ∧
        x.2 = n.remode (Node.lastMode (modeChanges found g) x.1)) ∨
      x = ([manifestName], .file 0o600 true
        (utf8 (canonical (manifestOf host repository g found) ++ ['\n']))) := by
  obtain ⟨p, n⟩ := x
  rw [leaves_exported, List.mem_append, List.mem_singleton, List.mem_map]
  constructor
  · rintro (⟨y, leaf, same⟩ | own)
    · cases same
      exact Or.inl ⟨y.2, leaf, rfl⟩
    · exact Or.inr own
  · rintro (⟨n', leaf, same⟩ | own)
    · exact Or.inl ⟨(p, n'), leaf, Prod.ext rfl same.symm⟩
    · exact Or.inr own

theorem below_exported {repository : String} {x : Path × Node}
    (leaf : x ∈ (exported host repository g found (.folder mode opens children)).leaves []) : x.1 ≠ [] := by
  rcases mem_exported.mp leaf with ⟨n, leaf, _⟩ | rfl
  · exact @leaf_ne_nil mode opens children (x.1, n) leaf
  · simp

theorem isGitlink_listedOf (actual : List (Path × Node)) (e : GitEntry) :
    isGitlink (listedOf host actual e) = true ↔ e.kind = .gitlink := by
  unfold listedOf
  split <;> simp_all [isGitlink]

theorem checkEntry_exported {repository : String} {found' : Found}
    (extracted : Extracted g (.folder mode opens children)) (free : Unreserved g)
    (targets : TextTargets (.folder mode opens children))
    (scanned : scanTree (.folder mode opens children) = .ok found)
    (scanned' : scanTree (exported host repository g found (.folder mode opens children)) = .ok found')
    {e : GitEntry} (member : e ∈ g.entries) :
    checkEntry host (exported host repository g found (.folder mode opens children)) found'.entries
      (posix e.path, listedOf host found.entries e) = .ok () := by
  have looked' (n : Node) (looked : lookup found.entries (posix e.path) = some (e.path, n)) :
      lookup found'.entries (posix e.path) =
        some (e.path, n.remode (Node.lastMode (modeChanges found g) e.path)) := by
    have leaf := ((scanTree_found scanned).1 _).mp (lookup_eq looked).1
    have leaf' : (e.path, n.remode (Node.lastMode (modeChanges found g) e.path)) ∈
        (exported host repository g found (.folder mode opens children)).leaves [] :=
      mem_exported.mpr (Or.inl ⟨n, leaf, rfl⟩)
    exact lookup_of_leaf scanned' (distinct_exported extracted free) (fun _ => below_exported) leaf'
  have present := present_of_extracted extracted targets scanned member
  cases kind : e.kind with
  | gitlink =>
    have folder : (exported host repository g found (.folder mode opens children)).FolderAt (parts e.path) :=
      Node.folderAt_insert (Node.folderAt_applyModes _ (extracted.placeholders e member kind)) _ _
    obtain ⟨mode', opens', children', located⟩ := folder
    have ps : pathParts (posix e.path).toList = parts e.path := by
      rw [posix, String.toList_ofList, pathParts_posixText e.below]
    simp [checkEntry, listedOf, kind, checkPlaceholder, ps, located]
  | symlink =>
    obtain ⟨n, looked, kindOf, text⟩ := present (by simp [kind])
    rw [kind] at kindOf
    cases n with
    | link target =>
      cases target with
      | none => exact absurd rfl text
      | some target => simp [checkEntry, listedOf, kind, looked, looked' _ looked, Node.remode]
    | _ => cases kindOf
  | regular =>
    obtain ⟨n, looked, kindOf, _⟩ := present (by simp [kind])
    have last := @lastMode_file g found e member false kind
    rw [kind] at kindOf
    cases n with
    | file mode readable content =>
      cases kindOf
      simp [checkEntry, listedOf, kind, looked, looked' _ looked, Node.remode, last]
    | _ => cases kindOf
  | executable =>
    obtain ⟨n, looked, kindOf, _⟩ := present (by simp [kind])
    have last := @lastMode_file g found e member true kind
    rw [kind] at kindOf
    cases n with
    | file mode readable content =>
      cases kindOf
      simp [checkEntry, listedOf, kind, looked, looked' _ looked, Node.remode, last]
    | _ => cases kindOf

theorem scan_exported {repository : String} (extracted : Extracted g (.folder mode opens children)) :
    ∃ found', scanTree (exported host repository g found (.folder mode opens children)) = .ok found' := by
  have plain : ∀ x ∈ (exported host repository g found (.folder mode opens children)).leaves [],
      x.2 ≠ .special := by
    intro x leaf special
    rcases mem_exported.mp leaf with ⟨n, leaf, same⟩ | rfl
    · obtain ⟨e, _, _, kind⟩ := extracted.only _ leaf
      rw [special] at same
      cases n <;> simp [Node.remode] at same
      cases kind' : e.kind <;> simp [kind', KindOf] at kind
    · cases special
  have opened : ∀ y ∈ (exported host repository g found (.folder mode opens children)).folders [],
      y.2.2 = true := by
    rw [folders_exported]
    intro y folder
    obtain ⟨y', folder', rfl⟩ := List.mem_map.mp folder
    exact extracted.opens y' folder'
  obtain ⟨mode', children', changed, _⟩ := applyModes_folder (modeChanges found g) mode opens children
  rw [exported, changed] at plain opened ⊢
  exact scanTree_passes plain opened

theorem private_exported {repository : String} {found' : Found}
    (extracted : Extracted g (.folder mode opens children))
    (scanned : scanTree (.folder mode opens children) = .ok found)
    (scanned' : scanTree (exported host repository g found (.folder mode opens children)) = .ok found') :
    (found'.directories.find? fun d => d.2 ≠ 0o700) = none := by
  apply List.find?_eq_none.mpr
  intro d member
  have listed := ((scanTree_found scanned').2 d).mp member
  rw [folders_exported] at listed
  obtain ⟨_, member', rfl⟩ := List.mem_map.mp listed
  obtain ⟨y, folder, rfl⟩ := List.mem_map.mp member'
  simp [lastMode_folder extracted scanned folder]

/-- The files and links of an exported tree are those that its manifest lists. -/
theorem exported_matches {repository : String} {found' : Found}
    (extracted : Extracted g (.folder mode opens children)) (free : Unreserved g)
    (scanned' : scanTree (exported host repository g found (.folder mode opens children)) = .ok found')
    (path : String) : path ∈ (found'.entries.map fun x => posix x.1).filter (· ≠ manifestPath) ↔
      path ∈ ((g.sorted.map fun e => (posix e.path, listedOf host found.entries e)).filter
        fun e => !isGitlink e.2).map Prod.fst := by
  obtain ⟨leaves, _⟩ := scanTree_found scanned'
  simp only [List.mem_filter, List.mem_map, decide_eq_true_eq, Bool.not_eq_true', Bool.eq_false_iff]
  constructor
  · rintro ⟨⟨x, member, rfl⟩, other⟩
    rcases mem_exported.mp ((leaves x).mp member) with ⟨n, leaf, _⟩ | rfl
    · obtain ⟨e, member', path, kind⟩ := extracted.only _ leaf
      have plain : e.kind ≠ .gitlink := by
        intro placeholder
        rw [placeholder] at kind
        exact kind
      exact ⟨_, ⟨⟨e, mem_sorted.mpr member', rfl⟩, mt (isGitlink_listedOf _ e).mp plain⟩, by simp [path]⟩
    · exact absurd rfl other
  · rintro ⟨_, ⟨⟨e, listed, rfl⟩, plain⟩, rfl⟩
    have member := mem_sorted.mp listed
    obtain ⟨x, leaf, path⟩ := List.mem_map.mp
      (extracted.held e member (mt (isGitlink_listedOf found.entries e).mpr plain))
    refine ⟨⟨(x.1, x.2.remode (Node.lastMode (modeChanges found g) x.1)), ?_, by simp [path]⟩, ?_⟩
    · exact (leaves _).mpr (mem_exported.mpr (Or.inl ⟨x.2, leaf, rfl⟩))
    · intro own
      have reserved := posix_inj e.below (by simp) own
      exact free e member (by simp [reserved])

/-- An exported tree agrees with the entries of its manifest. -/
theorem verifyTree_exported {repository : String} (extracted : Extracted g (.folder mode opens children))
    (free : Unreserved g) (targets : TextTargets (.folder mode opens children))
    (scanned : scanTree (.folder mode opens children) = .ok found) :
    verifyTree host (exported host repository g found (.folder mode opens children))
      (g.sorted.map fun e => (posix e.path, listedOf host found.entries e)) = .ok () := by
  obtain ⟨found', scanned'⟩ := @scan_exported host g mode opens children found repository extracted
  have same := exported_matches extracted free scanned'
  rw [verifyTree, scanned']
  simp only [bind, Except.bind, private_exported extracted scanned scanned']
  rw [if_neg]
  · apply Fallible.forM_ok.mpr
    intro x listed
    obtain ⟨e, member, rfl⟩ := List.mem_map.mp listed
    exact checkEntry_exported extracted free targets scanned scanned' (mem_sorted.mp member)
  · exact not_not.mpr ⟨fun path => (same path).mp, fun path => (same path).mpr⟩

theorem manifest_flat (repository : String) (found : Found) :
    isFlat (manifestOf host repository g found) = true := by
  have listed (path : String) (l : Listed) : isRow (listedJson path l) = true := by
    cases l <;> simp [listedJson, isRow, isText]
  have text (t : String) : isText (.str t) = true := rfl
  simp [manifestOf, manifestJson, isFlat, text, listed]

theorem manifest_wellFormed (repository : String) (found : Found) :
    JsonText.WellFormed host.float (manifestOf host repository g found) := by
  have listed (path : String) (l : Listed) : JsonText.WellFormed host.float (listedJson path l) := by
    have file : ["mode", "path", "sha256", "type"].Pairwise (· < ·) := by decide +kernel
    have symlink : ["mode", "path", "target", "type"].Pairwise (· < ·) := by decide +kernel
    have gitlink : ["commit", "mode", "path", "type"].Pairwise (· < ·) := by decide +kernel
    cases l with
    | file executable digest => exact ⟨file, trivial, trivial, trivial, trivial, trivial⟩
    | symlink target => exact ⟨symlink, trivial, trivial, trivial, trivial, trivial⟩
    | gitlink commit => exact ⟨gitlink, trivial, trivial, trivial, trivial, trivial⟩
  have elements (es : List GitEntry) : JsonText.ElementsWellFormed host.float
      (es.map fun e => listedJson (posix e.path) (listedOf host found.entries e)) := by
    induction es with
    | nil => trivial
    | cons e es ih => exact ⟨listed _ _, ih⟩
  have keys : ["commit", "entries", "repository", "schema"].Pairwise (· < ·) := by decide +kernel
  exact ⟨keys, trivial, elements g.sorted, trivial, trivial, trivial⟩

theorem manifest_read (repository : String) (found : Found) :
    JsonText.loads host.float (canonical (manifestOf host repository g found) ++ ['\n']) =
      some (manifestOf host repository g found) := by
  have good : JsonText.WellFormed host.float (manifestOf host repository g found) :=
    manifest_wellFormed repository found
  apply JsonText.loads_canonical good
  simp [JsonText.isBlank]

/-- The entries of the manifest are read back. -/
theorem readManifest_exported (repository : String) (found : Found) (free : Unreserved g) :
    readManifest repository (manifestOf host repository g found) =
      .ok (g.commit, g.sorted.map fun e => (posix e.path, listedOf host found.entries e)) := by
  have reserved : ∀ e ∈ g.sorted, e.path ≠ [manifestName] := by
    intro e member own
    exact free e (mem_sorted.mp member) (by simp [own])
  have above : ∀ e ∈ g.sorted, "" < posix e.path := by
    intro e _
    obtain ⟨c, t, text⟩ := List.exists_cons_of_ne_nil (posixText_ne_nil e.below)
    have chars : (posix e.path).toList = c :: t := by rw [posix, text, String.toList_ofList]
    rw [String.lt_iff_toList_lt, chars]
    exact List.nil_lt_cons c t
  have read := @verifyEntries_listed host found.entries g.sorted "" reserved above (sorted_ascending g)
  simp [readManifest, manifestOf, manifestJson, Json.keys?, stringAt, Json.get?, Json.str?, List.lookup,
    Option.filter, g.head, read, bind, Except.bind, pure, Except.pure]

/-- The exported tree is accepted with its commit. -/
theorem verifyManifest_exported (repository : String) (extracted : Extracted g (.folder mode opens children))
    (free : Unreserved g) (targets : TextTargets (.folder mode opens children))
    (scanned : scanTree (.folder mode opens children) = .ok found) :
    verifyManifest host repository (exported host repository g found (.folder mode opens children)) =
      .ok g.commit := by
  have verified := @verifyTree_exported host g mode opens children found repository extracted free targets scanned
  obtain ⟨mode', children', changed, names⟩ := applyModes_folder (modeChanges found g) mode opens children
  have open_ : opens = true := extracted.opens ([], mode, opens) List.mem_cons_self
  have absent : (children'.find? fun c => c.1 = manifestName) = none := by
    apply List.find?_eq_none.mpr
    intro c member
    have named : c.1 ∈ children.map Prod.fst := names ▸ List.mem_map_of_mem member
    obtain ⟨c', member', same⟩ := List.mem_map.mp named
    simpa [← same] using manifest_absent extracted free c' member'
  have loaded : loadManifest host opens (children' ++ [(manifestName, .file 0o600 true
      (utf8 (canonical (manifestOf host repository g found) ++ ['\n'])))]) =
        .ok (manifestOf host repository g found) := by
    have within : host.exceeds (canonical (manifestOf host repository g found) ++ ['\n']) = false :=
      host.shallow _ (manifest_flat repository found)
    have read := @manifest_read host g repository found
    simp [loadManifest, open_, List.find?_append, absent, within, read]
    rfl
  rw [exported, changed] at verified ⊢
  simp only [Node.insert, verifyManifest] at verified ⊢
  rw [loaded]
  simp only [bind, Except.bind]
  rw [readManifest_exported repository found free]
  simp only [verified]
  rfl

theorem wellFormed_exported (repository : String) (extracted : Extracted g (.folder mode opens children))
    (free : Unreserved g) :
    (exported host repository g found (.folder mode opens children)).WellFormed := by
  have good := Node.wellFormed_applyModes (modeChanges found g) extracted.wellFormed
  obtain ⟨mode', children', changed, names⟩ := applyModes_folder (modeChanges found g) mode opens children
  rw [exported, changed]
  rw [changed] at good
  apply Node.wellFormed_insert good (by simp [Node.WellFormed])
  intro c member
  have named : c.1 ∈ children.map Prod.fst := names ▸ List.mem_map_of_mem member
  obtain ⟨c', member', same⟩ := List.mem_map.mp named
  exact same ▸ manifest_absent extracted free c' member'

end Archive

/-- A manifest is created for an extracted archive, and the tree with it is accepted. -/
theorem create_verify {host : Host} {repository : String} {g : GitTree} {source : Source} {tree : Node}
    (answers : Answers g source) (extracted : Extracted g tree) (free : Unreserved g)
    (targets : TextTargets tree) : ∃ tree', createManifest host repository source tree = .ok tree' ∧
      tree'.WellFormed ∧ verifyManifest host repository tree' = .ok g.commit := by
  cases tree with
  | folder mode opens children =>
    obtain ⟨found, scanned⟩ := scan_extracted extracted
    exact ⟨_, createManifest_ok answers extracted free targets scanned,
      wellFormed_exported repository extracted free,
      verifyManifest_exported repository extracted free targets scanned⟩
  | _ => cases extracted.folder

/-! ## The manifest of an export -/

/-- A tree is accepted after its manifest was created, and an accepted tree holds exactly what its
manifest lists: another tree that is accepted with the same manifest differs in no file and no link.
What is not accepted is refused with a `ManifestError`, or with an `OSError` of the system. -/
theorem manifest_exact (host : Host) (repository : String) :
    (∀ g source tree, Answers g source → Extracted g tree → Unreserved g → TextTargets tree →
      ∃ tree', createManifest host repository source tree = .ok tree' ∧ tree'.WellFormed ∧
        verifyManifest host repository tree' = .ok g.commit) ∧
    (∀ tree commit, tree.WellFormed → verifyManifest host repository tree = .ok commit →
      ∃ mode opens children manifest entries, tree = .folder mode opens children ∧
        loadManifest host opens children = .ok manifest ∧
        readManifest repository manifest = .ok (commit, entries) ∧
        (entries.map Prod.fst).Pairwise (· < ·) ∧ Exact host tree entries) ∧
    (∀ tree tree' commit commit', tree.WellFormed → tree'.WellFormed →
      verifyManifest host repository tree = .ok commit → verifyManifest host repository tree' = .ok commit' →
      manifestBytes tree = manifestBytes tree' → NoCollision host tree tree' →
      ∀ p, p ≠ [manifestName] → ∀ v, (∃ n, (p, n) ∈ tree.leaves [] ∧ view n = v) ↔
        ∃ n, (p, n) ∈ tree'.leaves [] ∧ view n = v) ∧
    ∀ tree f, (∀ bytes ∈ manifestBytes tree, ∀ text ∈ decodeUtf8 bytes, host.exceeds text = false) →
      (∀ bytes ∈ manifestBytes tree, ∀ text ∈ decodeUtf8 bytes,
        ∀ manifest ∈ JsonText.loads host.float text, ∀ raw ∈ rawEntries manifest, Plain raw) →
      verifyManifest host repository tree = .error f →
      (∃ r, f = .manifest r) ∨ f = .os ∧ ¬ Permits host tree := by
  refine ⟨?_, ?_, ?_, ?_⟩
  · exact fun g source tree => create_verify
  · intro tree commit good accepted
    obtain ⟨mode, opens, children, manifest, entries, rfl, loaded, read, verified⟩ := verifyManifest_ok accepted
    exact ⟨mode, opens, children, manifest, entries, rfl, loaded, read, readManifest_sorted read,
      verifyTree_exact good verified⟩
  · intro tree tree' commit commit' good good' accepted accepted' same collide p other v
    exact accepted_same good good' accepted accepted' same collide other v
  · exact fun tree f within plain failed => verifyManifest_fails within plain f failed

/-! ## A tree of one file -/

def sampleCommit : Text := List.replicate 40 'a'

theorem sample_commit : isCommit sampleCommit = true := by decide

/-- A commit with one regular file. -/
def single (name : Name) : GitTree where
  commit := sampleCommit
  head := sample_commit
  entries := [⟨[name], by simp, .regular, sampleCommit, sample_commit⟩]
  distinct := by simp

def singleSource (name : Name) : Source where
  path := "/src"
  topLevel := some (utf8 ['/', 's', 'r', 'c', '\n'])
  head := some (encode (sampleCommit ++ ['\n']))
  records := some (lsTree (single name))
  resolve := fun _ => some "/src"

def singleTree (name : Name) : Node := .folder 0o755 true [(name, .file 0o644 true [104])]

theorem single_answers (name : Name) : Answers (single name) (singleSource name) where
  root := ⟨_, _, rfl, decodeUtf8_utf8 _, rfl⟩
  head := rfl
  records := rfl

theorem single_extracted (name : Name) : Extracted (single name) (singleTree name) where
  folder := rfl
  wellFormed := by simp [singleTree, Node.WellFormed, Node.WellFormedIn]
  held := by simp [single, singleTree, Node.leaves, Node.leavesIn]
  only := by simp [single, singleTree, Node.leaves, Node.leavesIn, KindOf]
  placeholders := by simp [single]
  opens := by simp [singleTree, Node.folders, Node.foldersIn]
  prefixes := by simp [singleTree, Node.folders, Node.foldersIn]

theorem single_targets (name : Name) : TextTargets (singleTree name) := by
  simp [TextTargets, singleTree, Node.leaves, Node.leavesIn]

def sampleName : Name where
  text := ['a']
  nonempty := by decide
  single := by decide
  clean := by decide
  proper := by decide

theorem sampleName_free : sampleName ≠ manifestName := by
  intro same
  have texts : sampleName.text ≠ manifestName.text := by decide
  exact texts (congrArg Name.text same)

theorem sample_digest : isDigest (List.replicate 64 'a') = true := by decide

def sampleHost : Host where
  sha256 := fun _ => ⟨List.replicate 64 'a', sample_digest⟩
  float := fun _ => none
  exceeds := fun _ => false
  shallow := fun _ _ => rfl
  absentRefused := fun _ => false
  follow := fun _ => some false
  behind := fun _ => false

theorem sample_exact :
    (∃ tree', createManifest sampleHost "public" (singleSource sampleName) (singleTree sampleName) = .ok tree' ∧
      verifyManifest sampleHost "public" tree' = .ok sampleCommit ∧
      ∃ entries, Exact sampleHost tree' entries) ∧
    ∀ f, verifyManifest sampleHost "public" (.folder 0o700 true []) = .error f →
      (∃ r, f = .manifest r) ∨ f = .os ∧ ¬ Permits sampleHost (.folder 0o700 true []) := by
  obtain ⟨created, exact_, _, refused⟩ := manifest_exact sampleHost "public"
  constructor
  · have free : Unreserved (single sampleName) := by
      simp [Unreserved, single, sampleName_free]
    obtain ⟨tree', made, good, accepted⟩ := created (single sampleName) _ _ (single_answers sampleName)
      (single_extracted sampleName) free (single_targets sampleName)
    obtain ⟨_, _, _, _, entries, _, _, _, _, holds⟩ := exact_ tree' _ good accepted
    exact ⟨tree', made, accepted, entries, holds⟩
  · intro f failed
    exact refused _ f (by simp [manifestBytes]) (by simp [manifestBytes]) failed

/-- A tree that tracks the name of the manifest gets none. -/
theorem tracked_manifest_refused :
    Answers (single manifestName) (singleSource manifestName) ∧
      Extracted (single manifestName) (singleTree manifestName) ∧ TextTargets (singleTree manifestName) ∧
      createManifest sampleHost "public" (singleSource manifestName) (singleTree manifestName) =
        refuse .manifestExists := by
  refine ⟨single_answers _, single_extracted _, single_targets _, ?_⟩
  simp [createManifest, singleTree]

end PlatformConfig.ExportManifest
