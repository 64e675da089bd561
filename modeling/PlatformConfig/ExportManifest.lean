import PlatformConfig.FileTree
import PlatformConfig.JsonText
import PlatformConfig.TextScan

/-!
# The self-bootstrap export manifest

`gitlab-runner-self-bootstrap-manifest` lists the entries of a Git tree with the digests and targets
found in its extracted archive, and later compares a directory tree with such a list. Names, link
targets and JSON strings are Unicode text; SHA-256, the answers of Git and what the system says about
a path behind a link are parameters.
-/
namespace PlatformConfig.ExportManifest

open CanonicalJson FileTree RecordText

def isHex (c : Char) : Bool := c.isDigit || ('a' ≤ c && c ≤ 'f')

/-- `[0-9a-f]{40}(?:[0-9a-f]{24})?` -/
def isCommit (t : Text) : Bool := (t.length = 40 || t.length = 64) && t.all isHex

/-- `[0-9a-f]{64}` -/
def isDigest (t : Text) : Bool := t.length = 64 && t.all isHex

def manifestName : Name where
  text := ".platform-runner-self-".toList ++ "bootstrap-export.json".toList
  nonempty := by decide
  single := by decide
  clean := by decide
  proper := by decide

def manifestPath : String := posix [manifestName]

def schema : String := "platform.runner-self-bootstrap-export.v1"

/-- The reasons of a `ManifestError`, with the values that its message shows. A manifest in which an
object has a key twice is `manifestNotJson` here. -/
inductive Refusal
  | git
  | invalidPath
  | unsafePath (value : String)
  | reservedPath (value : String)
  | unsupportedFileType (relative : String)
  | notWorktreeRoot
  | unsupportedHead
  | unsupportedPath
  | unsupportedMode (path mode : String)
  | unexpectedObjectType (path : String)
  | archiveMismatch (missing extra : List String)
  | expectedSymlink (path : String)
  | targetNotText (path : String)
  | expectedFile (path : String)
  | manifestExists
  | manifestMissing
  | manifestNotPrivate
  | manifestNotJson
  | manifestNotObject
  | manifestFields
  | unsupportedSchema
  | repositoryDiffers
  | invalidCommit
  | entriesNotList
  | entryNotObject
  | unsortedEntries
  | malformedEntry (path : String)
  | invalidFileMode (path : String)
  | invalidFileDigest (path : String)
  | invalidSymlink (path : String)
  | invalidGitlink (path : String)
  | invalidGitlinkCommit (path : String)
  | directoryMode (relative : String)
  | treeMismatch (missing extra : List String)
  | placeholderNotDirectory (path : String)
  | symlinkDiffers (path : String)
  | fileTypeDiffers (path : String)
  | fileModeDiffers (path : String)
  | fileDigestDiffers (path : String)

/-- The exceptions: `ManifestError`, `OSError`, the `TypeError` of an unhashable value, a missing key,
bytes that are not text outside of a handler, and a JSON text beyond the decoder's limits. -/
inductive Failure
  | manifest (r : Refusal)
  | os
  | unhashable
  | key
  | unicode
  | decoder

abbrev Result := Except Failure

def refuse {α : Type} (r : Refusal) : Result α := .error (.manifest r)

def isText : Json → Bool
  | .str _ => true
  | _ => false

def isRow : Json → Bool
  | .obj fields => fields.all fun f => isText f.2
  | _ => false

/-- Strings in objects, in a list, in an object: no number, and not nested further. -/
def isFlat : Json → Bool
  | .obj fields => fields.all fun f => match f.2 with
    | .arr xs => xs.all isRow
    | j => isText j
  | _ => false

/-- What is not in the tree or in the source: the digest, the decoder's number syntax and its limits,
which no flat value reaches, and what the system answers for paths that are absent, are links or lead through one. -/
structure Host where
  sha256 : Bytes → {t : Text // isDigest t = true}
  float : Text → Option FloatText
  exceeds : Text → Bool
  shallow : ∀ fields, isFlat (.obj fields) = true → exceeds (canonical (.obj fields) ++ ['\n']) = false
  absentRefused : List Text → Bool
  follow : List Text → Option Bool
  behind : List Text → Bool

/-! ## Paths and trees -/

/-- The parts of a `PurePosixPath`. -/
def pathParts (t : Text) : List Text := (t.splitOn '/').filter fun p => p ≠ [] ∧ p ≠ ['.']

def validPath (value : String) : Result String :=
  let t := value.toList
  if t = [] ∨ Char.ofNat 0 ∈ t then refuse .invalidPath
  else if t.head? = some '/' ∨ (pathParts t).any (· = ['.', '.']) then refuse (.unsafePath value)
  else if value = manifestPath then refuse (.reservedPath value)
  else .ok value

/-- What a scan has found so far. -/
structure Found where
  entries : List (Path × Node)
  directories : List (Path × ℕ)

/-- The children of one directory, and the stack with the directories among them. -/
def scanChildren (directory : Path) : List (Name × Node) → Found → List (Path × Bool × List (Name × Node)) →
    Result (Found × List (Path × Bool × List (Name × Node)))
  | [], found, pending => .ok (found, pending)
  | (name, n) :: rest, found, pending =>
    let path := directory ++ [name]
    match n with
    | .folder mode opens children =>
      scanChildren directory rest { found with directories := found.directories ++ [(path, mode)] }
        ((path, opens, children) :: pending)
    | .special => refuse (.unsupportedFileType (posix path))
    | n => scanChildren directory rest { found with entries := found.entries ++ [(path, n)] } pending

def pendingSize (pending : List (Path × Bool × List (Name × Node))) : ℕ :=
  (pending.map fun p => 1 + Node.sizeIn p.2.2).sum

theorem scanChildren_size {directory : Path} {children : List (Name × Node)} {found found' : Found}
    {pending pending' : List (Path × Bool × List (Name × Node))}
    (h : scanChildren directory children found pending = .ok (found', pending')) :
    pendingSize pending' ≤ pendingSize pending + Node.sizeIn children := by
  induction children generalizing found pending with
  | nil =>
    obtain ⟨rfl, rfl⟩ := by simpa [scanChildren] using h
    simp
  | cons c rest ih =>
    obtain ⟨name, n⟩ := c
    cases n with
    | folder mode opens children =>
      have bound := ih h
      simp only [pendingSize, List.map_cons, List.sum_cons, Node.sizeIn, Node.size] at *
      omega
    | special => cases h
    | file mode readable content =>
      have bound := ih h
      simp only [Node.sizeIn] at *
      omega
    | link target =>
      have bound := ih h
      simp only [Node.sizeIn] at *
      omega

/-- The loop of `scan_tree` over its stack. -/
def scanLoop (pending : List (Path × Bool × List (Name × Node))) (found : Found) : Result Found :=
  match pending with
  | [] => .ok found
  | (directory, opens, children) :: pending =>
    if opens then
      match _scanned : scanChildren directory children found pending with
      | .error e => .error e
      | .ok (found, pending') => scanLoop pending' found
    else .error .os
termination_by pendingSize pending
decreasing_by
  have bound := scanChildren_size _scanned
  simp only [pendingSize, List.map_cons, List.sum_cons] at *
  omega

def scanTree : Node → Result Found
  | .folder mode opens children => scanLoop [([], opens, children)] ⟨[], [([], mode)]⟩
  | _ => .error .os

/-- `actual[path]` -/
def lookup (actual : List (Path × Node)) (path : String) : Option (Path × Node) :=
  actual.find? fun e => posix e.1 = path

/-- The sorted values of one set that another does not hold. -/
def difference (a b : List String) : List String :=
  (a.filter fun s => s ∉ b).insertionSort (· ≤ ·)

/-! ## Creating the manifest -/

/-- What Git prints for the source, unless a command fails, and where a printed path resolves to. -/
structure Source where
  path : String
  topLevel : Option Bytes
  head : Option Bytes
  records : Option Bytes
  resolve : Text → Option String

structure Record where
  path : String
  mode : String
  kind : String
  id : String
  deriving DecidableEq

/-- The order of the tuples. -/
def Record.key (r : Record) : String ×ₗ String ×ₗ String ×ₗ String :=
  toLex (r.path, toLex (r.mode, toLex (r.kind, r.id)))

def strip (t : Text) : Text :=
  ((t.dropWhile TextScan.isBlank).reverse.dropWhile TextScan.isBlank).reverse

def output (bytes : Option Bytes) : Result Bytes :=
  match bytes with
  | some b => .ok b
  | none => refuse .git

def decoded (t : Option Text) : Result Text :=
  match t with
  | some t => .ok t
  | none => .error .unicode

/-- One record of `git ls-tree -z`. -/
def parseRecord (raw : Bytes) : Result Record :=
  match raw.span (· ≠ 9) with
  | (metadata, _ :: rawPath) =>
    match (decode metadata).map (·.splitOn ' '), decodeUtf8 rawPath with
    | some [mode, kind, id], some path => do
      let path ← validPath (String.ofList path)
      return ⟨path, String.ofList mode, String.ofList kind, String.ofList id⟩
    | _, _ => refuse .unsupportedPath
  | _ => refuse .unsupportedPath

def checkRecord (raw : Bytes) : Result Record := do
  let r ← parseRecord raw
  if r.mode ∉ ["100644", "100755", "120000", "160000"] then refuse (.unsupportedMode r.path r.mode)
  else if (r.mode = "160000") ≠ (r.kind = "commit") then refuse (.unexpectedObjectType r.path)
  else if r.mode ≠ "160000" ∧ r.kind ≠ "blob" then refuse (.unexpectedObjectType r.path)
  else return r

def exportMode (executable : Bool) : ℕ := if executable then 0o700 else 0o600

/-- The entry of one record, and the tree with the mode of its file. -/
def sourceEntry (host : Host) (actual : List (Path × Node)) (r : Record) (tree : Node) :
    Result (Json × Node) :=
  if r.mode = "160000" then
    .ok (.obj [("commit", .str r.id), ("mode", .str r.mode), ("path", .str r.path),
      ("type", .str "gitlink")], tree)
  else
    match lookup actual r.path with
    | none => .error .key
    | some (p, n) =>
      if r.mode = "120000" then
        match n with
        | .link (some target) => .ok (.obj [("mode", .str r.mode), ("path", .str r.path),
            ("target", .str target), ("type", .str "symlink")], tree)
        | .link none => refuse (.targetNotText r.path)
        | _ => refuse (.expectedSymlink r.path)
      else
        match n with
        | .file _ readable content =>
          if readable then
            .ok (.obj [("mode", .str r.mode), ("path", .str r.path),
              ("sha256", .str (String.ofList (host.sha256 content).1)), ("type", .str "file")],
              tree.chmod (exportMode (r.mode = "100755")) p)
          else .error .os
        | _ => refuse (.expectedFile r.path)

def sourceList (host : Host) (actual : List (Path × Node)) : List Record → Node → Result (List Json × Node)
  | [], tree => .ok ([], tree)
  | r :: rs, tree => do
    let (j, tree) ← sourceEntry host actual r tree
    let (js, tree) ← sourceList host actual rs tree
    return (j :: js, tree)

/-- The commit and the entries of the source, and the tree with its new modes. -/
def sourceEntries (host : Host) (source : Source) (tree : Node) : Result (Text × List Json × Node) := do
  let topLevel ← output source.topLevel
  let topLevel ← decoded (decodeUtf8 topLevel)
  match source.resolve topLevel with
  | none => .error .os
  | some root => if root ≠ source.path then refuse .notWorktreeRoot
  let head ← output source.head
  let head ← decoded (decode head)
  let commit := strip head
  if !isCommit commit then refuse .unsupportedHead
  let raw ← output source.records
  let records ← ((raw.splitOn 0).filter (· ≠ [])).mapM checkRecord
  let found ← scanTree tree
  let actual := found.entries.map fun e => posix e.1
  let expected := (records.filter fun r => r.mode ≠ "160000").map Record.path
  if ¬ (actual ⊆ expected ∧ expected ⊆ actual) then
    refuse (.archiveMismatch (difference expected actual) (difference actual expected))
  let tree := (found.directories.map Prod.fst).foldl (fun t p => t.chmod 0o700 p) (tree.chmod 0o700 [])
  let (entries, tree) ← sourceList host found.entries
    (records.insertionSort fun a b => a.key ≤ b.key) tree
  return (commit, entries, tree)

/-- The text of the manifest. -/
def manifestJson (repository : String) (commit : Text) (entries : List Json) : Json :=
  .obj [("commit", .str (String.ofList commit)), ("entries", .arr entries),
    ("repository", .str repository), ("schema", .str schema)]

/-- The tree with its manifest. -/
def createManifest (host : Host) (repository : String) (source : Source) (tree : Node) : Result Node :=
  match tree with
  | .folder mode opens children =>
    if !opens then .error .os
    else if children.any fun c => c.1 = manifestName then refuse .manifestExists
    else do
      let (commit, entries, tree) ← sourceEntries host source (.folder mode opens children)
      let text := canonical (manifestJson repository commit entries) ++ ['\n']
      return Node.insert manifestName (.file 0o600 true (utf8 text)) tree
  | _ => .error .os

/-! ## Verifying a tree -/

/-- A listed entry. -/
inductive Listed
  | file (executable : Bool) (digest : Text)
  | symlink (target : String)
  | gitlink (commit : Text)
  deriving DecidableEq

/-- A dictionary key or set member. -/
def isHashable : Json → Bool
  | .arr _ => false
  | .obj _ => false
  | _ => true

def loadManifest (host : Host) (opens : Bool) (children : List (Name × Node)) : Result Json :=
  if !opens then .error .os
  else
    match children.find? fun c => c.1 = manifestName with
    | none => refuse .manifestMissing
    | some (_, .file mode readable content) =>
      if mode ≠ 0o600 then refuse .manifestNotPrivate
      else if !readable then refuse .manifestNotJson
      else
        match decodeUtf8 content with
        | none => refuse .manifestNotJson
        | some text =>
          if host.exceeds text then .error .decoder
          else
            match JsonText.loads host.float text with
            | none => refuse .manifestNotJson
            | some (.obj fields) => .ok (.obj fields)
            | some _ => refuse .manifestNotObject
    | some _ => refuse .manifestNotPrivate

def entryPath (j : Option Json) : Result String :=
  match j with
  | some (.str s) => validPath s
  | _ => refuse .invalidPath

def stringAt (raw : Json) (key : String) : Option String := (raw.get? key).bind Json.str?

def fileEntry (path : String) (raw : Json) : Result Listed :=
  let mode := (raw.get? "mode").getD .null
  if !isHashable mode then .error .unhashable
  else
    match mode.str?.filter fun m => m ∈ ["100644", "100755"] with
    | none => refuse (.invalidFileMode path)
    | some m =>
      match (stringAt raw "sha256").filter fun d => isDigest d.toList with
      | none => refuse (.invalidFileDigest path)
      | some digest => .ok (.file (m = "100755") digest.toList)

def symlinkEntry (path : String) (raw : Json) : Result Listed :=
  match stringAt raw "mode", stringAt raw "target" with
  | some "120000", some target => .ok (.symlink target)
  | _, _ => refuse (.invalidSymlink path)

def gitlinkEntry (path : String) (raw : Json) : Result Listed :=
  match stringAt raw "mode", stringAt raw "commit" with
  | some "160000", some commit =>
    if isCommit commit.toList then .ok (.gitlink commit.toList) else refuse (.invalidGitlinkCommit path)
  | _, _ => refuse (.invalidGitlink path)

/-- One entry of the manifest behind the path of the one before it. -/
def verifyEntry (previous : String) (raw : Json) : Result (String × Listed) :=
  match raw with
  | .obj fields => do
    let path ← entryPath (Json.get? (.obj fields) "path")
    if path ≤ previous then refuse .unsortedEntries
    else
      let kind := (Json.get? (.obj fields) "type").getD .null
      if !isHashable kind then .error .unhashable
      else
        let keys := fields.map Prod.fst
        match kind with
        | .str "file" =>
          if keys ≠ ["mode", "path", "sha256", "type"] then refuse (.malformedEntry path)
          else return (path, ← fileEntry path (.obj fields))
        | .str "symlink" =>
          if keys ≠ ["mode", "path", "target", "type"] then refuse (.malformedEntry path)
          else return (path, ← symlinkEntry path (.obj fields))
        | .str "gitlink" =>
          if keys ≠ ["commit", "mode", "path", "type"] then refuse (.malformedEntry path)
          else return (path, ← gitlinkEntry path (.obj fields))
        | _ => refuse (.malformedEntry path)
  | _ => refuse .entryNotObject

def verifyEntries : String → List Json → Result (List (String × Listed))
  | _, [] => .ok []
  | previous, raw :: rest => do
    let entry ← verifyEntry previous raw
    let entries ← verifyEntries entry.1 rest
    return entry :: entries

/-- The placeholder of a gitlink is a directory, where it exists. -/
def checkPlaceholder (host : Host) (tree : Node) (path : String) : Result Unit :=
  let ps := pathParts path.toList
  match tree.locate ps with
  | .node (.folder ..) => .ok ()
  | .node (.link _) =>
    match host.follow ps with
    | none => .error .os
    | some true => refuse (.placeholderNotDirectory path)
    | some false => .ok ()
  | .node _ => refuse (.placeholderNotDirectory path)
  | .absent => if host.absentRefused ps then .error .os else .ok ()
  | .beyond =>
    match host.follow ps with
    | none => .error .os
    | some true => if host.behind ps then .ok () else refuse (.placeholderNotDirectory path)
    | some false => .ok ()

/-- One listed entry against the tree. -/
def checkEntry (host : Host) (tree : Node) (actual : List (Path × Node)) (entry : String × Listed) :
    Result Unit :=
  let path := entry.1
  match entry.2 with
  | .gitlink _ => checkPlaceholder host tree path
  | .symlink target =>
    match lookup actual path with
    | none => .error .key
    | some (_, .link (some t)) => if t = target then .ok () else refuse (.symlinkDiffers path)
    | some _ => refuse (.symlinkDiffers path)
  | .file executable digest =>
    match lookup actual path with
    | none => .error .key
    | some (_, .file mode readable content) =>
      if mode ≠ exportMode executable then refuse (.fileModeDiffers path)
      else if !readable then .error .os
      else if (host.sha256 content).1 ≠ digest then refuse (.fileDigestDiffers path)
      else .ok ()
    | some _ => refuse (.fileTypeDiffers path)

def isGitlink : Listed → Bool
  | .gitlink _ => true
  | _ => false

/-- A tree against its decoded entries. -/
def verifyTree (host : Host) (tree : Node) (entries : List (String × Listed)) : Result Unit := do
  let found ← scanTree tree
  match found.directories.find? fun d => d.2 ≠ 0o700 with
  | some d => refuse (.directoryMode (if d.1 = [] then "." else posix d.1))
  | none =>
    let expected := (entries.filter fun e => !isGitlink e.2).map Prod.fst
    let actual := (found.entries.map fun e => posix e.1).filter (· ≠ manifestPath)
    if ¬ (actual ⊆ expected ∧ expected ⊆ actual) then
      refuse (.treeMismatch (difference expected actual) (difference actual expected))
    else entries.forM (checkEntry host tree found.entries)

/-- The entries that a manifest lists, and its commit. -/
def readManifest (repository : String) (manifest : Json) : Result (Text × List (String × Listed)) :=
  if manifest.keys? ≠ some ["commit", "entries", "repository", "schema"] then refuse .manifestFields
  else if stringAt manifest "schema" ≠ some schema then refuse .unsupportedSchema
  else if stringAt manifest "repository" ≠ some repository then refuse .repositoryDiffers
  else
    match (stringAt manifest "commit").filter fun c => isCommit c.toList with
    | none => refuse .invalidCommit
    | some commit =>
      match manifest.get? "entries" with
      | some (.arr raw) => do return (commit.toList, ← verifyEntries "" raw)
      | _ => refuse .entriesNotList

/-- The commit of a tree that agrees with its manifest. -/
def verifyManifest (host : Host) (repository : String) (tree : Node) : Result Text :=
  match tree with
  | .folder mode opens children => do
    let manifest ← loadManifest host opens children
    let (commit, entries) ← readManifest repository manifest
    verifyTree host (.folder mode opens children) entries
    return commit
  | _ => .error .os

end PlatformConfig.ExportManifest
