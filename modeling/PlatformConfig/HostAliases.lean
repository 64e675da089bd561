import PlatformConfig.ByteLines
import PlatformConfig.CanonicalJson
import PlatformConfig.UrlText

/-!
# Host aliases and the hosts file

The guard reads the hosts file in the lines of Python, which a carriage return ends, and looks for
entries outside the managed block that give a desired name another address. The resolver reads lines
that end at line feeds, where a carriage return is white space between two fields.
-/
namespace PlatformConfig.HostAliases

open CanonicalJson (Json)
open RecordText (Text Bytes encode)
open ByteLines

def marker : Bytes := encode "ANSIBLE MANAGED PLATFORM HOST ALIASES".toList

def beginMarker : Bytes := encode "# BEGIN ".toList ++ marker

def endMarker : Bytes := encode "# END ".toList ++ marker

/-- `[A-Za-z0-9](?:[A-Za-z0-9-]{0,61}[A-Za-z0-9])?` -/
def isLabel (t : Text) : Bool :=
  t.length ≤ 63 && t.head?.any Char.isAlphanum && t.getLast?.any Char.isAlphanum &&
    t.all fun c => c.isAlphanum || c = '-'

/-- `str.lower` of ASCII text -/
def lower (t : Text) : Text := t.map Char.toLower

/-- What `lstat` and `fstat` report. -/
structure Details where
  directory : Bool
  regular : Bool
  uid : ℕ
  gid : ℕ
  mode : ℕ

/-- The paths, none of which has to be there, and the file behind the descriptor. -/
structure Host where
  etc : Option Details
  hosts : Option Details
  opened : Option (Details × Bytes)

section Guard
variable {Address : Type} [DecidableEq Address] (ipAddress : Text → Option Address)

/-- `address` -/
def address (value : Text) : Except String Address :=
  if value.contains '%' then .error "Alias addresses must be literal unscoped IP strings"
  else match ipAddress value with
    | none => .error "Invalid alias IP address"
    | some a => .ok a

/-- `rstrip(b"\n")` -/
def stripFeed (l : Bytes) : Bytes := (l.reverse.dropWhile (· = 10)).reverse

/-- A line up to its comment. -/
def uncommented (line : Bytes) : Bytes := line.takeWhile (· ≠ 35)

/-- A failing look is an `OSError`, which `main` reports. -/
def inspected {α : Type} : Option α → Except String α
  | none => .error "Cannot inspect alias paths or resolve applied aliases"
  | some a => .ok a

end Guard

/-! ## The resolver's reading -/

def lowerByte (b : UInt8) : UInt8 := if 65 ≤ b && b ≤ 90 then b + 32 else b

/-- The field is the name, up to the case of its letters. -/
def Names (n : Bytes) (name : Text) : Prop := n.map lowerByte = encode name

/-- The fields of a line up to its first carriage return. -/
def shown (l : Bytes) : List Bytes := fields ((uncommented (l.takeWhile (· ≠ 10))).takeWhile (· ≠ 13))

abbrev Marked (l : Bytes) : Prop := marker <:+: l

/-- The lines of a file, before, inside and behind a managed block that it may have. -/
inductive Layout : List Bytes → List Bytes → List Bytes → List Bytes → Prop
  | unmanaged {pre : List Bytes} (plain : ∀ l ∈ pre, ¬Marked l) : Layout pre pre [] []
  | managed {pre block post : List Bytes} {b e : Bytes} (begins : stripFeed b = beginMarker)
      (ends : stripFeed e = endMarker) (plain : ∀ l ∈ pre ++ block ++ post, ¬Marked l) :
      Layout (pre ++ b :: (block ++ e :: post)) pre block post

section Reading
variable {Address : Type} [DecidableEq Address] (ipAddress : Text → Option Address)

end Reading

/-! ## Names -/

section Declared
variable {Address : Type} {ipAddress : Text → Option Address}

end Declared

/-! ## The block -/

lemma infix_stripFeed {m l : Bytes} (inside : m <:+: stripFeed l) : m <:+: l := by
  have suffix : l.reverse.dropWhile (· = 10) <:+ l.reverse := List.dropWhile_suffix _
  exact inside.trans (List.reverse_suffix.mp (by rwa [stripFeed, List.reverse_reverse])).isInfix

lemma begin_marked {l : Bytes} (begins : stripFeed l = beginMarker) : Marked l :=
  infix_stripFeed (begins ▸ (List.suffix_append _ _).isInfix)

lemma end_marked {l : Bytes} (ends : stripFeed l = endMarker) : Marked l :=
  infix_stripFeed (ends ▸ (List.suffix_append _ _).isInfix)

lemma plain_unique {xs xs' ys ys' : List Bytes} {b b' : Bytes} (same : xs ++ b :: ys = xs' ++ b' :: ys')
    (plain : ∀ l ∈ xs, ¬Marked l) (plain' : ∀ l ∈ xs', ¬Marked l) (marked : Marked b) (marked' : Marked b') :
    xs = xs' ∧ ys = ys' := by
  induction xs generalizing xs' with
  | nil =>
    cases xs' with
    | nil => exact ⟨rfl, (List.cons.inj same).2⟩
    | cons x xs' =>
      obtain ⟨rfl, -⟩ := List.cons.inj same
      exact absurd marked (plain' b List.mem_cons_self)
  | cons x xs ih =>
    cases xs' with
    | nil =>
      obtain ⟨rfl, -⟩ := List.cons.inj same
      exact absurd marked' (plain x List.mem_cons_self)
    | cons x' xs' =>
      obtain ⟨rfl, rest⟩ := List.cons.inj same
      obtain ⟨rfl, rfl⟩ := ih rest (fun l mem => plain l (List.mem_cons_of_mem x mem))
        fun l mem => plain' l (List.mem_cons_of_mem x mem)
      exact ⟨rfl, rfl⟩

/-- A file has one layout. -/
lemma Layout.unique {ls pre block post pre' block' post' : List Bytes} (h : Layout ls pre block post)
    (h' : Layout ls pre' block' post') : pre = pre' ∧ post = post' := by
  generalize same : ls = ls' at h'
  cases h with
  | unmanaged plain =>
    cases h' with
    | unmanaged _ => exact ⟨same, rfl⟩
    | managed begins _ _ =>
      subst same
      exact absurd (begin_marked begins) (plain _ (by simp))
  | managed begins ends plain =>
    cases h' with
    | unmanaged plain' =>
      subst same
      exact absurd (begin_marked begins) (plain' _ (by simp))
    | managed begins' ends' plain' =>
      simp only [List.forall_mem_append] at plain plain'
      obtain ⟨rfl, rest⟩ := plain_unique same plain.1.1 plain'.1.1 (begin_marked begins) (begin_marked begins')
      obtain ⟨rfl, rfl⟩ := plain_unique rest plain.1.2 plain'.1.2 (end_marked ends) (end_marked ends')
      exact ⟨rfl, rfl⟩

/-- The lines outside the block are split on their own. -/
lemma Layout.splitKeep {data : Bytes} {pre block post : List Bytes} (h : Layout (pieces data) pre block post) :
    ByteLines.splitKeep (pre ++ post).flatten = (pre ++ post).flatMap ByteLines.splitKeep := by
  generalize whole : pieces data = ls at h
  cases h with
  | unmanaged plain =>
    rw [List.append_nil, ← whole, pieces_flatten]
    exact splitKeep_pieces data
  | @managed _ _ _ b e begins ends plain =>
    have cut : pieces data = (pre ++ b :: (block ++ [e])) ++ post := by simp [whole]
    have last : pieces post.flatten = post := pieces_suffix cut
    rw [List.flatten_append, splitKeep_terminated (pieces_terminated whole), splitKeep_pieces post.flatten, last,
      List.flatMap_append]

/-! ## The names of a line -/

section Lines
variable {Address : Type} [DecidableEq Address] {ipAddress : Text → Option Address}
  {desired : List (Text × Address)}

lemma forM_ok {α : Type} {f : α → Except String Unit} {xs : List α} :
    xs.forM f = .ok () ↔ ∀ x ∈ xs, f x = .ok () := by
  induction xs with
  | nil => simp [List.forM, pure, Except.pure]
  | cons x xs ih =>
    change (f x >>= fun _ => xs.forM f) = .ok () ↔ _
    rw [List.forall_mem_cons, ← ih]
    cases first : f x with
    | error e => simp [bind, Except.bind]
    | ok u => simp [bind, Except.bind]

variable {host : Host} {details : Details} {data : Bytes}

lemma bind_ok {α β : Type} {x : Except String α} {f : α → Except String β} {b : β} (h : (x >>= f) = .ok b) :
    ∃ a, x = .ok a ∧ f a = .ok b := by
  cases x with
  | error e => cases h
  | ok a => exact ⟨a, rfl, h⟩

end Lines

/-! ## A name behind a carriage return -/

def sampleHost (data : Bytes) : Host where
  etc := some ⟨true, false, 0, 0, 0o755⟩
  hosts := some ⟨false, true, 0, 0, 0o644⟩
  opened := some (⟨false, true, 0, 0, 0o644⟩, data)

end PlatformConfig.HostAliases
