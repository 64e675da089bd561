import PlatformConfig.CrashLock
import PlatformConfig.GuardPlan

/-!
# The shared guard root

The entries `active` and `consumed` below the guard root, the file-system
operations of the two guard helpers on them, and who calls them. Owner and mode
checks of directories and files are taken to pass.
-/
namespace PlatformConfig.GuardStore

open CanonicalJson GuardPlan CrashProgram CrashLock

inductive Operation
  | haproxy | keepalived | haproxyFailover
  deriving DecidableEq

/-- The identity written to `active/owner.json`. -/
structure Owner where
  operation : Operation
  planId : String
  nonce : String
  deriving DecidableEq

/-- What a file of the root holds; `torn` is a file whose writing was interrupted. -/
inductive Content
  | owner (o : Owner)
  | record (r : Record)
  | torn

/-- `active/`: its owner file, and the number of leftover temporary names. -/
structure ActiveDir where
  owner : Option Content
  pending : ℕ

/-- `consumed/`: its entries by plan ID, and the number of leftover temporary names. -/
structure ConsumedDir where
  file : String → Option Content
  pending : ℕ

structure Store where
  active : Option ActiveDir
  consumed : Option ConsumedDir

def Store.empty : Store := ⟨none, none⟩

/-- The entry of a plan below `consumed/`. -/
def Store.entry (s : Store) (p : String) : Option Content := s.consumed.bind fun d => d.file p

def ConsumedDir.set (d : ConsumedDir) (p : String) (c : Content) : ConsumedDir :=
  { d with file := Function.update d.file p (some c) }

/-- File-system operations below the root. `write` renames a finished temporary file over
the name, `create` opens a new file under its final name. -/
inductive Op
  | mkdirConsumed
  | mkdirActive
  | listActive
  | listConsumed
  | readOwner
  | readConsumed (p : String)
  | writeOwner (o : Owner)
  | writeConsumed (p : String) (r : Record) (replace : Bool)
  | createOwner (o : Owner)
  | createConsumed (p : String) (o : Owner)
  | unlinkOwner
  | rmdirActive

abbrev Reply : Op → Type
  | .mkdirConsumed => Unit
  | .mkdirActive => Bool
  | .listActive => Option (Bool × ℕ)
  | .listConsumed => Option ℕ
  | .readOwner => Option Content
  | .readConsumed _ => Option Content
  | .writeOwner _ => Bool
  | .writeConsumed _ _ _ => Bool
  | .createOwner _ => Bool
  | .createConsumed _ _ => Bool
  | .unlinkOwner => Bool
  | .rmdirActive => Bool

/-- Put the owner file of an existing `active/` that has none. -/
def Store.putOwner (s : Store) (c : Content) : Option Store :=
  match s.active with
  | some ⟨none, n⟩ => some { s with active := some ⟨some c, n⟩ }
  | _ => none

/-- Put an entry of an existing `consumed/`, new or in place of an existing one. -/
def Store.putEntry (s : Store) (p : String) (c : Content) (replace : Bool) : Option Store :=
  match s.consumed with
  | some d => if (d.file p).isSome = replace then some { s with consumed := some (d.set p c) }
    else none
  | none => none

/-- The reply and the state of an operation that can be refused. -/
def attempt (s : Store) : Option Store → Bool × Store
  | some t => (true, t)
  | none => (false, s)

def effect : (o : Op) → Store → Reply o × Store
  | .mkdirConsumed, s =>
    ((), if s.consumed.isSome then s else { s with consumed := some ⟨fun _ => none, 0⟩ })
  | .mkdirActive, s =>
    attempt s (if s.active.isSome then none else some { s with active := some ⟨none, 0⟩ })
  | .listActive, s => (s.active.map fun a => (a.owner.isSome, a.pending), s)
  | .listConsumed, s => (s.consumed.map (·.pending), s)
  | .readOwner, s => (s.active.bind (·.owner), s)
  | .readConsumed p, s => (s.entry p, s)
  | .writeOwner o, s => attempt s (s.putOwner (.owner o))
  | .writeConsumed p r replace, s => attempt s (s.putEntry p (.record r) replace)
  | .createOwner o, s => attempt s (s.putOwner (.owner o))
  | .createConsumed p o, s => attempt s (s.putEntry p (.owner o) false)
  | .unlinkOwner, s =>
    attempt s (match s.active with
      | some ⟨some _, n⟩ => some { s with active := some ⟨none, n⟩ }
      | _ => none)
  | .rmdirActive, s =>
    attempt s (match s.active with
      | some ⟨none, 0⟩ => some { s with active := none }
      | _ => none)

/-- What a kill inside a file write leaves: a temporary name, or a torn new file. -/
inductive Residue : Op → Store → Store → Prop
  | owner {o s a} (at_ : s.active = some a) :
      Residue (.writeOwner o) s { s with active := some { a with pending := a.pending + 1 } }
  | entry {p r b s d} (at_ : s.consumed = some d) : Residue (.writeConsumed p r b) s
      { s with consumed := some { d with pending := d.pending + 1 } }
  | tornOwner {o s t} (put : s.putOwner .torn = some t) : Residue (.createOwner o) s t
  | tornEntry {p o s t} (put : s.putEntry p .torn false = some t) :
      Residue (.createConsumed p o) s t

variable {sha256 : List Char → String}

/-- The host, plan and clock of a request that passed the checks before the lock. -/
structure Request (sha256 : List Char → String) where
  host : String
  plan : Plan
  now : ℤ
  valid : validatePlan sha256 plan.value = some plan
  member : host ∈ plan.hosts

/-- The clock lies in the plan's validity window. -/
def Request.Fresh (q : Request sha256) : Prop := q.plan.created ≤ q.now ∧ q.now < q.plan.expires

instance (q : Request sha256) : Decidable q.Fresh := inferInstanceAs (Decidable (_ ∧ _))

/-- The actions on a retained transaction. -/
inductive Update
  | arm | prove | fail | restore | finish
  deriving DecidableEq

/-- A request of the failover guard that reaches the lock. -/
inductive Call (sha256 : List Char → String)
  | inspect (host : String) (planId : Option String)
  | claim (q : Request sha256) (fresh : q.Fresh)
  | update (u : Update) (q : Request sha256) (fresh : u = .arm → q.Fresh)

/-- The private result of the failover guard. -/
structure Response where
  changed : Bool
  status : Option Phase
  record : Option Record
  stopAuthorized : Bool
  restoreAuthorized : Bool

/-- Who holds the mutex: an edge helper with its arguments, or a failover helper. -/
inductive Caller (sha256 : List Char → String)
  | acquire (o : Owner)
  | release (o : Owner)
  | failover (c : Call sha256)

/-- `_owner`: the identity of a failover transaction. -/
def ownerOf (p : Plan) : Owner := ⟨.haproxyFailover, p.planId, p.nonce⟩

@[simp] theorem ownerOf_planId (p : Plan) : (ownerOf p).planId = p.planId := rfl

/-- The identity under which a caller may own `active/`. -/
def Caller.identity : Caller sha256 → Option Owner
  | .acquire o => some o
  | .release o => some o
  | .failover (.inspect _ _) => none
  | .failover (.claim q _) => some (ownerOf q.plan)
  | .failover (.update _ q _) => some (ownerOf q.plan)

def Caller.acquires : Caller sha256 → Bool
  | .acquire _ => true
  | .failover (.claim _ _) => true
  | _ => false

def Caller.releases : Caller sha256 → Bool
  | .release _ => true
  | .failover (.update .finish _ _) => true
  | _ => false

/-- `ValueError` with its text, or an `OSError` of the operating system. -/
inductive Refusal
  | value (text : String)
  | os

/-- An answered section: the edge helper's success, or a failover response. -/
inductive Answer
  | complete
  | response (r : Response)

abbrev Section := Prog Op Reply Refusal Answer

/-- One operation on the root. -/
def ask (o : Op) : Prog Op Reply Refusal (Reply o) := .perform o

abbrev History (sha256 : List Char → String) := List (Event (Caller sha256) Op Reply Answer)

/-- The identities that made `active/` and have not removed it, from the operations alone. -/
def holders : History sha256 → List Owner
  | [] => []
  | .did who .mkdirActive true :: l => who.identity.toList ++ holders l
  | .did who .rmdirActive true :: l => (holders l).filter fun o => some o ≠ who.identity
  | _ :: l => holders l

/-- The plans whose acquisition was answered with success. -/
def acquired (l : History sha256) : List String :=
  (answers l).filterMap fun a => if a.1.acquires then a.1.identity.map Owner.planId else none

end PlatformConfig.GuardStore
