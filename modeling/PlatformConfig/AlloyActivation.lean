import PlatformConfig.CanonicalJson
import PlatformConfig.CrashTrace

/-!
# The initial Alloy activation

The helper that starts the telemetry agent once. Its process state root holds the records
`journal.json`, `complete.json` and `failed.json`. What the helper reads elsewhere (staged
certificates, configuration, unit, packages) is told to it by its surroundings at each
inspection. The process lock and the writer locks are held throughout.
-/
namespace PlatformConfig.AlloyActivation

open CanonicalJson CrashProgram CrashTrace Prog

instance : DecidableEq Json := fun _ _ => decidable_of_iff _ canonical_injective.eq_iff

/-- The three records, by their status. -/
inductive Status
  | intent | complete | failed
  deriving DecidableEq

def Status.text : Status → String
  | .intent => "intent"
  | .complete => "complete"
  | .failed => "failed"

abbrev Bytes := List Char

/-- The process state root: its records, and its other entries besides `lock`. -/
structure State where
  file : Status → Option Bytes
  others : List String

def State.put (s : State) (status : Status) (bytes : Bytes) : State :=
  { s with file := Function.update s.file status (some bytes) }

/-- When a certificate is valid: from `opens` until before `closes`. -/
structure Window where
  opens : ℤ
  closes : ℤ
  deriving DecidableEq

def Window.Covers (w : Window) (now : ℤ) : Prop := w.opens ≤ now ∧ now < w.closes

instance (w : Window) (now : ℤ) : Decidable (w.Covers now) := inferInstanceAs (Decidable (_ ∧ _))

/-- A telemetry writer: its leaf, its client chain and the signed rollback hold. -/
structure Writer where
  name : String
  leaf : Window
  chain : List Window
  hold : ℤ
  deriving DecidableEq

/-- `not_after`: the first certificate to expire. -/
def Writer.notAfter (w : Writer) : ℤ := (w.chain.map (·.closes)).foldl min w.leaf.closes

def Writer.Valid (w : Writer) (now : ℤ) : Prop := w.leaf.Covers now ∧ ∀ c ∈ w.chain, c.Covers now

instance (w : Writer) (now : ℤ) : Decidable (w.Valid now) := inferInstanceAs (Decidable (_ ∧ _))

/-- The inputs of an activation, as the evidence they amount to and their lifetimes. -/
structure Inputs where
  evidence : Json
  writers : List Writer
  deriving DecidableEq

/-- One inspection of the inputs: what they are, where they pass every check that does not
depend on the clock, and the clock. -/
structure Sighting where
  inputs : Option Inputs
  now : ℤ

def Inputs.Valid (i : Inputs) (now : ℤ) : Prop := ∀ w ∈ i.writers, w.Valid now

instance (i : Inputs) (now : ℤ) : Decidable (i.Valid now) :=
  inferInstanceAs (Decidable (∀ w ∈ i.writers, w.Valid now))

/-- The inputs that an inspection authenticates. -/
def Sighting.admitted (v : Sighting) : Option Inputs := v.inputs.filter fun i => i.Valid v.now

/-- What `systemctl show` reports. -/
structure Properties where
  loadState : String
  fragmentPath : String
  sourcePath : String
  dropInPaths : String
  needDaemonReload : String
  activeState : String
  unitFileState : String
  deriving DecidableEq

/-- The paths and the writers of the context file. -/
structure Context where
  unit : String
  dropin : String
  writers : List String

/-- Inspections that either pass or do not. -/
inductive Check
  | sources | lock | package | validate | ready
  deriving DecidableEq

inductive Op
  | records
  | authenticate
  | showUnit
  | clock
  | check (c : Check)
  | enable
  | disable
  | publish (status : Status) (bytes : Bytes)

abbrev Reply : Op → Type
  | .records => Option State
  | .authenticate => Sighting
  | .showUnit => Option Properties
  | .clock => ℤ
  | .check _ => Bool
  | .enable => Bool
  | .disable => Bool
  | .publish _ _ => Bool

/-- What an operation can do. Only `publish` changes the state root, and only a name that is
absent; it can fail before and after it renames the new record into place. -/
inductive Done : (o : Op) → State → Reply o → State → Prop
  | records (s) : Done .records s (some s) s
  | unread (s) : Done .records s none s
  | authenticate (v s) : Done .authenticate s v s
  | shown (p s) : Done .showUnit s p s
  | clock (n s) : Done .clock s n s
  | check (c b s) : Done (.check c) s b s
  | enable (b s) : Done .enable s b s
  | disable (b s) : Done .disable s b s
  | refused (st b s) : Done (.publish st b) s false s
  | published {st b s} (absent : s.file st = none) (r : Bool) :
      Done (.publish st b) s r (s.put st b)

/-- The helper on its state root, with kills between two operations. -/
def semantics : Semantics Op Reply State := ⟨Done, fun _ _ _ => False⟩

abbrev Run := Prog Op Reply String

/-- The record file of a status. -/
def recordBytes (status : Status) (evidence : Json) : Bytes :=
  canonical (.obj [("evidence", evidence), ("kind", .str "alloy-initial-activation"),
    ("schema", .int 1), ("status", .str status.text)]) ++ ['\n']

def check (c : Check) (e : String) : Run Unit := do
  require (← perform (.check c)) e

def authenticate : Run Inputs := do
  let seen : Sighting ← perform Op.authenticate
  match seen.admitted with
  | some i => pure i
  | none => .fail "inputs rejected"

/-- Inputs that must amount to the same evidence as before. -/
def authenticateAs (evidence : Json) (e : String) : Run Inputs := do
  let i ← authenticate
  require (i.evidence = evidence) e
  pure i

/-- The unit belongs to the package and the drop-in of the context. -/
def Properties.owned (c : Context) (p : Properties) : Bool :=
  p.loadState = "loaded" && p.fragmentPath = c.unit && p.sourcePath = "" &&
    p.dropInPaths = c.dropin && p.needDaemonReload = "no"

def Properties.known (p : Properties) : Bool :=
  p.unitFileState = "enabled" || p.unitFileState = "disabled"

def Properties.is (p : Properties) (desired : String × String) : Bool :=
  (p.activeState, p.unitFileState) = desired

def showUnit : Run Properties := do
  let shown : Option Properties ← perform Op.showUnit
  match shown with
  | some p => pure p
  | none => .fail "fixed Alloy command failed"

def unit (c : Context) (desired : Option (String × String)) : Run Unit := do
  let p ← showUnit
  require (p.owned c) "unit ownership mismatch"
  require p.known "unit must be unmasked with known enablement"
  require (desired.all p.is) "unexpected Alloy service state"
  check .package "unit or executable RPM identity mismatch"

/-- The names in the state root are one of the four sets that the helper can leave. -/
def State.known (s : State) : Bool :=
  s.others = [] && match s.file .intent, s.file .complete, s.file .failed with
    | none, none, none => true
    | some _, none, none => true
    | some _, some _, none => true
    | some _, none, some _ => true
    | _, _, _ => false

/-- A record that is there is the canonical text of its status and the evidence. -/
def State.authentic (s : State) (evidence : Json) (status : Status) : Bool :=
  (s.file status).all fun b => b = recordBytes status evidence

def State.terminal (s : State) : Option Status :=
  if (s.file .complete).isSome then some .complete
  else if (s.file .failed).isSome then some .failed
  else none

def readState : Run State := do
  let seen : Option State ← perform Op.records
  match seen with
  | some s => pure s
  | none => .fail "cannot read process state"

/-- `records`: whether the intent is there, and which terminal record. -/
def records (evidence : Json) : Run (Bool × Option Status) := do
  let s ← readState
  require s.known "unknown process state retained"
  require (s.authentic evidence .intent && s.authentic evidence .complete &&
    s.authentic evidence .failed) "process record authentication mismatch; retained"
  pure ((s.file .intent).isSome, s.terminal)

def writeRecord (status : Status) (evidence : Json) : Run Unit := do
  require (← perform (.publish status (recordBytes status evidence))) "cannot write process record"

def enable : Run Unit := do
  require (← perform .enable) "fixed Alloy command failed"

def disable : Run Unit := do
  require (← perform .disable) "fixed Alloy command failed"

/-- Enough lifetime for the hold and one more day, for a new start only. -/
def requireStartMargin (i : Inputs) : Run Unit := do
  let now ← perform .clock
  require (i.writers.all fun w => w.hold + 86400 ≤ w.notAfter - now)
    "insufficient remaining lifetime for initial hold plus one-day buffer"

/-- The intent is there and no terminal record. -/
def requireIntent (evidence : Json) (e : String) : Run Unit := do
  let found ← records evidence
  require (found = (true, none)) e

def stop (c : Context) (evidence : Json) : Run Unit := do
  let _ ← authenticateAs evidence "inputs drifted; recovery required"
  requireIntent evidence "stop requires an exact nonterminal intent"
  unit c none
  check .sources "input snapshot changed"
  disable
  unit c (some ("inactive", "disabled"))
  let _ ← authenticateAs evidence "inputs drifted after stop; retained"
  requireIntent evidence "intent changed after stop; retained"
  writeRecord .failed evidence

/-- What an invocation prints. -/
inductive Report
  | status (status : String) (changed : Bool)
  | predecessorVerified (writer : String) (observed : ℤ) (remaining : List (String × ℤ))
  deriving DecidableEq

inductive Action
  | check | activate | recover | status
  | renewalPreflight (writer : String)
  deriving DecidableEq

def renewalObservation (c : Context) (evidence : Json) (writer : String) : Run Report := do
  unit c (some ("active", "enabled"))
  let i ← authenticateAs evidence "renewal predecessor inputs drifted"
  let found ← records evidence
  require (found = (true, some .complete)) "renewal preflight requires a completed initial receipt"
  check .lock "process lock changed"
  let observed ← perform .clock
  require (0 < observed) "invalid observation time"
  require (i.writers.all fun w => 0 < w.notAfter - observed)
    "renewal predecessor expired during observation"
  pure (.predecessorVerified writer observed (i.writers.map fun w => (w.name, w.notAfter - observed)))

/-- The start itself, after the intent is durable. -/
def start (c : Context) (evidence : Json) : Run Unit := do
  let i ← authenticateAs evidence "inputs drifted before start"
  unit c (some ("inactive", "disabled"))
  check .sources "input snapshot changed"
  requireStartMargin i
  enable
  unit c (some ("active", "enabled"))
  check .ready "Alloy readiness failed"
  let _ ← authenticateAs evidence "inputs drifted before completion"
  unit c (some ("active", "enabled"))
  let _ ← records evidence
  check .sources "input snapshot changed"
  writeRecord .complete evidence

/-- A failed start is stopped; it leaves the intent where the stop cannot be verified. -/
def rollback (c : Context) (evidence : Json) : Run Unit :=
  (Prog.handle (stop c evidence) fun _ =>
    .fail "rollback unverified; intent retained; recovery required").bind fun _ =>
    .fail "initial activation failed; verified inactive and disabled; review required"

/-- Nothing has been started yet. -/
def prepared (c : Context) (action : Action) (evidence : Json) : Run Report := do
  unit c (some ("inactive", "disabled"))
  check .validate "fixed Alloy command failed"
  let i ← authenticateAs evidence "pre-start inputs drifted"
  if action = .activate then
    let _ ← records evidence
    unit c (some ("inactive", "disabled"))
    requireStartMargin i
    writeRecord .intent evidence
    (start c evidence).handle fun _ => rollback c evidence
    pure (.status "complete" true)
  else if action = .check then
    requireStartMargin i
    pure (.status "prepared" false)
  else
    pure (.status "prepared" false)

def recover (c : Context) (evidence : Json) : Run Report := do
  Prog.handle (stop c evidence) fun _ =>
    .fail "rollback unverified; intent retained; recovery required"
  pure (.status "failed" true)

def interrupted (c : Context) (action : Action) (evidence : Json) : Run Report :=
  if action = .recover then recover c evidence
  else if action = .status then pure (.status "recovery-required" false)
  else .fail "interrupted intent requires recover"

def completed (c : Context) (action : Action) (evidence : Json) : Run Report := do
  unit c (some ("active", "enabled"))
  check .validate "fixed Alloy command failed"
  check .ready "Alloy readiness failed"
  let _ ← authenticateAs evidence "completed inputs drifted"
  match action with
  | .renewalPreflight writer => renewalObservation c evidence writer
  | _ => pure (.status "complete" false)

def failed (c : Context) (action : Action) : Run Report := do
  unit c (some ("inactive", "disabled"))
  require (action ≠ .activate) "failed terminal requires review; automatic reuse forbidden"
  pure (.status "failed" false)

def Action.selected (c : Context) : Action → Bool
  | .renewalPreflight writer => writer ∈ c.writers
  | _ => true

def Action.preflight : Action → Bool
  | .renewalPreflight _ => true
  | _ => false

def classify (c : Context) (action : Action) (evidence : Json) : Bool × Option Status → Run Report
  | (_, some .complete) => completed c action evidence
  | (_, some _) => failed c action
  | (true, none) => interrupted c action evidence
  | (false, none) => prepared c action evidence

def execute (c : Context) (action : Action) : Run Report := do
  require (action.selected c) "renewal writer must be configured"
  check .sources "input snapshot changed"
  let _ ← authenticate
  unit c none
  let i ← authenticate
  let found ← records i.evidence
  check .lock "process lock changed"
  require (!action.preflight || found.2 = some .complete)
    "renewal preflight requires a completed initial receipt"
  classify c action i.evidence found

end PlatformConfig.AlloyActivation
