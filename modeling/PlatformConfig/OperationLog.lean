import PlatformConfig.Fallible
import PlatformConfig.JsonLines
import PlatformConfig.OperationSummary

/-!
# The log of an operation

The callback plugin and the launcher append records to the log of an operation, one JSON object a
line, and the summary splits the log and checks the fields of each record. The host names that are
addresses, the reading of a float and its number, and the calls that fail are parameters.
-/
namespace PlatformConfig.OperationLog

open CanonicalJson JsonText Operation
open RecordText (Text Bytes encode decode splitLines unlines)

def counterNames : List String := ["ok", "changed", "failures", "unreachable", "skipped", "rescued", "ignored"]

/-- `FAILOVER_RESULTS` -/
def failoverResults : List (String × List String) := [("failover_test_result", ["passed", "failed", "not_run"]),
  ("recovery_result", ["passed", "failed", "not_required"]), ("final_smoke_result", ["passed", "failed", "not_run"])]

/-- `FAILOVER_TIMES` -/
def failoverTimes : List String := ["failover_elapsed_seconds", "transaction_elapsed_seconds"]

def failoverKeys : List String := failoverResults.map Prod.fst ++ failoverTimes

def failoverPhases : List String := ["failover-plan", "failover-test", "failover-recover"]

def publishTask : String := "Publish sanitized failover phase results on every selected host"

/-! ## Writing -/

section Writing
variable (parse : List Char → Option FloatText)

/-- A float, as the text of its `repr`, which is read back as the float. -/
abbrev FloatValue := {t : FloatText // readNumber parse t.text = some (.float t)}

/-- A value that the callback is given. -/
inductive Value
  | null
  | bool (b : Bool)
  | int (n : ℤ)
  | float (t : FloatValue parse)
  | str (s : String)
  | other

variable {parse}

namespace Value

/-- The value as JSON; no other object is written. -/
def toJson : Value parse → Json
  | null | other => .null
  | bool b => .bool b
  | int n => .int n
  | float t => .float t.1
  | str s => .str s

def isTrue : Value parse → Bool
  | bool b => b
  | _ => false

/-- `_safe_text` -/
def safeText (maximum : ℕ) : Value parse → Option String
  | str s => if Operation.safeText s maximum then some s else none
  | _ => none

/-- `_safe_host` -/
def safeHost (address : String → Bool) : Value parse → Option String
  | str s => if Operation.safeHost address s then some s else none
  | _ => none

end Value

lemma Value.safeHost_spec {address : String → Bool} {v : Value parse} {h : String} (named : v.safeHost address = some h) :
    Operation.safeHost address h = true := by
  unfold Value.safeHost at named
  split at named
  · obtain ⟨ok, same⟩ := Option.ite_none_right_eq_some.mp named
    cases same
    exact ok
  · cases named

lemma Value.safeText_spec {maximum : ℕ} {v : Value parse} {t : String} (told : v.safeText maximum = some t) :
    Operation.safeText t maximum = true := by
  unfold Value.safeText at told
  split at told
  · obtain ⟨ok, same⟩ := Option.ite_none_right_eq_some.mp told
    cases same
    exact ok
  · cases told

variable (parse)

/-- A dictionary with strings as its keys. -/
structure Dict where
  fields : List (String × Value parse)
  distinct : (fields.map Prod.fst).Nodup

/-- What Ansible reports to the callback. A result without a message in the form of such a dictionary has none. -/
inductive Event
  | ok (host task action changed : Value parse) (msg : Option (Dict parse))
  | failed (host task : Value parse) (ignoreErrors : Bool)
  | unreachable (host task : Value parse)
  | stats (processed : List (String × List (String × Value parse)))

/-- One run of Ansible: the log's path is set or not, the phase of the environment, and whether the
iteration over the set of failover times begins with the second one. -/
structure Play where
  path : Bool
  phase : String
  flipped : Bool
  events : List (Event parse)

variable {parse}

def errorRecord (phase : String) : Json := .obj [("schema", .int 1), ("kind", .str "error"), ("phase", .str phase)]

def taskRecord (phase host outcome task : String) : Json := .obj [("schema", .int 1), ("kind", .str "task"),
  ("phase", .str phase), ("host", .str host), ("outcome", .str outcome), ("task", .str task)]

def recapRecord (phase host : String) (counters : List (String × ℤ)) : Json := .obj [("schema", .int 1),
  ("kind", .str "recap"), ("phase", .str phase), ("host", .str host),
  ("counters", .obj (counters.map fun c => (c.1, .int c.2)))]

def failoverRecord (phase host : String) (values : Dict parse) : Json := .obj ([("schema", .int 1),
  ("kind", .str "failover"), ("phase", .str phase), ("host", .str host)] ++
    values.fields.map fun v => (v.1, v.2.toJson))

/-- The records of the log so far, the calls of `_append_record`, and the callback's `_write_failed`. -/
structure State where
  records : List Json
  tries : ℕ
  writeFailed : Bool

namespace State

def appended (s : State) (r : Json) : State := { s with records := s.records ++ [r], tries := s.tries + 1 }

def failed (s : State) : State := { s with tries := s.tries + 1, writeFailed := true }

end State

/-! `fails` says which calls raise an `OSError` before they write. -/
variable (address : String → Bool) (number : FloatText → ℚ) (fails : ℕ → Bool)

/-- `_append_record`, with the handler of its `OSError`. -/
def append (s : State) (r : Json) : State := if fails s.tries then s.failed else s.appended r

def writeTask (phase : String) (s : State) (host task : Value parse) (outcome : String) : State :=
  match host.safeHost address, task.safeText 255 with
  | some h, some t => append fails s (taskRecord phase h outcome t)
  | _, _ => append fails s (errorRecord phase)

/-- The check of a failover time; `math.isfinite` raises for an integer that is too large for a float. -/
inductive Judgement
  | good
  | bad
  | raises
deriving DecidableEq

def judge : Value parse → Judgement
  | .null => .good
  | .int n =>
    if 2 ^ 1024 - 2 ^ 970 ≤ n.natAbs then .raises else if 0 ≤ n && n ≤ 86400 then .good else .bad
  | .float t => if 0 ≤ number t.1 && number t.1 ≤ 86400 then .good else .bad
  | _ => .bad

/-- The times one after another, up to the first that is not good. -/
def judgeTimes (values : Dict parse) : List String → Judgement
  | [] => .good
  | key :: keys =>
    match judge number ((values.fields.lookup key).getD .other) with
    | .good => judgeTimes values keys
    | verdict => verdict

/-- The values of a failover report as far as their results. -/
def reportable (values : Dict parse) : Bool :=
  (values.fields.map Prod.fst).all failoverKeys.contains &&
    failoverKeys.all (values.fields.map Prod.fst).contains &&
    failoverResults.all fun r =>
      match values.fields.lookup r.1 with
      | some (.str s) => r.2.contains s
      | _ => false

/-- `_write_failover`; the event ends here when the check of a time raises. -/
def writeFailover (flipped : Bool) (phase : String) (s : State) (host : Value parse) (msg : Option (Dict parse)) :
    State × Bool :=
  match host.safeHost address, msg.filter reportable with
  | some h, some values =>
    match judgeTimes number values (if flipped then failoverTimes.reverse else failoverTimes) with
    | .good => (append fails s (failoverRecord phase h values), false)
    | .bad => (append fails s (errorRecord phase), false)
    | .raises => (s, true)
  | _, _ => (append fails s (errorRecord phase), false)

/-- A counter of a summary, unless it is no natural number. -/
def counterOf (summary : List (String × Value parse)) (counter : String) : Option (String × ℤ) :=
  match (summary.lookup counter).getD (.int 0) with
  | .int n => if 0 ≤ n then some (counter, n) else none
  | _ => none

def countersOf (summary : List (String × Value parse)) : Option (List (String × ℤ)) :=
  counterNames.mapM (counterOf summary)

/-- The recaps of the hosts; `json.dumps` raises for a number of more than 4300 digits. -/
def writeRecaps (phase : String) : State → List (String × List (String × Value parse)) → State
  | s, [] => s
  | s, (host, summary) :: rest =>
    match (Value.str host : Value parse).safeHost address, countersOf summary with
    | some h, some counters =>
      if fails s.tries then s.failed
      else if counters.any fun c => 10 ^ 4300 ≤ c.2 then { s with tries := s.tries + 1 }
      else writeRecaps phase (s.appended (recapRecord phase h counters)) rest
    | _, _ => append fails s (errorRecord phase)

/-- The report of a task that publishes the failover results. -/
def publish (flipped : Bool) (phase : String) (s : State) (host task action : Value parse) (msg : Option (Dict parse)) :
    State × Bool :=
  match action, task with
  | .str a, .str t =>
    if phase ∈ failoverPhases ∧ (a = "debug" ∨ a = "ansible.builtin.debug") ∧ t = publishTask then
      writeFailover address number fails flipped phase s host msg
    else (s, false)
  | _, _ => (s, false)

/-- `v2_runner_on_ok` -/
def runOk (flipped : Bool) (phase : String) (s : State) (host task action changed : Value parse)
    (msg : Option (Dict parse)) : State :=
  let published := publish address number fails flipped phase s host task action msg
  if published.2 then published.1
  else if changed.isTrue then writeTask address fails phase published.1 host task "changed"
  else published.1

/-- `v2_playbook_on_stats` -/
def runStats (phase : String) (s : State) (processed : List (String × List (String × Value parse))) : State :=
  if s.writeFailed then append fails s (errorRecord phase)
  else writeRecaps address fails phase s (processed.insertionSort fun p q => p.1 ≤ q.1)

def runEvent (flipped : Bool) (phase : String) (s : State) : Event parse → State
  | .ok host task action changed msg => runOk address number fails flipped phase s host task action changed msg
  | .failed host task ignoreErrors => if ignoreErrors then s else writeTask address fails phase s host task "failed"
  | .unreachable host task => writeTask address fails phase s host task "unreachable"
  | .stats processed => runStats address fails phase s processed

/-- A run of Ansible, with a callback of its own. -/
def runPlay (s : State) (p : Play parse) : State :=
  if p.path && Operation.safeText p.phase 64 then
    p.events.foldl (runEvent address number fails p.flipped p.phase) { s with writeFailed := false }
  else s

/-- What the launcher does between its first and its last write. -/
inductive Act (parse : List Char → Option FloatText)
  | phase (phase state : String) (status : Option ℤ)
  | play (p : Play parse)

/-- `command_phase` -/
def phaseRecord (phase state : String) (status : Option ℤ) : Option Json :=
  if !(Operation.safeText phase 64 && Operation.safeText state 16) then none
  else
    match state, status with
    | "started", none =>
      some (.obj [("schema", .int 1), ("kind", .str "phase"), ("phase", .str phase), ("state", .str "started")])
    | "completed", some status =>
      if 0 ≤ status ∧ status ≤ 255 then some (.obj [("schema", .int 1), ("kind", .str "phase"),
        ("phase", .str phase), ("state", .str "completed"), ("status", .int status)])
      else none
    | _, _ => none

def runAct (s : State) : Act parse → State
  | .phase phase state status => (phaseRecord phase state status).elim s (append fails s)
  | .play p => runPlay address number fails s p

/-- What `command_hosts` has selected from the inventory, by names that `safe_host` accepts. -/
structure Selection where
  selected : List String
  registry : List String
  servers : List String
  agents : List String
  safe : ∀ h ∈ selected, safeHost address h = true
  distinct : selected.Nodup

/-- The role of a host record. -/
def Selection.role {address : String → Bool} (operation : String) (c : Selection address) (host : String) : String :=
  if operation ∈ openbaoStorageOperations then "openbao-storage"
  else if operation = "storage-check" ∨ operation = "storage-apply" then
    if host ∈ c.servers then "server" else "agent"
  else if operation ∈ registryOperations then if host ∈ c.registry then "registry" else "registry-client"
  else if operation ∈ openbaoOperations then "openbao"
  else if decide (host ∈ c.servers) = decide (host ∈ c.agents) then "N/A"
  else if host ∈ c.servers then "server"
  else "agent"

def hostRecord (host role : String) : Json :=
  .obj [("schema", .int 1), ("kind", .str "host"), ("host", .str host), ("role", .str role)]

/-- The hosts of a selection, in the order of their names. -/
def Selection.hosts {address : String → Bool} (operation : String) (c : Selection address) : Hosts :=
  (c.selected.insertionSort (· ≤ ·)).map fun h => (h, c.role operation h)

/-- `write_records` of the hosts, in one call. -/
def writeHosts (operation : String) (s : State) : Option (Selection address) → State
  | none => s
  | some c =>
    if fails s.tries then { s with tries := s.tries + 1 }
    else { s with
      records := s.records ++ (c.hosts operation).map fun h => hostRecord h.1 h.2
      tries := s.tries + 1 }

def operationRecord (operation : String) (phases : List String) : Json := .obj [("schema", .int 1),
  ("kind", .str "operation"), ("operation", .str operation), ("phases", .arr (phases.map .str))]

/-- An operation of the launcher: what happens before and after its hosts are written. -/
structure Run (parse : List Char → Option FloatText) (address : String → Bool) where
  operation : String
  before : List (Act parse)
  hosts : Option (Selection address)
  after : List (Act parse)

/-- The records behind the first one. -/
def Run.state (r : Run parse address) : State :=
  let s := r.before.foldl (runAct address number fails) ⟨[], 0, false⟩
  r.after.foldl (runAct address number fails) (writeHosts address fails r.operation s r.hosts)

/-- The records of the log, which `command_initialize` begins. -/
def Run.records (r : Run parse address) : Option (List Json) :=
  if !Operation.safeText r.operation 64 then none
  else (operations.lookup r.operation).map fun phases =>
    operationRecord r.operation phases :: (r.state address number fails).records

/-- The bytes that have been appended. -/
def logOf (records : List Json) : Bytes := encode (unlines (records.map (dumps [])))

end Writing

/-! ## Reading -/

section Reading
variable (parse : List Char → Option FloatText) (address : String → Bool) (number : FloatText → ℚ)

def maxInputBytes : ℕ := 32 * 1024 * 1024

/-- A value that Python holds equal to 1. -/
def isOne : Json → Bool
  | .int n => n = 1
  | .bool b => b
  | .float t => number t = 1
  | _ => false

/-- `exact_keys` -/
def exactKeys (r : Json) (expected : List String) : Bool :=
  (r.keys?.any fun keys => keys.all expected.contains && expected.all keys.contains) &&
    (r.get? "schema").any (isOne number)

/-- `safe_text` of a field. -/
def textAt (r : Json) (key : String) (maximum : ℕ) : Option String :=
  ((r.get? key).bind Json.str?).filter fun s => safeText s maximum

/-- `safe_host` of a field. -/
def hostAt (r : Json) (key : String) : Option String := ((r.get? key).bind Json.str?).filter fun s => safeHost address s

def kindOf (r : Json) : Option String := (r.get? "kind").bind Json.str?

/-- A line of the log: an object, in which the reader here does not take a key twice. -/
def readLine (line : Text) : Option Json :=
  if line = [] then none
  else
    match loads parse line with
    | some (.obj fields) => some (.obj fields)
    | _ => none

/-- The host records, and the others in their order. -/
def splitHosts (operation : String) : List Json → Hosts → Option (Hosts × List Json)
  | [], hosts => some (hosts, [])
  | r :: rs, hosts =>
    if kindOf r ≠ some "host" then (splitHosts operation rs hosts).map fun p => (p.1, r :: p.2)
    else if !exactKeys number r ["schema", "kind", "host", "role"] then none
    else
      match hostAt address r "host", textAt r "role" 16 with
      | some host, some role =>
        if role ∈ allowedRoles operation ∧ hosts.lookup host = none then
          splitHosts operation rs (hosts ++ [(host, role)])
        else none
      | _, _ => none

structure Parsed where
  operation : String
  phases : List String
  hosts : Hosts
  remaining : List Json

/-- What `parse_records` does with the records of the lines. -/
def parseAll : List Json → Option Parsed
  | [] => none
  | first :: rest =>
    if !(exactKeys number first ["schema", "kind", "operation", "phases"] && kindOf first = some "operation") then none
    else
      match textAt first "operation" 64, first.get? "phases" with
      | some operation, some (.arr xs) =>
        match xs.mapM Json.str?, operations.lookup operation with
        | some phases, some table =>
          if phases = table then
            (splitHosts address number operation rest []).map fun p => ⟨operation, phases, p.1, p.2⟩
          else none
        | _, _ => none
      | _, _ => none

/-- `parse_records`; a log with bytes outside ASCII is not read here. -/
def parseRecords (log : Bytes) : Option Parsed :=
  if maxInputBytes < log.length then none
  else
    (decode log).bind fun text => ((splitLines text).mapM (readLine parse)).bind (parseAll address number)

/-! The checks of `command_render` on the fields of a record, without those of the host's and the
phase's membership and of a record's uniqueness. -/

def checkTask (r : Json) : Bool :=
  exactKeys number r ["schema", "kind", "phase", "host", "outcome", "task"] && (textAt r "phase" 64).isSome &&
    (hostAt address r "host").isSome && (textAt r "outcome" 16).any (fun o => outcomes.contains o) &&
    (textAt r "task" 255).isSome

def checkCounter (counters : Json) (counter : String) : Bool :=
  ((counters.get? counter).bind Json.int?).any fun n => 0 ≤ n && n ≤ 1000000

def checkRecap (r : Json) : Bool :=
  exactKeys number r ["schema", "kind", "phase", "host", "counters"] && (textAt r "phase" 64).isSome &&
    (hostAt address r "host").isSome &&
    (r.get? "counters").any fun counters =>
      (counters.keys?.any fun keys => keys.all counterNames.contains && counterNames.all keys.contains) &&
        counterNames.all (checkCounter counters)

def checkTime : Json → Bool
  | .null => true
  | .int n => 0 ≤ n && n ≤ 86400
  | .float t => 0 ≤ number t && number t ≤ 86400
  | _ => false

def checkFailover (r : Json) : Bool :=
  exactKeys number r (["schema", "kind", "phase", "host"] ++ failoverKeys) && (hostAt address r "host").isSome &&
    (failoverResults.all fun f => ((r.get? f.1).bind Json.str?).any fun s => f.2.contains s) &&
    failoverTimes.all fun key => (r.get? key).any (checkTime number)

/-- The counters of a recap record. -/
def countersAt (r : Json) : List ℤ :=
  match r.get? "counters" with
  | some (.obj fields) => fields.filterMap fun f => f.2.int?
  | _ => []

end Reading

/-! ## The fields of what is read back -/

section Normal
variable {fs : List (String × Json)} {number : FloatText → ℚ} {address : String → Bool}

lemma lookup_perm {l l' : List (String × Json)} (same : l.Perm l') (distinct : (l.map Prod.fst).Nodup) (key : String) :
    l.lookup key = l'.lookup key := by
  induction same with
  | nil => rfl
  | cons p _ ih =>
    obtain ⟨k, v⟩ := p
    simp only [List.lookup_cons, ih (List.nodup_cons.mp distinct).2]
  | swap p q l =>
    obtain ⟨k, v⟩ := p
    obtain ⟨k', v'⟩ := q
    have other : k' ≠ k := by
      rintro rfl
      simp at distinct
    cases first : key == k <;> cases second : key == k'
    case true.true => exact absurd ((eq_of_beq second).symm.trans (eq_of_beq first)) other
    all_goals simp [List.lookup_cons, first, second]
  | trans first _ ih ih' =>
    rw [ih distinct, ih' (((first.map Prod.fst).nodup_iff).mp distinct)]

lemma lookup_mapped {α β : Type} {fs : List (String × α)} (f : α → β) (key : String) :
    (fs.map fun v => (v.1, f v.2)).lookup key = (fs.lookup key).map f := by
  induction fs with
  | nil => rfl
  | cons p fs ih =>
    obtain ⟨k, v⟩ := p
    simp only [List.map_cons, List.lookup_cons, ih]
    split <;> rfl

lemma perm_normal : ((normalFields fs).insertionSort fun f g => f.1 ≤ g.1).Perm (normalFields fs) :=
  List.perm_insertionSort _ _

lemma get?_normal (distinct : (fs.map Prod.fst).Nodup) (key : String) :
    (normal (.obj fs)).get? key = ((Json.obj fs).get? key).map normal := by
  have keys : ((normalFields fs).map Prod.fst).Nodup := by rwa [normalFields_keys]
  have sorted := lookup_perm perm_normal.symm keys key
  change ((normalFields fs).insertionSort _).lookup key = (fs.lookup key).map normal
  rw [← sorted, normalFields_eq, lookup_mapped]

lemma keys_normal : ∃ keys, (normal (.obj fs)).keys? = some keys ∧ ∀ k, k ∈ keys ↔ k ∈ fs.map Prod.fst := by
  refine ⟨_, rfl, fun k => ?_⟩
  rw [(perm_normal.map Prod.fst).mem_iff, normalFields_keys]

lemma all_contains {xs ys : List String} : xs.all ys.contains = true ↔ ∀ x ∈ xs, x ∈ ys := by simp

lemma sameKeys_normal {expected : List String} :
    ((normal (.obj fs)).keys?.any fun keys => keys.all expected.contains && expected.all keys.contains) =
      ((Json.obj fs).keys?.any fun keys => keys.all expected.contains && expected.all keys.contains) := by
  obtain ⟨keys, read, same⟩ : ∃ keys, (normal (.obj fs)).keys? = some keys ∧ ∀ k, k ∈ keys ↔ k ∈ fs.map Prod.fst :=
    keys_normal
  rw [read]
  change (keys.all expected.contains && expected.all keys.contains) =
    ((fs.map Prod.fst).all expected.contains && expected.all (fs.map Prod.fst).contains)
  rw [Bool.eq_iff_iff, Bool.and_eq_true, Bool.and_eq_true, all_contains, all_contains, all_contains, all_contains]
  simp only [same]

lemma str?_normal (j : Option Json) : (j.map normal).bind Json.str? = j.bind Json.str? := by
  cases j with
  | none => rfl
  | some j => cases j <;> rfl

lemma int?_normal (j : Option Json) : (j.map normal).bind Json.int? = j.bind Json.int? := by
  cases j with
  | none => rfl
  | some j => cases j <;> rfl

lemma isOne_normal (j : Option Json) : (j.map normal).any (isOne number) = j.any (isOne number) := by
  cases j with
  | none => rfl
  | some j => cases j <;> rfl

lemma exactKeys_normal (distinct : (fs.map Prod.fst).Nodup) (expected : List String) :
    exactKeys number (normal (.obj fs)) expected = exactKeys number (.obj fs) expected := by
  rw [exactKeys, exactKeys, sameKeys_normal, get?_normal distinct, isOne_normal]

lemma textAt_normal (distinct : (fs.map Prod.fst).Nodup) (key : String) (maximum : ℕ) :
    textAt (normal (.obj fs)) key maximum = textAt (.obj fs) key maximum := by
  rw [textAt, textAt, get?_normal distinct, str?_normal]

lemma hostAt_normal (distinct : (fs.map Prod.fst).Nodup) (key : String) :
    hostAt address (normal (.obj fs)) key = hostAt address (.obj fs) key := by
  rw [hostAt, hostAt, get?_normal distinct, str?_normal]

lemma kindOf_normal (distinct : (fs.map Prod.fst).Nodup) : kindOf (normal (.obj fs)) = kindOf (.obj fs) := by
  rw [kindOf, kindOf, get?_normal distinct, str?_normal]

lemma checkTask_normal (distinct : (fs.map Prod.fst).Nodup) :
    checkTask address number (normal (.obj fs)) = checkTask address number (.obj fs) := by
  simp only [checkTask, exactKeys_normal distinct, textAt_normal distinct, hostAt_normal distinct]

lemma checkTime_normal (j : Option Json) : (j.map normal).any (checkTime number) = j.any (checkTime number) := by
  cases j with
  | none => rfl
  | some j => cases j <;> rfl

lemma checkFailover_normal (distinct : (fs.map Prod.fst).Nodup) :
    checkFailover address number (normal (.obj fs)) = checkFailover address number (.obj fs) := by
  simp only [checkFailover, exactKeys_normal distinct, hostAt_normal distinct, get?_normal distinct, str?_normal,
    checkTime_normal]

end Normal

/-! ## Records that are appended -/

section Appended
variable {parse : List Char → Option FloatText} {address : String → Bool} {number : FloatText → ℚ}

/-- A record of the callback or of a phase: it can be read back, and with its fields the summary is content,
but for a counter that is too large. -/
structure Good (parse : List Char → Option FloatText) (address : String → Bool) (number : FloatText → ℚ) (r : Json) :
    Prop where
  shape : ∃ fs, r = .obj fs
  readable : Readable parse r
  other : kindOf r ≠ some "host"
  task : kindOf r = some "task" → checkTask address number r = true
  failover : kindOf r = some "failover" → checkFailover address number r = true
  recap : kindOf r = some "recap" → (checkRecap address number (normal r) = true ↔ ∀ n ∈ countersAt r, n ≤ 1000000)

lemma fieldsReadable_iff {fs : List (String × Json)} : FieldsReadable parse fs ↔ ∀ f ∈ fs, Readable parse f.2 := by
  induction fs with
  | nil => simp [FieldsReadable]
  | cons f fs ih =>
    obtain ⟨k, v⟩ := f
    rw [FieldsReadable, ih, List.forall_mem_cons]

/-- A record of another kind is good when it can be read back. -/
lemma good_of_kind {fs : List (String × Json)} {kind : String} (readable : Readable parse (.obj fs))
    (named : kindOf (.obj fs) = some kind) (free : kind ∉ ["host", "task", "failover", "recap"]) :
    Good parse address number (.obj fs) := by
  simp only [List.mem_cons, List.not_mem_nil, or_false, not_or] at free
  obtain ⟨host, task, failover, recap⟩ := free
  refine ⟨⟨fs, rfl⟩, readable, ?_, ?_, ?_, ?_⟩ <;> rw [named] <;> simp [host, task, failover, recap]

lemma errorRecord_good (phase : String) : Good parse address number (errorRecord phase) :=
  good_of_kind ⟨by simp, by simp [FieldsReadable, Readable]⟩ rfl (by decide)

lemma phaseRecord_good {phase state : String} {status : Option ℤ} {r : Json}
    (made : phaseRecord phase state status = some r) : Good parse address number r := by
  unfold phaseRecord at made
  split at made
  · cases made
  split at made
  · cases made
    exact good_of_kind ⟨by simp, by simp [FieldsReadable, Readable]⟩ rfl (by decide)
  · split at made
    · cases made
      exact good_of_kind ⟨by simp, by simp [FieldsReadable, Readable]⟩ rfl (by decide)
    · cases made
  · cases made

lemma taskRecord_good {phase host outcome task : String} (hp : safeText phase 64 = true)
    (hh : safeHost address host = true) (ho : outcome ∈ outcomes) (ht : safeText task 255 = true) :
    Good parse address number (taskRecord phase host outcome task) := by
  have kind : kindOf (taskRecord phase host outcome task) = some "task" := rfl
  have short : safeText outcome 16 = true := by
    have each : ∀ o ∈ outcomes, safeText o 16 = true := by decide
    exact each outcome ho
  refine ⟨⟨_, rfl⟩, ⟨by simp, by simp [FieldsReadable, Readable]⟩, by simp [kind], fun _ => ?_, by simp [kind], by simp [kind]⟩
  simp [checkTask, exactKeys, textAt, hostAt, taskRecord, Json.get?, Json.keys?, Json.str?, isOne, List.lookup_cons, hp, hh,
    ho, ht, short]

lemma lookup_of_mem {α : Type} {l : List (String × α)} (distinct : (l.map Prod.fst).Nodup) {p : String × α}
    (mem : p ∈ l) : l.lookup p.1 = some p.2 := by
  obtain ⟨before, after, rfl⟩ := List.append_of_mem mem
  refine List.lookup_eq_some_iff.mpr ⟨before, after, rfl, fun q there => ?_⟩
  rw [List.map_append, List.map_cons, List.nodup_middle] at distinct
  have apart := (List.nodup_cons.mp distinct).1
  rw [bne_iff_ne]
  intro same
  exact apart (List.mem_append_left _ (same ▸ List.mem_map_of_mem there))

/-- The counters of a recap are those of the list, each a natural number. -/
lemma countersOf_spec {summary : List (String × Value parse)} {counters : List (String × ℤ)}
    (h : countersOf summary = some counters) : counters.map Prod.fst = counterNames ∧ ∀ c ∈ counters, 0 ≤ c.2 := by
  have read {counter : String} {c : String × ℤ} (h : counterOf summary counter = some c) : c.1 = counter ∧ 0 ≤ c.2 := by
    unfold counterOf at h
    split at h
    · obtain ⟨low, same⟩ := Option.ite_none_right_eq_some.mp h
      cases same
      exact ⟨rfl, low⟩
    · cases h
  have each := Fallible.mapM_forall₂ h
  clear h
  generalize counterNames = names at each ⊢
  induction each with
  | nil => simp
  | cons first _ ih =>
    obtain ⟨name, low⟩ := read first
    exact ⟨by rw [List.map_cons, ih.1, name], List.forall_mem_cons.mpr ⟨low, ih.2⟩⟩

lemma checkCounter_normal {cs : List (String × ℤ)} (distinct : (cs.map Prod.fst).Nodup) {c : String × ℤ} (mem : c ∈ cs) :
    checkCounter (normal (.obj (cs.map fun c => (c.1, .int c.2)))) c.1 = (decide (0 ≤ c.2) && decide (c.2 ≤ 1000000)) := by
  have keys : ((cs.map fun c => (c.1, Json.int c.2)).map Prod.fst).Nodup := by
    rwa [List.map_map]
  have found : (Json.obj (cs.map fun c => (c.1, Json.int c.2))).get? c.1 = some (.int c.2) := by
    change (cs.map fun c => (c.1, Json.int c.2)).lookup c.1 = _
    rw [lookup_mapped, lookup_of_mem distinct mem]
    rfl
  rw [checkCounter, get?_normal keys, int?_normal, found]
  rfl

lemma recapRecord_good {phase host : String} {counters : List (String × ℤ)} (hp : safeText phase 64 = true)
    (hh : safeHost address host = true) (names : counters.map Prod.fst = counterNames) (low : ∀ c ∈ counters, 0 ≤ c.2) :
    Good parse address number (recapRecord phase host counters) := by
  have kind : kindOf (recapRecord phase host counters) = some "recap" := rfl
  have distinct : (counters.map Prod.fst).Nodup := by
    rw [names]
    decide
  have inner : ((counters.map fun c => (c.1, Json.int c.2)).map Prod.fst).Nodup := by rwa [List.map_map]
  have same : (counters.map fun c => (c.1, Json.int c.2)).map Prod.fst = counterNames := by rw [List.map_map, ← names]; rfl
  have keys : ((normal (.obj (counters.map fun c => (c.1, .int c.2)))).keys?.any fun keys =>
      keys.all counterNames.contains && counterNames.all keys.contains) = true := by
    rw [sameKeys_normal, Json.keys?, same]
    decide
  have read : Readable parse (recapRecord phase host counters) := by
    have numbers : Readable parse (.obj (counters.map fun c => (c.1, .int c.2))) := by
      refine ⟨inner, fieldsReadable_iff.mpr fun f mem => ?_⟩
      obtain ⟨c, -, rfl⟩ := List.mem_map.mp mem
      trivial
    refine ⟨by simp, fieldsReadable_iff.mpr fun f mem => ?_⟩
    simp only [List.mem_cons, List.not_mem_nil, or_false] at mem
    rcases mem with rfl | rfl | rfl | rfl | rfl
    all_goals first | exact numbers | trivial
  have outer : checkRecap address number (normal (recapRecord phase host counters)) =
      counterNames.all (checkCounter (normal (.obj (counters.map fun c => (c.1, .int c.2))))) := by
    have fields : ([("schema", Json.int 1), ("kind", .str "recap"), ("phase", .str phase), ("host", .str host),
        ("counters", .obj (counters.map fun c => (c.1, .int c.2)))].map Prod.fst).Nodup := by simp
    have found : (recapRecord phase host counters).get? "counters" =
        some (.obj (counters.map fun c => (c.1, .int c.2))) := by simp [recapRecord, Json.get?, List.lookup_cons]
    rw [checkRecap, recapRecord, exactKeys_normal fields, textAt_normal fields, hostAt_normal fields,
      get?_normal fields, ← recapRecord, found, Option.map_some, Option.any_some, keys]
    simp [recapRecord, exactKeys, textAt, hostAt, Json.get?, Json.keys?, Json.str?, isOne, List.lookup_cons, hp, hh]
  refine ⟨⟨_, rfl⟩, read, by simp [kind], by simp [kind], by simp [kind], fun _ => ?_⟩
  have values : countersAt (recapRecord phase host counters) = counters.map Prod.snd := by
    simp [countersAt, recapRecord, Json.get?, List.lookup_cons, Json.int?]
  rw [outer, values, ← names]
  simp only [List.all_map, List.all_eq_true, Function.comp_apply, List.forall_mem_map]
  refine forall₂_congr fun c mem => ?_
  rw [checkCounter_normal distinct mem]
  simp [low c mem]

/-- A time that has passed the writer's check passes the reader's. -/
lemma checkTime_judged {v : Value parse} (h : judge number v = .good) :
    checkTime number v.toJson = true ∧ Readable parse v.toJson := by
  cases v with
  | null => exact ⟨rfl, trivial⟩
  | int n =>
    simp only [judge] at h
    split_ifs at h with _ inside
    exact ⟨inside, trivial⟩
  | float t =>
    simp only [judge] at h
    split_ifs at h with inside
    exact ⟨inside, t.2⟩
  | _ => cases h

lemma judgeTimes_good {values : Dict parse} {keys : List String} (h : judgeTimes number values keys = .good) :
    ∀ key ∈ keys, ∃ v, values.fields.lookup key = some v ∧ judge number v = .good := by
  induction keys with
  | nil => simp
  | cons key keys ih =>
    unfold judgeTimes at h
    split at h
    · next good =>
      refine List.forall_mem_cons.mpr ⟨?_, ih h⟩
      cases found : values.fields.lookup key with
      | none =>
        rw [found] at good
        cases good
      | some v => exact ⟨v, rfl, by rwa [found] at good⟩
    · next verdict other =>
      exact absurd h other

/-- The keys and the results of a report that the callback writes. -/
lemma reportable_spec {values : Dict parse} (h : reportable values = true) :
    (∀ k, k ∈ values.fields.map Prod.fst ↔ k ∈ failoverKeys) ∧
      ∀ r ∈ failoverResults, ∃ s, values.fields.lookup r.1 = some (.str s) ∧ s ∈ r.2 := by
  rw [reportable, Bool.and_eq_true, Bool.and_eq_true, all_contains, all_contains, List.all_eq_true] at h
  obtain ⟨⟨inside, all⟩, results⟩ := h
  refine ⟨fun k => ⟨inside k, all k⟩, fun r mem => ?_⟩
  have allowed := results r mem
  split at allowed
  · next s found => exact ⟨s, found, by simpa using allowed⟩
  · cases allowed

lemma failoverRecord_good {phase host : String} {values : Dict parse} (hh : safeHost address host = true)
    (report : reportable values = true)
    (times : ∀ key ∈ failoverTimes, ∃ v, values.fields.lookup key = some v ∧ judge number v = .good) :
    Good parse address number (failoverRecord phase host values) := by
  obtain ⟨keys, results⟩ := reportable_spec report
  have names : (values.fields.map fun v => (v.1, v.2.toJson)).map Prod.fst = values.fields.map Prod.fst := by
    rw [List.map_map]
    rfl
  have kind : kindOf (failoverRecord phase host values) = some "failover" := by
    simp [kindOf, failoverRecord, Json.get?, List.lookup_cons, Json.str?]
  have found {key : String} {v : Value parse} (listed : key ∈ failoverKeys) (there : values.fields.lookup key = some v) :
      (failoverRecord phase host values).get? key = some v.toJson := by
    have front : (List.lookup key [("schema", Json.int 1), ("kind", .str "failover"), ("phase", .str phase),
        ("host", .str host)]) = none := by
      rw [List.lookup_eq_none_iff]
      intro p mem
      have apart : ∀ k ∈ failoverKeys, ∀ k' ∈ ["schema", "kind", "phase", "host"], (k == k') = false := by decide
      have name : p.1 ∈ ["schema", "kind", "phase", "host"] := List.mem_map_of_mem (f := Prod.fst) mem
      simpa using apart key listed p.1 name
    change List.lookup key (_ ++ _) = _
    rw [List.lookup_append, front, Option.none_or, lookup_mapped, there]
    rfl
  have distinct : (([("schema", Json.int 1), ("kind", .str "failover"), ("phase", .str phase), ("host", .str host)] ++
      values.fields.map fun v => (v.1, v.2.toJson)).map Prod.fst).Nodup := by
    rw [List.map_append, names, List.nodup_append]
    refine ⟨by simp, values.distinct, fun k mem k' mem' => ?_⟩
    have apart : ∀ k ∈ ["schema", "kind", "phase", "host"], ∀ k' ∈ failoverKeys, k ≠ k' := by decide
    exact apart k mem k' ((keys k').mp mem')
  have readable : Readable parse (failoverRecord phase host values) := by
    refine ⟨distinct, fieldsReadable_iff.mpr fun f mem => ?_⟩
    rcases List.mem_append.mp mem with front | back
    · simp only [List.mem_cons, List.not_mem_nil, or_false] at front
      rcases front with rfl | rfl | rfl | rfl <;> trivial
    · obtain ⟨v, there, rfl⟩ := List.mem_map.mp back
      have value := lookup_of_mem values.distinct there
      rcases List.mem_append.mp ((keys v.1).mp (List.mem_map_of_mem there)) with result | time
      · obtain ⟨r, listed, name⟩ := List.mem_map.mp result
        obtain ⟨s, read, -⟩ := results r listed
        rw [name, value] at read
        have text : v.2 = .str s := Option.some.inj read
        change Readable parse v.2.toJson
        rw [text]
        trivial
      · obtain ⟨w, read, good⟩ := times v.1 time
        rw [value] at read
        obtain rfl := Option.some.inj read
        exact (checkTime_judged good).2
  refine ⟨⟨_, rfl⟩, readable, by simp [kind], by simp [kind], fun _ => ?_, by simp [kind]⟩
  have exact_ : exactKeys number (failoverRecord phase host values) (["schema", "kind", "phase", "host"] ++ failoverKeys) =
      true := by
    have listed : (failoverRecord phase host values).keys? =
        some (["schema", "kind", "phase", "host"] ++ values.fields.map Prod.fst) := by
      rw [failoverRecord, Json.keys?, List.map_append, names]
      rfl
    have one : ((failoverRecord phase host values).get? "schema").any (isOne number) = true := by
      simp [failoverRecord, Json.get?, isOne]
    rw [exactKeys, listed, one, Option.any_some, Bool.and_true, Bool.and_eq_true, all_contains, all_contains]
    simp only [List.mem_append, keys, imp_self, implies_true, and_self]
  have address_ : (hostAt address (failoverRecord phase host values) "host").isSome = true := by
    simp [hostAt, failoverRecord, Json.get?, List.lookup_cons, Json.str?, hh]
  rw [checkFailover, exact_, address_, Bool.true_and, Bool.true_and, Bool.and_eq_true, List.all_eq_true, List.all_eq_true]
  constructor
  · intro r mem
    obtain ⟨s, read, allowed⟩ := results r mem
    rw [found (List.mem_append_left _ (List.mem_map_of_mem mem)) read]
    simpa [Value.toJson, Json.str?] using allowed
  · intro key mem
    obtain ⟨v, read, good⟩ := times key mem
    rw [found (List.mem_append_right _ mem) read, Option.any_some]
    exact (checkTime_judged good).1

end Appended

/-! ## What a run appends -/

section Running
variable {parse : List Char → Option FloatText} {address : String → Bool} {number : FloatText → ℚ} {fails : ℕ → Bool}
  {phase : String} {s s' : State}

/-- Good records are appended, and nothing else happens to the log. -/
def Adds (parse : List Char → Option FloatText) (address : String → Bool) (number : FloatText → ℚ) (s s' : State) :
    Prop :=
  ∃ added, s'.records = s.records ++ added ∧ ∀ r ∈ added, Good parse address number r

lemma Adds.same (records : s'.records = s.records) : Adds parse address number s s' :=
  ⟨[], by rw [records, List.append_nil], by simp⟩

lemma Adds.refl (s : State) : Adds parse address number s s := Adds.same rfl

lemma Adds.trans {s'' : State} (h : Adds parse address number s s') (h' : Adds parse address number s' s'') :
    Adds parse address number s s'' := by
  obtain ⟨a, first, good⟩ := h
  obtain ⟨b, second, good'⟩ := h'
  refine ⟨a ++ b, by rw [second, first, List.append_assoc], fun r mem => ?_⟩
  rcases List.mem_append.mp mem with mem | mem
  · exact good r mem
  · exact good' r mem

lemma adds_append {r : Json} (good : Good parse address number r) : Adds parse address number s (append fails s r) := by
  unfold append
  split_ifs
  · exact Adds.same rfl
  · exact ⟨[r], rfl, by simpa using good⟩

lemma adds_error : Adds parse address number s (append fails s (errorRecord phase)) :=
  adds_append (errorRecord_good phase)

lemma adds_task {host task : Value parse} {outcome : String} (safe : safeText phase 64 = true)
    (known : outcome ∈ outcomes) : Adds parse address number s (writeTask address fails phase s host task outcome) := by
  unfold writeTask
  split
  · next h t named told =>
    exact adds_append (taskRecord_good safe (Value.safeHost_spec named) known (Value.safeText_spec told))
  · exact adds_error

lemma adds_failover {host : Value parse} {msg : Option (Dict parse)} {flipped : Bool} :
    Adds parse address number s (writeFailover address number fails flipped phase s host msg).1 := by
  unfold writeFailover
  split
  · next h values named report =>
    obtain ⟨-, report⟩ := Option.filter_eq_some_iff.mp report
    split
    · next good =>
      refine adds_append (failoverRecord_good (Value.safeHost_spec named) report fun key mem => ?_)
      refine judgeTimes_good good key ?_
      cases flipped with
      | true => simpa using mem
      | false => exact mem
    · exact adds_error
    · exact Adds.refl s
  · exact adds_error

lemma adds_recaps (safe : safeText phase 64 = true) (processed : List (String × List (String × Value parse))) (s : State) :
    Adds parse address number s (writeRecaps address fails phase s processed) := by
  induction processed generalizing s with
  | nil => exact Adds.refl s
  | cons p rest ih =>
    obtain ⟨host, summary⟩ := p
    unfold writeRecaps
    split
    · next h counters named counted =>
      obtain ⟨names, low⟩ := countersOf_spec counted
      have recap : Adds parse address number s (s.appended (recapRecord phase h counters)) :=
        ⟨[_], rfl, by simpa using recapRecord_good safe (Value.safeHost_spec named) names low⟩
      split_ifs
      · exact Adds.same rfl
      · exact Adds.same rfl
      · exact recap.trans (ih _)
    · exact adds_error

/-- What one event appends. -/
lemma adds_event (safe : safeText phase 64 = true) (flipped : Bool) (e : Event parse) (s : State) :
    Adds parse address number s (runEvent address number fails flipped phase s e) := by
  cases e with
  | ok host task action changed msg =>
    have changed_ (s : State) : Adds parse address number s (writeTask address fails phase s host task "changed") :=
      adds_task safe (by decide)
    have first : Adds parse address number s (publish address number fails flipped phase s host task action msg).1 := by
      unfold publish
      split
      · split_ifs
        · exact adds_failover
        · exact Adds.refl s
      · exact Adds.refl s
    change Adds parse address number s (runOk address number fails flipped phase s host task action changed msg)
    simp only [runOk]
    split_ifs
    · exact first
    · exact first.trans (changed_ _)
    · exact first
  | failed host task ignoreErrors =>
    change Adds parse address number s (if ignoreErrors then s else writeTask address fails phase s host task "failed")
    split_ifs
    · exact Adds.refl s
    · exact adds_task safe (by decide)
  | unreachable host task => exact adds_task safe (by decide)
  | stats processed =>
    change Adds parse address number s (runStats address fails phase s processed)
    unfold runStats
    split_ifs
    · exact adds_error
    · exact adds_recaps safe _ s

lemma adds_foldl {α : Type} {f : State → α → State} (step : ∀ s a, Adds parse address number s (f s a)) (xs : List α)
    (s : State) : Adds parse address number s (xs.foldl f s) := by
  induction xs generalizing s with
  | nil => exact Adds.refl s
  | cons x xs ih => exact (step s x).trans (ih (f s x))

/-- What one act of the launcher appends. -/
lemma adds_act (s : State) (a : Act parse) : Adds parse address number s (runAct address number fails s a) := by
  cases a with
  | phase phase state status =>
    change Adds parse address number s ((phaseRecord phase state status).elim s (append fails s))
    cases made : phaseRecord phase state status with
    | none => exact Adds.refl s
    | some r => exact adds_append (phaseRecord_good made)
  | play p =>
    change Adds parse address number s (runPlay address number fails s p)
    unfold runPlay
    split_ifs with context
    · have safe := (Bool.and_eq_true_iff.mp context).2
      have reset : Adds parse address number s { s with writeFailed := false } := Adds.same rfl
      exact reset.trans (adds_foldl (fun s e => adds_event safe p.flipped e s) p.events _)
    · exact Adds.refl s

lemma writeHosts_records (fails : ℕ → Bool) (operation : String) (s : State) (c : Option (Selection address)) :
    ∃ hosts, (writeHosts address fails operation s c).records = s.records ++ hosts.map (fun h => hostRecord h.1 h.2) ∧
      (hosts = [] ∨ ∃ c', c = some c' ∧ hosts = c'.hosts operation) := by
  cases c with
  | none => exact ⟨[], by simp [writeHosts], .inl rfl⟩
  | some c =>
    unfold writeHosts
    split_ifs
    · exact ⟨[], by simp, .inl rfl⟩
    · exact ⟨_, rfl, .inr ⟨c, rfl, rfl⟩⟩

/-- The records of a run: good ones, the hosts as they are selected, and good ones again. -/
lemma run_records {r : Run parse address} {records : List Json} (made : r.records address number fails = some records) :
    ∃ phases before hosts after, operations.lookup r.operation = some phases ∧ safeText r.operation 64 = true ∧
      records = operationRecord r.operation phases :: (before ++ hosts.map (fun h => hostRecord h.1 h.2) ++ after) ∧
      (∀ x ∈ before ++ after, Good parse address number x) ∧
      (hosts = [] ∨ ∃ c, r.hosts = some c ∧ hosts = c.hosts r.operation) := by
  unfold Run.records at made
  split at made
  · cases made
  · next safe =>
    obtain ⟨phases, table, rfl⟩ := Option.map_eq_some_iff.mp made
    have acts (xs : List (Act parse)) (s : State) :
        Adds parse address number s (xs.foldl (runAct address number fails) s) := adds_foldl adds_act xs s
    obtain ⟨before, first, good⟩ := acts r.before ⟨[], 0, false⟩
    obtain ⟨after, last, good'⟩ := acts r.after
      (writeHosts address fails r.operation (r.before.foldl (runAct address number fails) ⟨[], 0, false⟩) r.hosts)
    obtain ⟨hosts, middle, named⟩ := writeHosts_records fails r.operation
      (r.before.foldl (runAct address number fails) ⟨[], 0, false⟩) r.hosts
    refine ⟨phases, before, hosts, after, table, by simpa using safe, ?_, ?_, named⟩
    · rw [Run.state, last, middle, first, List.nil_append]
    · exact List.forall_mem_append.mpr ⟨good, good'⟩

end Running

/-! ## What is read back -/

section Reads
variable {parse : List Char → Option FloatText} {address : String → Bool} {number : FloatText → ℚ} {fails : ℕ → Bool}
  {operation : String}

lemma storage_roles : ∀ o ∈ openbaoStorageOperations ++ ["storage-check", "storage-apply"], o ∉ registryOperations := by
  decide +kernel

/-- The summary accepts the role of each host record. -/
lemma role_allowed (c : Selection address) (operation host : String) :
    c.role operation host ∈ allowedRoles operation ∧ safeText (c.role operation host) 16 = true := by
  have storage {o : String} (mem : o ∈ openbaoStorageOperations ++ ["storage-check", "storage-apply"]) :=
    storage_roles o mem
  unfold Selection.role
  by_cases vault : operation ∈ openbaoStorageOperations
  · have other := storage (List.mem_append_left _ vault)
    rw [if_pos vault, allowedRoles, if_neg other, if_pos vault]
    exact ⟨by simp, by decide⟩
  rw [if_neg vault]
  by_cases disk : operation = "storage-check" ∨ operation = "storage-apply"
  · have other := storage (List.mem_append_right openbaoStorageOperations (by simpa using disk))
    rw [if_pos disk, allowedRoles, if_neg other, if_neg vault]
    split_ifs
    · exact ⟨by simp, by decide⟩
    · exact ⟨by simp, by decide⟩
  rw [if_neg disk]
  by_cases registry : operation ∈ registryOperations
  · rw [if_pos registry, allowedRoles, if_pos registry]
    split_ifs
    · exact ⟨by simp, by decide⟩
    · exact ⟨by simp, by decide⟩
  rw [if_neg registry, allowedRoles, if_neg registry, if_neg vault]
  split_ifs
  all_goals exact ⟨by simp, by decide⟩

/-- Host records that the summary accepts. -/
def Hosted (address : String → Bool) (operation : String) (hosts : Hosts) : Prop :=
  (hosts.map Prod.fst).Nodup ∧
    ∀ h ∈ hosts, safeHost address h.1 = true ∧ h.2 ∈ allowedRoles operation ∧ safeText h.2 16 = true

lemma hosts_hosted (operation : String) (c : Selection address) : Hosted address operation (c.hosts operation) := by
  have sorted := List.perm_insertionSort (· ≤ ·) c.selected
  constructor
  · have names : (c.hosts operation).map Prod.fst = c.selected.insertionSort (· ≤ ·) := by
      rw [Selection.hosts, List.map_map]
      exact List.map_id _
    rw [names]
    exact sorted.nodup_iff.mpr c.distinct
  · intro h mem
    obtain ⟨host, listed, rfl⟩ := List.mem_map.mp mem
    exact ⟨c.safe host (sorted.mem_iff.mp listed), role_allowed c operation host⟩

lemma Good.distinct {fs : List (String × Json)} (good : Good parse address number (.obj fs)) : (fs.map Prod.fst).Nodup :=
  good.readable.1

lemma Good.kind_normal {r : Json} (good : Good parse address number r) : kindOf (normal r) = kindOf r := by
  obtain ⟨fs, rfl⟩ := good.shape
  exact kindOf_normal good.distinct

lemma splitHosts_others {rs : List Json} (good : ∀ r ∈ rs, Good parse address number r) (rest : List Json) (hosts : Hosts) :
    splitHosts address number operation (rs.map normal ++ rest) hosts =
      (splitHosts address number operation rest hosts).map fun p => (p.1, rs.map normal ++ p.2) := by
  induction rs with
  | nil => simp
  | cons r rs ih =>
    obtain ⟨first, others⟩ := List.forall_mem_cons.mp good
    have kind : kindOf (normal r) ≠ some "host" := first.kind_normal ▸ first.other
    rw [List.map_cons, List.cons_append, splitHosts, if_pos kind, ih others, Option.map_map]
    rfl

lemma splitHosts_hosts {hosts seen : Hosts} (hosted : Hosted address operation (seen ++ hosts)) (rest : List Json) :
    splitHosts address number operation (hosts.map (fun h => normal (hostRecord h.1 h.2)) ++ rest) seen =
      splitHosts address number operation rest (seen ++ hosts) := by
  induction hosts generalizing seen with
  | nil => simp
  | cons h hosts ih =>
    obtain ⟨host, role⟩ := h
    obtain ⟨distinct, each⟩ := hosted
    obtain ⟨safe, allowed, short⟩ := each (host, role) (by simp)
    have fresh : seen.lookup host = none := by
      rw [List.lookup_eq_none_iff]
      intro p mem
      rw [List.map_append, List.map_cons, List.nodup_middle] at distinct
      have apart := (List.nodup_cons.mp distinct).1
      rw [bne_iff_ne]
      intro same
      exact apart (List.mem_append_left _ (List.mem_map.mpr ⟨p, mem, same.symm⟩))
    have fields : ([("schema", Json.int 1), ("kind", .str "host"), ("host", .str host), ("role", .str role)].map
        Prod.fst).Nodup := by simp
    have kind : kindOf (normal (hostRecord host role)) = some "host" := by
      rw [hostRecord, kindOf_normal fields]
      rfl
    have keys : exactKeys number (normal (hostRecord host role)) ["schema", "kind", "host", "role"] = true := by
      rw [hostRecord, exactKeys_normal fields]
      simp [exactKeys, Json.keys?, Json.get?, isOne]
    have named : hostAt address (normal (hostRecord host role)) "host" = some host := by
      rw [hostRecord, hostAt_normal fields]
      simp [hostAt, Json.get?, List.lookup_cons, Json.str?, Option.filter, safe]
    have told : textAt (normal (hostRecord host role)) "role" 16 = some role := by
      rw [hostRecord, textAt_normal fields]
      simp [textAt, Json.get?, List.lookup_cons, Json.str?, Option.filter, short]
    have next : Hosted address operation ((seen ++ [(host, role)]) ++ hosts) := by
      rw [List.append_assoc]
      exact ⟨distinct, each⟩
    rw [List.map_cons, List.cons_append, splitHosts, if_neg (not_not.mpr kind), keys, named, told]
    simp only [Bool.not_true, Bool.false_eq_true, if_false]
    rw [if_pos ⟨allowed, fresh⟩, ih next, List.append_assoc, List.singleton_append]

/-- A record of the log as it is read back. -/
def Written (parse : List Char → Option FloatText) (r : Json) : Prop := ∃ fs, r = .obj fs ∧ Readable parse r

lemma Good.written {r : Json} (good : Good parse address number r) : Written parse r := by
  obtain ⟨fs, same⟩ := good.shape
  exact ⟨fs, same, good.readable⟩

lemma strings_readable (names : List String) : ElementsReadable parse (names.map .str) := by
  induction names with
  | nil => trivial
  | cons n names ih => exact ⟨trivial, ih⟩

lemma strings_normal (names : List String) : normalElements (names.map .str) = names.map .str := by
  induction names with
  | nil => rfl
  | cons n names ih =>
    rw [List.map_cons, normalElements, ih]
    rfl

lemma strings_read (names : List String) : (names.map Json.str).mapM Json.str? = some names := by
  induction names with
  | nil => rfl
  | cons n names ih =>
    rw [List.map_cons, List.mapM_cons, ih]
    rfl

lemma operationRecord_written (operation : String) (phases : List String) :
    Written parse (operationRecord operation phases) := by
  refine ⟨_, rfl, by simp, fieldsReadable_iff.mpr fun f mem => ?_⟩
  simp only [List.mem_cons, List.not_mem_nil, or_false] at mem
  rcases mem with rfl | rfl | rfl | rfl
  · trivial
  · trivial
  · trivial
  · exact strings_readable phases

lemma hostRecord_written (host role : String) : Written parse (hostRecord host role) :=
  ⟨_, rfl, by simp, by simp [FieldsReadable, Readable]⟩

/-- A line of the log is read as its record. -/
lemma readLine_dumps {r : Json} (written : Written parse r) : readLine parse (dumps [] r) = some (normal r) := by
  obtain ⟨fs, rfl, readable⟩ := written
  have read : loads parse (dumps [] (.obj fs) ++ []) = some (normal (.obj fs)) := loads_written (by simp) readable (by simp)
  rw [List.append_nil] at read
  have some_ : dumps [] (.obj fs) ≠ [] := by
    obtain ⟨c, t, text, -⟩ := dumps_head [] (.obj fs) []
    rw [List.append_nil] at text
    rw [text]
    exact List.cons_ne_nil c t
  rw [readLine, if_neg some_, read]
  rfl

lemma mapM_readLine {records : List Json} (written : ∀ r ∈ records, Written parse r) :
    (records.map (dumps [])).mapM (readLine parse) = some (records.map normal) := by
  induction records with
  | nil => rfl
  | cons r rs ih =>
    obtain ⟨first, others⟩ := List.forall_mem_cons.mp written
    rw [List.map_cons, List.mapM_cons, readLine_dumps first, ih others]
    rfl

lemma dumps_plain (r : Json) : ∀ c ∈ dumps [] r, Visible c := dumps_visible (by simp) r

/-- The lines of the log are its records. -/
lemma read_log {records : List Json} (written : ∀ r ∈ records, Written parse r) :
    ((decode (logOf records)).bind fun text => (splitLines text).mapM (readLine parse)) = some (records.map normal) := by
  have ascii : ∀ c ∈ unlines (records.map (dumps [])), c.toNat < 128 := by
    intro c mem
    obtain ⟨line, listed, there⟩ := List.mem_flatMap.mp mem
    obtain ⟨r, -, rfl⟩ := List.mem_map.mp listed
    rcases List.mem_append.mp there with inside | newline
    · exact (dumps_plain r c inside).ascii
    · rw [List.mem_singleton.mp newline]
      decide
  have unbroken : ∀ line ∈ records.map (dumps []), RecordText.Unbroken line := by
    intro line listed c mem
    obtain ⟨r, -, rfl⟩ := List.mem_map.mp listed
    exact (dumps_plain r c mem).unbroken
  rw [logOf, RecordText.decode_encode ascii, Option.bind_some, RecordText.splitLines_unlines unbroken,
    mapM_readLine written]

/-- The first record of a log names its operation, and the others are split. -/
lemma parseAll_operation {phases : List String} (safe : safeText operation 64 = true)
    (table : operations.lookup operation = some phases) (rest : List Json) :
    parseAll address number (normal (operationRecord operation phases) :: rest) =
      (splitHosts address number operation rest []).map fun p => ⟨operation, phases, p.1, p.2⟩ := by
  have fields : ([("schema", Json.int 1), ("kind", .str "operation"), ("operation", .str operation),
      ("phases", .arr (phases.map .str))].map Prod.fst).Nodup := by simp
  have keys : exactKeys number (normal (operationRecord operation phases)) ["schema", "kind", "operation", "phases"] =
      true := by
    rw [operationRecord, exactKeys_normal fields]
    simp [exactKeys, Json.keys?, Json.get?, isOne]
  have kind : kindOf (normal (operationRecord operation phases)) = some "operation" := by
    rw [operationRecord, kindOf_normal fields]
    rfl
  have told : textAt (normal (operationRecord operation phases)) "operation" 64 = some operation := by
    rw [operationRecord, textAt_normal fields]
    simp [textAt, Json.get?, List.lookup_cons, Json.str?, Option.filter, safe]
  have listed : (normal (operationRecord operation phases)).get? "phases" = some (.arr (phases.map .str)) := by
    rw [operationRecord, get?_normal fields]
    simp [Json.get?, List.lookup_cons, normal, strings_normal]
  rw [parseAll, keys, kind, told, listed]
  simp only [strings_read, table]
  simp

/-- The hosts and the other records of a log are those that have been appended. -/
structure Parsed.Holds (p : Parsed) (records : List Json) : Prop where
  first : records.head? = some (operationRecord p.operation p.phases)
  hosts : records.tail.filter (fun r => kindOf r = some "host") = p.hosts.map fun h => hostRecord h.1 h.2
  remaining : (records.tail.filter fun r => kindOf r ≠ some "host").map normal = p.remaining

/-- The summary is content with the fields of a record that has been appended, if it is a task, a failover report, or a
recap without a counter that is too large. -/
structure Fits (address : String → Bool) (number : FloatText → ℚ) (r : Json) : Prop where
  task : kindOf r = some "task" → checkTask address number (normal r) = true
  failover : kindOf r = some "failover" → checkFailover address number (normal r) = true
  recap : kindOf r = some "recap" → (checkRecap address number (normal r) = true ↔ ∀ n ∈ countersAt r, n ≤ 1000000)

lemma Good.fits {r : Json} (good : Good parse address number r) : Fits address number r := by
  obtain ⟨fs, rfl⟩ := good.shape
  refine ⟨fun kind => ?_, fun kind => ?_, good.recap⟩
  · rw [checkTask_normal good.distinct]
    exact good.task kind
  · rw [checkFailover_normal good.distinct]
    exact good.failover kind

/-- A record of another kind than these fits. -/
lemma fits_of_kind {r : Json} {kind : String} (named : kindOf r = some kind)
    (free : kind ∉ ["task", "failover", "recap"]) : Fits address number r := by
  simp only [List.mem_cons, List.not_mem_nil, or_false, not_or] at free
  obtain ⟨task, failover, recap⟩ := free
  refine ⟨?_, ?_, ?_⟩ <;> rw [named] <;> simp [task, failover, recap]

section Kinds
variable {rs : List Json} (good : ∀ r ∈ rs, Good parse address number r) (hosts : Hosts)
include good

lemma no_hosts : rs.filter (fun r => kindOf r = some "host") = [] :=
  List.filter_eq_nil_iff.mpr fun r mem => by simpa using (good r mem).other

lemma others : rs.filter (fun r => kindOf r ≠ some "host") = rs :=
  List.filter_eq_self.mpr fun r mem => by simpa using (good r mem).other

omit good

lemma only_hosts : (hosts.map fun h => hostRecord h.1 h.2).filter (fun r => kindOf r = some "host") =
    hosts.map fun h => hostRecord h.1 h.2 := by
  refine List.filter_eq_self.mpr fun r mem => ?_
  obtain ⟨h, -, rfl⟩ := List.mem_map.mp mem
  exact decide_eq_true rfl

lemma no_others : (hosts.map fun h => hostRecord h.1 h.2).filter (fun r => kindOf r ≠ some "host") = [] := by
  refine List.filter_eq_nil_iff.mpr fun r mem => ?_
  obtain ⟨h, -, rfl⟩ := List.mem_map.mp mem
  simp [kindOf, hostRecord, Json.get?, List.lookup_cons, Json.str?]

end Kinds

/-- A log of at most 32 MiB is read back as the records that have been appended, a longer one is refused, and each record
fits. -/
theorem log_reads_back {r : Run parse address} {records : List Json} (made : r.records address number fails = some records) :
    (maxInputBytes < (logOf records).length → parseRecords parse address number (logOf records) = none) ∧
      ((logOf records).length ≤ maxInputBytes →
        ∃ p, parseRecords parse address number (logOf records) = some p ∧ p.Holds records) ∧
      ∀ x ∈ records, Fits address number x := by
  obtain ⟨phases, before, hosts, after, table, safe, rfl, good, named⟩ := run_records made
  obtain ⟨goodBefore, goodAfter⟩ := List.forall_mem_append.mp good
  have hosted : Hosted address r.operation hosts := by
    rcases named with rfl | ⟨c, -, rfl⟩
    · exact ⟨List.nodup_nil, by simp⟩
    · exact hosts_hosted r.operation c
  have written : ∀ x ∈ operationRecord r.operation phases ::
      (before ++ hosts.map (fun h => hostRecord h.1 h.2) ++ after), Written parse x := by
    refine List.forall_mem_cons.mpr ⟨operationRecord_written _ _, List.forall_mem_append.mpr ⟨?_, ?_⟩⟩
    · refine List.forall_mem_append.mpr ⟨fun x mem => (goodBefore x mem).written, fun x mem => ?_⟩
      obtain ⟨h, -, rfl⟩ := List.mem_map.mp mem
      exact hostRecord_written h.1 h.2
    · exact fun x mem => (goodAfter x mem).written
  refine ⟨fun long => if_pos long, fun short => ?_, List.forall_mem_cons.mpr ⟨fits_of_kind rfl (by decide), ?_⟩⟩
  · have split : splitHosts address number r.operation
        ((before ++ hosts.map (fun h => hostRecord h.1 h.2) ++ after).map normal) [] =
          some (hosts, (before ++ after).map normal) := by
      have alone : splitHosts address number r.operation (after.map normal ++ []) hosts =
          (splitHosts address number r.operation [] hosts).map fun p => (p.1, after.map normal ++ p.2) :=
        splitHosts_others goodAfter [] hosts
      rw [List.append_nil] at alone
      rw [List.map_append, List.map_append, List.append_assoc, List.map_map, splitHosts_others goodBefore]
      have middle : splitHosts address number r.operation
          (hosts.map (fun h => normal (hostRecord h.1 h.2)) ++ after.map normal) [] =
            splitHosts address number r.operation (after.map normal) ([] ++ hosts) := splitHosts_hosts hosted _
      rw [List.nil_append] at middle
      rw [Function.comp_def, middle, alone]
      simp [splitHosts]
    refine ⟨⟨r.operation, phases, hosts, (before ++ after).map normal⟩, ?_, rfl, ?_, ?_⟩
    · have read := read_log written
      rw [List.map_cons] at read
      rw [parseRecords, if_neg (by omega), ← Option.bind_assoc, read, Option.bind_some, parseAll_operation safe table,
        split]
      rfl
    · rw [List.tail_cons, List.filter_append, List.filter_append, no_hosts goodBefore, no_hosts goodAfter, only_hosts]
      simp
    · rw [List.tail_cons, List.filter_append, List.filter_append, others goodBefore, others goodAfter, no_others]
      simp
  · refine List.forall_mem_append.mpr ⟨List.forall_mem_append.mpr ⟨fun x mem => (goodBefore x mem).fits, ?_⟩,
      fun x mem => (goodAfter x mem).fits⟩
    intro x mem
    obtain ⟨h, -, rfl⟩ := List.mem_map.mp mem
    exact fits_of_kind rfl (by decide)

end Reads

/-! ## Some logs -/

section Samples

/-- No float is read, no name is an address, and no call fails. -/
def noFloats : List Char → Option FloatText := fun _ => none

def noAddress : String → Bool := fun _ => false

def noFaults : ℕ → Bool := fun _ => false

/-- A host whose summary has a counter. -/
def countedPlay (n : ℤ) : Play noFloats where
  path := true
  phase := "storage-check"
  flipped := false
  events := [.ok (.str "server-1") (.str "Read the disks") (.str "setup") (.bool true) none,
    .stats [("server-1", [("ok", .int n)])]]

def sampleSelection : Selection noAddress where
  selected := ["server-1", "agent-1"]
  registry := []
  servers := ["server-1"]
  agents := ["agent-1"]
  safe := by decide
  distinct := by decide

/-- An operation on two hosts, in which a counter of the first has a value. -/
def countedRun (n : ℤ) : Run noFloats noAddress where
  operation := "storage-check"
  before := [.phase "inventory" "started" none, .phase "inventory" "completed" (some 0)]
  hosts := some sampleSelection
  after := [.play (countedPlay n)]

def countedRecords (n : ℤ) : List Json := ((countedRun n).records noAddress (fun _ => 0) noFaults).getD []

lemma counted_made (n : ℤ) : (countedRun n).records noAddress (fun _ => 0) noFaults = some (countedRecords n) := by
  have table : (operations.lookup "storage-check").isSome = true := by decide +kernel
  obtain ⟨phases, found⟩ := Option.isSome_iff_exists.mp table
  have safe : (!safeText "storage-check" 64) = false := by decide
  simp only [countedRecords, Run.records, countedRun, safe, found]
  rfl

theorem counted_log : (countedRun 12).records noAddress (fun _ => 0) noFaults = some (countedRecords 12) ∧
    (maxInputBytes < (logOf (countedRecords 12)).length →
      parseRecords noFloats noAddress (fun _ => 0) (logOf (countedRecords 12)) = none) ∧
    ((logOf (countedRecords 12)).length ≤ maxInputBytes →
      ∃ p, parseRecords noFloats noAddress (fun _ => 0) (logOf (countedRecords 12)) = some p ∧ p.Holds (countedRecords 12)) ∧
    ∀ x ∈ countedRecords 12, Fits noAddress (fun _ => 0) x :=
  ⟨counted_made 12, log_reads_back (counted_made 12)⟩

/-- A run of Ansible that reports hosts without a name. -/
def namelessRun (n : ℕ) : Run noFloats noAddress where
  operation := "storage-check"
  before := []
  hosts := none
  after := [.play ⟨true, "storage-check", false, List.replicate n (.unreachable .null .null)⟩]

lemma nameless_length {fails : ℕ → Bool} (kept : ∀ n, fails n = false) (n : ℕ) (s : State) :
    ((List.replicate n (Event.unreachable Value.null Value.null : Event noFloats)).foldl
      (runEvent noAddress (fun _ => 0) fails false "storage-check") s).records.length = s.records.length + n := by
  induction n generalizing s with
  | zero => rfl
  | succ n ih =>
    have step : (runEvent noAddress (fun _ => 0) fails false "storage-check" s
        (Event.unreachable Value.null Value.null : Event noFloats)).records.length = s.records.length + 1 := by
      simp [runEvent, writeTask, Value.safeHost, append, kept, State.appended]
    rw [List.replicate_succ, List.foldl_cons, ih, step, Nat.add_right_comm, Nat.add_assoc]

lemma logOf_length (records : List Json) : records.length ≤ (logOf records).length := by
  rw [logOf, encode, List.length_map]
  induction records with
  | nil => exact Nat.le_refl 0
  | cons r rs ih =>
    simp only [unlines, List.map_cons, List.flatMap_cons, List.length_append, List.length_cons, List.length_nil] at ih ⊢
    omega

/-- A log with more records than its limit has bytes is refused. -/
lemma nameless_refused {n : ℕ} (many : maxInputBytes ≤ n) : ∃ records,
    (namelessRun n).records noAddress (fun _ => 0) noFaults = some records ∧
      parseRecords noFloats noAddress (fun _ => 0) (logOf records) = none := by
  have safe : (!safeText (namelessRun n).operation 64) = false := by
    change (!safeText "storage-check" 64) = false
    decide
  have table : operations.lookup (namelessRun n).operation = some ["inventory", "connectivity", "storage-check"] := by
    change operations.lookup "storage-check" = _
    decide +kernel
  have length : ((namelessRun n).state noAddress (fun _ => 0) noFaults).records.length = 0 + n := by
    have named : safeText "storage-check" 64 = true := by decide
    simp only [Run.state, namelessRun, List.foldl_nil, List.foldl_cons, writeHosts, runAct, runPlay, named, Bool.and_self,
      if_true]
    exact nameless_length (fun _ => rfl) n ⟨[], 0, false⟩
  refine ⟨_, by rw [Run.records, safe, table]; rfl, if_pos ?_⟩
  refine Nat.lt_of_lt_of_le ?_ (logOf_length _)
  rw [List.length_cons, length]
  omega

/-- A counter above 1000000 and a log above 32 MiB are refused. -/
theorem refused : (∃ x ∈ countedRecords 1000001, kindOf x = some "recap" ∧ checkRecap noAddress (fun _ => 0) (normal x) = false) ∧
    ∃ records, (namelessRun maxInputBytes).records noAddress (fun _ => 0) noFaults = some records ∧
      parseRecords noFloats noAddress (fun _ => 0) (logOf records) = none :=
  ⟨by decide +kernel, nameless_refused (Nat.le_refl _)⟩

end Samples

end PlatformConfig.OperationLog
