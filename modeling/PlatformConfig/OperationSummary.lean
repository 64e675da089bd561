import Mathlib.Data.List.Basic
import Mathlib.Data.Rat.Defs

/-!
# The summary of an operation

The table of operations with their phases, the records of a log, and the summary that is rendered
from it: one result for each host and phase, and the overall verdict.
-/
namespace PlatformConfig.Operation

/-- `str.startswith` -/
def startsWith (s p : String) : Bool := p.toList.isPrefixOf s.toList

/-- `OPERATIONS` -/
def operations : List (String × List String) := [
  ("openbao-pki-request-plan", ["inventory", "connectivity", "openbao-initial-preflight"]),
  ("openbao-pki-request",
    ["inventory", "connectivity", "openbao-initial-preflight", "openbao-pki-request"]),
  ("openbao-pki-activate-plan", ["inventory", "connectivity", "openbao-initial-preflight"]),
  ("openbao-pki-activate",
    ["inventory", "connectivity", "openbao-initial-preflight", "openbao-pki-activate"]),
  ("openbao-bootstrap-start",
    ["inventory", "connectivity", "openbao-initial-preflight", "openbao-bootstrap-start"]),
  ("openbao-bootstrap-complete-plan",
    ["inventory", "connectivity", "openbao-initial-preflight", "openbao-bootstrap-complete-check"]),
  ("openbao-bootstrap-complete",
    ["inventory", "connectivity", "openbao-initial-preflight", "openbao-bootstrap-complete-check",
      "openbao-bootstrap-complete"]),
  ("openbao-host-plan",
    ["inventory", "connectivity", "openbao-preflight", "openbao-bootstrap-check",
      "openbao-base-os-check", "openbao-runtime-check"]),
  ("openbao-host-apply",
    ["inventory", "connectivity", "openbao-preflight",
      "openbao-bootstrap-check", "openbao-bootstrap-apply", "openbao-bootstrap-post-check",
      "openbao-base-os-check", "openbao-base-os-apply", "openbao-base-os-post-check",
      "openbao-runtime-check", "openbao-runtime-apply", "openbao-runtime-post-check"]),
  ("openbao-stage-plan", ["inventory", "connectivity", "openbao-preflight", "openbao-stage-check"]),
  ("openbao-stage-apply",
    ["inventory", "connectivity", "openbao-preflight", "openbao-stage-check",
      "openbao-stage-apply", "openbao-stage-post-check"]),
  ("registry-host-plan",
    ["inventory", "connectivity", "registry-preflight", "registry-bootstrap-check",
      "registry-base-os-check"]),
  ("registry-host-apply",
    ["inventory", "connectivity", "registry-preflight",
      "registry-bootstrap-check", "registry-bootstrap-apply", "registry-bootstrap-post-check",
      "registry-base-os-check", "registry-base-os-apply", "registry-base-os-post-check"]),
  ("registry-storage-plan", ["inventory", "connectivity", "registry-preflight", "storage-check"]),
  ("registry-storage-apply",
    ["inventory", "connectivity", "registry-preflight", "storage-check", "storage-apply",
      "storage-idempotence", "storage-verify"]),
  ("registry-stage-plan",
    ["inventory", "connectivity", "registry-preflight", "registry-stage-check"]),
  ("registry-stage-apply",
    ["inventory", "connectivity", "registry-preflight", "registry-stage-check",
      "registry-stage-apply", "registry-stage-post-check"]),
  ("registry-clients-plan",
    ["inventory", "connectivity", "registry-preflight", "registry-clients-check"]),
  ("registry-clients-apply",
    ["inventory", "connectivity", "registry-preflight", "registry-clients-check",
      "registry-clients-apply", "registry-clients-post-check"]),
  ("registry-pki-request-plan",
    ["inventory", "connectivity", "registry-preflight", "registry-pki-preflight"]),
  ("registry-pki-request",
    ["inventory", "connectivity", "registry-preflight", "registry-pki-preflight",
      "registry-pki-request"]),
  ("registry-pki-activate-plan",
    ["inventory", "connectivity", "registry-preflight", "registry-pki-preflight"]),
  ("registry-pki-activate",
    ["inventory", "connectivity", "registry-preflight", "registry-pki-preflight",
      "registry-pki-activate"]),
  ("registry-smoke-plan", ["inventory", "connectivity", "registry-preflight"]),
  ("registry-smoke",
    ["inventory", "connectivity", "registry-preflight", "registry-smoke",
      "registry-smoke-post-check"]),
  ("rke2-host-aliases-plan", ["inventory", "connectivity", "host-aliases-check"]),
  ("rke2-host-aliases-apply",
    ["inventory", "connectivity", "host-aliases-check", "host-aliases-apply",
      "host-aliases-post-check", "host-aliases-verify"]),
  ("storage-check", ["inventory", "connectivity", "storage-check"]),
  ("openbao-storage-check", ["inventory", "connectivity", "storage-check"]),
  ("storage-apply",
    ["inventory", "connectivity", "storage-check", "storage-apply",
      "storage-idempotence", "storage-verify"]),
  ("openbao-storage-apply",
    ["inventory", "connectivity", "storage-check", "storage-apply",
      "storage-idempotence", "storage-verify"]),
  ("rke2-bootstrap-plan", ["inventory", "connectivity", "bootstrap-preflight", "rke2-plan"]),
  ("rke2-converge-plan",
    ["inventory", "connectivity", "core-health", "convergence-preflight", "rke2-plan",
      "kube-vip-plan", "rke2-gitlab-runner-plan", "rke2-deployment-runners-plan"]),
  ("rke2-bootstrap",
    ["inventory", "connectivity", "bootstrap-preflight",
      "rke2-apply", "kube-vip-apply", "rke2-gitlab-runner-apply", "rke2-deployment-runners-apply",
      "rke2-smoke", "kube-vip-smoke", "rke2-gitlab-runner-smoke", "rke2-deployment-runners-smoke",
      "rke2-post-check", "kube-vip-post-check", "rke2-gitlab-runner-post-check",
      "rke2-deployment-runners-post-check"]),
  ("rke2-deploy",
    ["core-health", "convergence-preflight",
      "rke2-apply", "kube-vip-apply", "rke2-gitlab-runner-apply", "rke2-deployment-runners-apply",
      "rke2-smoke", "kube-vip-smoke", "rke2-gitlab-runner-smoke", "rke2-deployment-runners-smoke",
      "rke2-post-check", "kube-vip-post-check", "rke2-gitlab-runner-post-check",
      "rke2-deployment-runners-post-check"]),
  ("rke2-deployment-runners-smoke",
    ["inventory", "connectivity", "rke2-deployment-runners-smoke"]),
  ("openbao-status", ["inventory", "connectivity", "openbao-status"]),
  ("openbao-haproxy-plan", ["inventory", "edge-plan"]),
  ("openbao-haproxy-activate", ["inventory", "edge-activate"]),
  ("openbao-keepalived-plan", ["inventory", "edge-plan"]),
  ("openbao-keepalived-activate", ["inventory", "edge-activate"]),
  ("openbao-smoke", ["inventory", "openbao-smoke"]),
  ("openbao-vip-smoke", ["inventory", "openbao-vip-smoke"]),
  ("openbao-haproxy-failover-plan", ["inventory", "failover-plan"]),
  ("openbao-haproxy-failover", ["inventory", "failover-test"]),
  ("openbao-haproxy-failover-recover", ["inventory", "failover-recover"]),
  ("openbao-restart-plan",
    ["inventory", "connectivity", "openbao-status", "openbao-restart-check"]),
  ("openbao-converge-plan",
    ["inventory", "connectivity", "openbao-status", "openbao-converge-check"]),
  ("openbao-restart",
    ["inventory", "connectivity", "openbao-status", "openbao-roll", "openbao-final-status",
      "openbao-post-check"]),
  ("openbao-deploy",
    ["inventory", "connectivity", "openbao-status", "openbao-roll", "openbao-final-status",
      "openbao-post-check"])]

/-- The names of the table that pass a test. -/
def named (p : String → Bool) : List String := (operations.map Prod.fst).filter p

/-- `OPENBAO_STORAGE_OPERATIONS` -/
def openbaoStorageOperations : List String := ["openbao-storage-check", "openbao-storage-apply"]

/-- `OPENBAO_OPERATIONS` -/
def openbaoOperations : List String :=
  named fun name => startsWith name "openbao-" && name ∉ openbaoStorageOperations

/-- `FAILOVER_OPERATIONS` -/
def failoverOperations : List String := named fun name => startsWith name "openbao-haproxy-failover"

/-- `ALIAS_OPERATIONS` -/
def aliasOperations : List String := ["rke2-host-aliases-plan", "rke2-host-aliases-apply"]

/-- `REGISTRY_OPERATIONS` -/
def registryOperations : List String := named fun name => startsWith name "registry-"

/-- `OPENBAO_PREPARATION_OPERATIONS` -/
def openbaoPreparationOperations : List String :=
  ["openbao-host-plan", "openbao-host-apply", "openbao-stage-plan", "openbao-stage-apply"]

/-- `OPENBAO_PKI_OPERATIONS` -/
def openbaoPkiOperations : List String := named fun name => startsWith name "openbao-pki-"

/-- `OPENBAO_INITIAL_OPERATIONS` -/
def openbaoInitialOperations : List String :=
  openbaoPkiOperations ++ named fun name => startsWith name "openbao-bootstrap-"

/-- The operations whose recaps must show a task that ran. -/
def preparedOperations : List String :=
  aliasOperations ++ registryOperations ++ openbaoPreparationOperations ++ openbaoInitialOperations

/-- `TRANSPORT_OPERATIONS` -/
def transportOperations : List String := preparedOperations ++ ["rke2-deployment-runners-smoke"]

/-- `EVIDENCE_GATED_OPERATIONS` -/
def evidenceGatedOperations : List String :=
  transportOperations ++ ["storage-apply"] ++ openbaoStorageOperations

/-- `PREFIX_GATED_OPERATIONS` -/
def prefixGatedOperations : List String :=
  evidenceGatedOperations ++ ["rke2-converge-plan", "rke2-bootstrap", "rke2-deploy"]

/-- `UNCHANGED_PHASES` -/
def unchangedPhases : List String := [
  "openbao-initial-preflight", "openbao-bootstrap-complete-check", "openbao-preflight",
  "openbao-bootstrap-post-check", "openbao-base-os-post-check", "openbao-runtime-post-check",
  "openbao-stage-post-check", "registry-preflight", "registry-pki-preflight",
  "registry-bootstrap-post-check", "registry-base-os-post-check", "registry-stage-post-check",
  "registry-clients-post-check", "registry-smoke-post-check", "failover-plan",
  "host-aliases-post-check", "host-aliases-verify", "storage-idempotence", "storage-verify",
  "rke2-post-check", "kube-vip-post-check", "rke2-gitlab-runner-post-check",
  "rke2-deployment-runners-post-check", "openbao-restart-check", "openbao-post-check"]

/-! ## Records -/

/-- `COUNTERS` -/
structure Counters where
  ok : ℤ
  changed : ℤ
  failures : ℤ
  unreachable : ℤ
  skipped : ℤ
  rescued : ℤ
  ignored : ℤ
  deriving DecidableEq

/-- A duration of a failover report: a number, or a float that is no finite number. -/
inductive Seconds
  | number (q : ℚ)
  | notFinite
  deriving DecidableEq

structure Report where
  failoverTestResult : String
  recoveryResult : String
  finalSmokeResult : String
  failoverElapsedSeconds : Option Seconds
  transactionElapsedSeconds : Option Seconds
  deriving DecidableEq

/-- A record of the log behind the record of the operation. -/
inductive Record
  | host (host role : String)
  | started (phase : String)
  | completed (phase : String) (status : ℤ)
  | task (phase host outcome task : String)
  | recap (phase host : String) (counters : Counters)
  | failover (phase host : String) (report : Report)
  | error (phase : String)
  deriving DecidableEq

structure Log where
  operation : String
  phases : List String
  records : List Record

/-- `safe_text` -/
def safeText (value : String) (maximum : ℕ) : Bool :=
  value ≠ "" && value.length ≤ maximum && value.toList.all fun c => 32 ≤ c.toNat && c.toNat ≤ 126

/-! `address` says which texts are IP addresses. -/
variable (address : String → Bool)

/-- `safe_host` -/
def safeHost (value : String) : Bool := safeText value 255 && !address value

/-- The roles that a host record of an operation can have. -/
def allowedRoles (operation : String) : List String :=
  if operation ∈ registryOperations then ["registry", "registry-client"]
  else if operation ∈ openbaoStorageOperations then ["openbao-storage"]
  else ["server", "agent", "openbao", "N/A"]

abbrev Hosts := List (String × String)

/-- Read the host records, in the order of the log. -/
def readHosts (operation : String) : List Record → Hosts → Option Hosts
  | [], hosts => some hosts
  | .host host role :: records, hosts =>
    if safeHost address host && safeText role 16 && role ∈ allowedRoles operation &&
        hosts.lookup host = none
    then readHosts operation records (hosts ++ [(host, role)]) else none
  | _ :: records, hosts => readHosts operation records hosts

def Record.isHost : Record → Bool
  | .host _ _ => true
  | _ => false

/-- `parse_records` -/
def parseRecords (log : Log) : Option (Hosts × List Record) := do
  guard (safeText log.operation 64 ∧ operations.lookup log.operation = some log.phases)
  let hosts ← readHosts address log.operation log.records []
  return (hosts, log.records.filter fun r => !r.isHost)

/-- `applicable` -/
def applicable (role phase : String) : Bool :=
  let serverOnly := startsWith phase "kube-vip-" || startsWith phase "rke2-gitlab-runner-" ||
    startsWith phase "rke2-deployment-runners-"
  !serverOnly || role = "server"

/-! ## Evidence -/

/-- What a summary collects: the phases that have started with the status of their completion, the
failover reports, the recaps, and whether there is an error record. -/
structure Evidence where
  phaseStatus : List (String × Option ℤ)
  failoverResults : List (String × Report)
  recaps : List ((String × String) × Counters)
  invalid : Bool

def Evidence.empty : Evidence := ⟨[], [], [], false⟩

/-- The names that a task record can carry as its outcome. -/
def outcomes : List String := ["changed", "failed", "unreachable"]

def Counters.bounded (c : Counters) : Bool :=
  [c.ok, c.changed, c.failures, c.unreachable, c.skipped, c.rescued, c.ignored].all
    fun n => 0 ≤ n && n ≤ 1000000

/-- A duration that a failover report can have. -/
def Seconds.admissible : Seconds → Bool
  | .number q => 0 ≤ q && q ≤ 86400
  | .notFinite => false

/-- `FAILOVER_RESULTS` and `FAILOVER_TIMES` -/
def Report.admissible (r : Report) : Bool :=
  r.failoverTestResult ∈ ["passed", "failed", "not_run"] &&
    r.recoveryResult ∈ ["passed", "failed", "not_required"] &&
    r.finalSmokeResult ∈ ["passed", "failed", "not_run"] &&
    r.failoverElapsedSeconds.all Seconds.admissible &&
    r.transactionElapsedSeconds.all Seconds.admissible

/-- What is required of a task or a recap record before it is looked at: a known host where the
operation is gated by evidence, and a server in the phases of the deployment runners. -/
def belongs (operation : String) (hosts : Hosts) (phase host : String) : Bool :=
  (operation ∉ evidenceGatedOperations || (hosts.lookup host).isSome) &&
    (!startsWith phase "rke2-deployment-runners-" || hosts.lookup host = some "server")

/-- One record of a log, with the phases that it may name. -/
def readRecord (operation : String) (phases : List String) (hosts : Hosts) (e : Evidence) :
    Record → Option Evidence
  | .host _ _ => none
  | .started phase =>
    if safeText phase 64 && phase ∈ phases && e.phaseStatus.lookup phase = none
    then some { e with phaseStatus := (phase, none) :: e.phaseStatus } else none
  | .completed phase status =>
    if safeText phase 64 && phase ∈ phases && e.phaseStatus.lookup phase = some none &&
        0 ≤ status && status ≤ 255
    then some { e with phaseStatus := (phase, some status) :: e.phaseStatus } else none
  | .task phase host outcome task =>
    if safeText phase 64 && safeHost address host && safeText outcome 16 && safeText task 255 &&
        phase ∈ phases && outcome ∈ outcomes && belongs operation hosts phase host
    then some e else none
  | .recap phase host counters =>
    if safeText phase 64 && safeHost address host && phase ∈ phases && counters.bounded &&
        belongs operation hosts phase host
    then
      if (hosts.lookup host).isSome then
        if e.recaps.lookup (phase, host) = none
        then some { e with recaps := ((phase, host), counters) :: e.recaps } else none
      else some e
    else none
  | .failover phase host report =>
    if safeHost address host && operation ∈ failoverOperations && phases.getLast? = some phase &&
        (hosts.lookup host).isSome && e.failoverResults.lookup host = none && report.admissible
    then some { e with failoverResults := (host, report) :: e.failoverResults } else none
  | .error phase =>
    if safeText phase 64 && phase ∈ phases then some { e with invalid := true } else none

/-! ## The verdict -/

inductive Result
  | pass | fail | notApplicable
  deriving DecidableEq

/-- A recap that fails its phase. -/
def Counters.fails (operation phase : String) (c : Counters) : Bool :=
  0 < c.failures || 0 < c.unreachable || (operation ∈ preparedOperations && c.ok = 0) ||
    ((operation ∈ evidenceGatedOperations || startsWith phase "rke2-deployment-runners-") &&
      (0 < c.ignored || 0 < c.rescued)) ||
    (phase ∈ unchangedPhases && 0 < c.changed)

/-- A failover report, or its absence, that fails the phase. -/
def reportFails (phase : String) : Option Report → Bool
  | none => true
  | some r =>
    (phase = "failover-plan" && (r.failoverTestResult ≠ "not_run" || r.finalSmokeResult ≠ "not_run")) ||
      (phase ≠ "failover-plan" && r.finalSmokeResult ≠ "passed") ||
      (phase = "failover-test" && (r.failoverTestResult ≠ "passed" || r.recoveryResult ≠ "passed")) ||
      (phase = "failover-recover" && r.recoveryResult = "failed")

/-- The result of a phase on a host before the failover reports are looked at. -/
def Evidence.recapResult (e : Evidence) (operation host role phase : String) : Result :=
  if !applicable role phase then .notApplicable
  else match e.phaseStatus.lookup phase with
    | none => .fail
    | some status =>
      if phase = "inventory" then if status = some 0 then .pass else .fail
      else if status ≠ some 0 then .fail
      else match e.recaps.lookup (phase, host) with
        | some recap => if recap.fails operation phase then .fail else .pass
        | none => .fail

def Evidence.phaseResult (e : Evidence) (operation host role phase : String) : Result :=
  if operation ∈ failoverOperations && phase ≠ "inventory" &&
      reportFails phase (e.failoverResults.lookup host) then .fail
  else e.recapResult operation host role phase

/-- The changed, failed and unreachable counts of a row. -/
def Evidence.counts (e : Evidence) (host role phase : String) : Option (ℤ × ℤ × ℤ) :=
  if !applicable role phase then none
  else match e.phaseStatus.lookup phase with
    | none => none
    | some _ =>
      if phase = "inventory" then some (0, 0, 0)
      else (e.recaps.lookup (phase, host)).map fun r => (r.changed, r.failures, r.unreachable)

/-- The results of the phases that apply to a host. -/
def Evidence.statuses (e : Evidence) (operation : String) (phases : List String)
    (host role : String) : List Result :=
  (phases.filter (applicable role)).map (e.phaseResult operation host role)

def Evidence.hostResult (e : Evidence) (operation : String) (phases : List String) (status : ℤ)
    (host role : String) : Result :=
  let statuses := e.statuses operation phases host role
  if statuses = [] then .notApplicable
  else if role ≠ "N/A" && status = 0 && statuses.all (· = .pass) then .pass
  else if statuses.any (· ≠ .notApplicable) then .fail
  else .notApplicable

/-- The number of hosts that an operation requires. -/
def rightSize (operation : String) (hosts : Hosts) : Bool :=
  (operation ∉ openbaoOperations || hosts.length = if operation ∈ openbaoPkiOperations then 1 else 3) &&
    (operation ≠ "storage-apply" || hosts.length = 1) &&
    (operation ∉ openbaoStorageOperations || hosts.length = 1)

def Evidence.complete (e : Evidence) (operation : String) (phases : List String) (hosts : Hosts)
    (status : ℤ) : Bool :=
  hosts ≠ [] && !e.invalid && status = 0 && rightSize operation hosts &&
    (!phases.any (startsWith · "rke2-deployment-runners-") || hosts.any (·.2 = "server")) &&
    hosts.all (·.2 ≠ "N/A") &&
    hosts.all (fun h => e.hostResult operation phases status h.1 h.2 = .pass) &&
    phases.all fun phase => e.phaseStatus.lookup phase = some (some 0)

structure Row where
  host : String
  role : String
  phase : String
  result : Result
  counts : Option (ℤ × ℤ × ℤ)
  hostResult : Result
  deriving DecidableEq

/-- What is printed, apart from the lists of tasks and the fixed texts. -/
structure Summary where
  operation : String
  overall : Bool
  rows : List Row
  deriving DecidableEq

/-- The rows of the table, host by host. -/
def Evidence.rows (e : Evidence) (operation : String) (phases : List String) (hosts : Hosts)
    (status : ℤ) : List Row :=
  (hosts.mergeSort fun g h => decide (g.1 ≤ h.1)).flatMap fun h => phases.map fun phase =>
    ⟨h.1, h.2, phase, e.phaseResult operation h.1 h.2 phase, e.counts h.1 h.2 phase,
      e.hostResult operation phases status h.1 h.2⟩

/-- The phases that a rendering looks at: those up to a gate, or all. -/
def throughPhases (operation : String) (phases : List String) : Option String → Option (List String)
  | none => some phases
  | some through =>
    if operation ∈ prefixGatedOperations && through ∈ phases
    then some (phases.take (phases.idxOf through + 1)) else none

/-- `command_render`, with the status that it returns. -/
def commandRender (log : Log) (status : ℤ) (through : Option String) : Option (Summary × ℕ) := do
  guard (0 ≤ status ∧ status ≤ 255)
  let (hosts, records) ← parseRecords address log
  let phases ← throughPhases log.operation log.phases through
  let e ← records.foldlM (readRecord address log.operation phases hosts) .empty
  guard (e.invalid = false)
  let complete := e.complete log.operation phases hosts status
  return (⟨log.operation, complete, e.rows log.operation phases hosts status⟩,
    if status ≠ 0 ∨ complete then 0 else 2)

end PlatformConfig.Operation
