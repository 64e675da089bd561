import PlatformConfig.OperationVerdict

/-!
# The launcher of an operation

The launcher records a phase around every command, checks the evidence of a phase where the
operation is gated, stops at the first failure, and renders the summary of what it has recorded
when it ends. Which commands it runs is written once more here, apart from the table.
-/
namespace PlatformConfig.Operation

/-- `[[ $s == *-suffix ]]` -/
def endsWith (s p : String) : Bool := p.toList.isSuffixOf s.toList

/-- `${s#prefix}` -/
def removePrefix (s p : String) : String :=
  if startsWith s p then String.ofList (s.toList.drop p.toList.length) else s

/-- `${s%suffix}` -/
def removeSuffix (s p : String) : String :=
  if endsWith s p then String.ofList (s.toList.take (s.toList.length - p.toList.length)) else s

/-- The operations that the launcher supports. -/
def supportedOperations : List String := [
  "openbao-pki-request-plan", "openbao-pki-request", "openbao-pki-activate-plan",
  "openbao-pki-activate", "openbao-bootstrap-start", "openbao-bootstrap-complete-plan",
  "openbao-bootstrap-complete",
  "openbao-host-plan", "openbao-host-apply", "openbao-stage-plan", "openbao-stage-apply",
  "registry-host-plan", "registry-host-apply", "registry-storage-plan", "registry-storage-apply",
  "registry-stage-plan", "registry-stage-apply", "registry-clients-plan", "registry-clients-apply",
  "registry-pki-request-plan", "registry-pki-request", "registry-pki-activate-plan",
  "registry-pki-activate", "registry-smoke-plan", "registry-smoke",
  "storage-check", "storage-apply", "openbao-storage-check", "openbao-storage-apply",
  "rke2-host-aliases-plan", "rke2-host-aliases-apply",
  "rke2-deployment-runners-smoke",
  "openbao-haproxy-failover-plan", "openbao-haproxy-failover", "openbao-haproxy-failover-recover",
  "rke2-bootstrap-plan", "rke2-converge-plan", "rke2-bootstrap", "rke2-deploy", "openbao-status",
  "openbao-restart-plan", "openbao-restart", "openbao-converge-plan", "openbao-deploy",
  "openbao-haproxy-plan", "openbao-haproxy-activate", "openbao-keepalived-plan",
  "openbao-keepalived-activate", "openbao-smoke", "openbao-vip-smoke"]

/-- A step of the launcher: `initialize_hosts` with its phase, `run_phase`,
`require_phase_evidence`, and the `registry-limit` of the summary. -/
inductive Step
  | hosts (phase : Option String)
  | phase (name : String)
  | gate (through : String)
  | registryLimit
  deriving DecidableEq

/-- A phase whose evidence is required before the next command. -/
def gated (phase : String) : List Step := [.phase phase, .gate phase]

/-- The commands of the preparation of OpenBao and of its first deployment. -/
def initialSteps (operation : String) : List Step :=
  let action := removeSuffix (removePrefix operation "openbao-") "-plan"
  [.gate "inventory"] ++ gated "connectivity" ++ gated "openbao-initial-preflight" ++
    if action = "pki-request" ∨ action = "pki-activate" then
      if endsWith operation "-plan" then [] else gated ("openbao-" ++ action)
    else if action = "bootstrap-start" then gated "openbao-bootstrap-start"
    else if action = "bootstrap-complete" then
      gated "openbao-bootstrap-complete-check" ++
        if endsWith operation "-plan" then [] else gated "openbao-bootstrap-complete"
    else []

/-- One of the steps that an apply operation checks, applies and checks again. -/
def preparedStep (operation step : String) : List Step :=
  gated (step ++ "-check") ++
    if endsWith operation "-apply" then gated (step ++ "-apply") ++ gated (step ++ "-post-check") else []

def preparationSteps (operation : String) : List Step :=
  let host := removeSuffix (removeSuffix (removePrefix operation "openbao-") "-plan") "-apply" = "host"
  [.gate "inventory"] ++ gated "connectivity" ++ gated "openbao-preflight" ++
    (if host then ["bootstrap", "base-os", "runtime"] else ["stage"]).flatMap fun step =>
      preparedStep operation ("openbao-" ++ step)

def registrySteps (operation : String) : List Step :=
  let action := removeSuffix (removeSuffix (removePrefix operation "registry-") "-plan") "-apply"
  [.gate "inventory", .registryLimit] ++ gated "connectivity" ++ gated "registry-preflight" ++
    if action = "host" then
      preparedStep operation "registry-bootstrap" ++ preparedStep operation "registry-base-os"
    else if action = "storage" then
      gated "storage-check" ++
        if operation = "registry-storage-apply" then
          gated "storage-apply" ++ gated "storage-idempotence" ++ gated "storage-verify"
        else []
    else if action = "stage" ∨ action = "clients" then preparedStep operation ("registry-" ++ action)
    else if action = "pki-request" ∨ action = "pki-activate" then
      gated "registry-pki-preflight" ++ if endsWith operation "-plan" then [] else gated operation
    else if action = "smoke" then
      if operation = "registry-smoke" then
        gated "registry-smoke" ++ gated "registry-smoke-post-check"
      else []
    else []

/-- The convergence of the cluster behind its checks. -/
def clusterSteps : List Step :=
  [.phase "rke2-apply", .phase "kube-vip-apply"] ++ gated "rke2-gitlab-runner-apply" ++
    gated "rke2-deployment-runners-apply" ++ [.phase "rke2-smoke", .phase "kube-vip-smoke"] ++
    gated "rke2-gitlab-runner-smoke" ++ gated "rke2-deployment-runners-smoke" ++
    [.phase "rke2-post-check", .phase "kube-vip-post-check", .phase "rke2-gitlab-runner-post-check",
      .phase "rke2-deployment-runners-post-check"]

/-- The commands of an operation behind the inventory. -/
def sequence (operation : String) : List Step :=
  if startsWith operation "openbao-pki-" ∨ startsWith operation "openbao-bootstrap-" then
    initialSteps operation
  else if operation ∈ openbaoPreparationOperations then preparationSteps operation
  else if startsWith operation "registry-" then registrySteps operation
  else match operation with
  | "openbao-storage-check" =>
    [.gate "inventory"] ++ gated "connectivity" ++ [.phase "storage-check"]
  | "storage-check" => [.phase "connectivity", .phase "storage-check"]
  | "storage-apply" | "openbao-storage-apply" =>
    [.gate "inventory"] ++ gated "connectivity" ++ gated "storage-check" ++ gated "storage-apply" ++
      gated "storage-idempotence" ++ [.phase "storage-verify"]
  | "rke2-host-aliases-plan" | "rke2-host-aliases-apply" =>
    [.gate "inventory"] ++ gated "connectivity" ++ gated "host-aliases-check" ++
      if operation = "rke2-host-aliases-apply" then
        gated "host-aliases-apply" ++ gated "host-aliases-post-check" ++ [.phase "host-aliases-verify"]
      else []
  | "rke2-bootstrap-plan" =>
    [.phase "connectivity", .phase "bootstrap-preflight", .phase "rke2-plan"]
  | "rke2-deployment-runners-smoke" =>
    [.gate "inventory"] ++ gated "connectivity" ++ [.phase "rke2-deployment-runners-smoke"]
  | "rke2-converge-plan" =>
    [.phase "connectivity", .phase "core-health", .phase "convergence-preflight", .phase "rke2-plan",
      .phase "kube-vip-plan"] ++ gated "rke2-gitlab-runner-plan" ++
      [.phase "rke2-deployment-runners-plan"]
  | "rke2-bootstrap" => [.phase "connectivity", .phase "bootstrap-preflight"] ++ clusterSteps
  | "rke2-deploy" => [.phase "core-health", .phase "convergence-preflight"] ++ clusterSteps
  | "openbao-status" => [.phase "connectivity", .phase "openbao-status"]
  | "openbao-haproxy-failover-plan" => [.phase "failover-plan"]
  | "openbao-haproxy-failover" => [.phase "failover-test"]
  | "openbao-haproxy-failover-recover" => [.phase "failover-recover"]
  | "openbao-haproxy-plan" | "openbao-keepalived-plan" => [.phase "edge-plan"]
  | "openbao-haproxy-activate" | "openbao-keepalived-activate" => [.phase "edge-activate"]
  | "openbao-smoke" | "openbao-vip-smoke" => [.phase operation]
  | "openbao-restart-plan" =>
    [.phase "connectivity", .phase "openbao-status", .phase "openbao-restart-check"]
  | "openbao-converge-plan" =>
    [.phase "connectivity", .phase "openbao-status", .phase "openbao-converge-check"]
  | "openbao-restart" | "openbao-deploy" =>
    [.phase "connectivity", .phase "openbao-status", .phase "openbao-roll",
      .phase "openbao-final-status", .phase "openbao-post-check"]
  | _ => []

/-- The steps of the launcher behind its arguments. -/
def steps (operation : String) : List Step :=
  .hosts (if operation = "rke2-deploy" then none else some "inventory") :: sequence operation

/-! ## Runs -/

/-- What happens at a step: a signal before it or during its command, the exit status of the
command, the records that its callback appends, and for the inventory what the `hosts` command
ends with, the hosts or an exit status, and whether the temporary inventory is removed. -/
structure Behaviour where
  before : Option ℕ
  during : Option ℕ
  status : ℕ
  records : List Record
  hosts : Except ℕ Hosts
  removed : Bool

/-- The end of a step: the launcher goes on, or exits. -/
inductive Outcome
  | goesOn (records : List Record)
  | exits (status : ℕ) (records : List Record)

def Outcome.records : Outcome → List Record
  | .goesOn records => records
  | .exits _ records => records

/-- A command returned: the launcher goes on for status 0, `set -e`. -/
def Outcome.of (status : ℕ) (records : List Record) : Outcome :=
  if status = 0 then .goesOn records else .exits status records

def started (phase : Option String) : List Record := phase.toList.map .started

def completed (phase : Option String) (status : ℕ) : List Record :=
  phase.toList.map fun p => .completed p status

def hostRecords (hosts : Hosts) : List Record := hosts.map fun h => .host h.1 h.2

/-- What the `hosts` command appends, which is nothing where it fails. -/
def Behaviour.hostRecords (b : Behaviour) : List Record :=
  if b.status = 0 then match b.hosts with
    | .ok hosts => Operation.hostRecords hosts
    | .error _ => []
  else []

/-- The status of `initialize_hosts`. -/
def Behaviour.hostsStatus (b : Behaviour) : ℕ :=
  if !b.removed then 2
  else if b.status = 0 then match b.hosts with
    | .ok _ => 0
    | .error status => status
  else b.status

variable (address : String → Bool)

/-- `render --status 0 --through` exits with 0. -/
def gateStatus (operation : String) (records : List Record) (through : String) : ℕ :=
  match commandRender address ⟨operation, (operations.lookup operation).getD [], records⟩ 0
      (some through) with
  | some (_, status) => status
  | none => 2

/-- `registry-limit` exits with 0 for a registry operation that has hosts. -/
def registryLimitStatus (operation : String) (records : List Record) : ℕ :=
  match parseRecords address ⟨operation, (operations.lookup operation).getD [], records⟩ with
  | some (hosts, _) => if operation ∈ registryOperations ∧ hosts ≠ [] then 0 else 2
  | none => 2

/-- One step, from the records so far. -/
def runStep (operation : String) (b : Behaviour) (records : List Record) (step : Step) : Outcome :=
  match b.before with
  | some signal => .exits signal records
  | none => match step with
    | .hosts phase => match b.during with
      | some signal => .exits signal (records ++ started phase ++ b.records)
      | none => .of b.hostsStatus (records ++ started phase ++ b.records ++ b.hostRecords ++
          completed phase b.hostsStatus)
    | .phase name => match b.during with
      | some signal => .exits signal (records ++ started (some name) ++ b.records)
      | none => .of b.status (records ++ started (some name) ++ b.records ++
          completed (some name) b.status)
    | .gate through => .of (gateStatus address operation records through) records
    | .registryLimit => .of (registryLimitStatus address operation records) records

/-- The steps one after another, with the behaviour of each. -/
def runSteps (operation : String) : List Step → (ℕ → Behaviour) → List Record → ℕ × List Record
  | [], _, records => (0, records)
  | step :: steps, b, records =>
    match runStep address operation (b 0) records step with
    | .goesOn records => runSteps operation steps (fun n => b (n + 1)) records
    | .exits status records => (status, records)

/-- The body of the launcher; `accepted` says whether its arguments pass. -/
def body (operation : String) (accepted : Bool) (b : ℕ → Behaviour) : ℕ × List Record :=
  if accepted then runSteps address operation (steps operation) b [] else (2, [])

/-- The log that the body leaves. -/
def producedLog (operation : String) (accepted : Bool) (b : ℕ → Behaviour) : Log :=
  ⟨operation, (operations.lookup operation).getD [], (body address operation accepted b).2⟩

/-- `finish`: the exit status, with the render that decides it where the body has succeeded. -/
def finish (operation : String) (accepted : Bool) (b : ℕ → Behaviour) : ℕ :=
  let status := (body address operation accepted b).1
  let renderStatus := match commandRender address (producedLog address operation accepted b) status none with
    | some (_, status) => status
    | none => 2
  if status = 0 ∧ renderStatus ≠ 0 then 2 else status

/-! ## The steps and the table -/

def Step.phaseOf : Step → Option String
  | .hosts p => p
  | .phase p => some p
  | _ => none

/-- The log of an operation with some records. -/
def logOf (operation : String) (records : List Record) : Log :=
  ⟨operation, (operations.lookup operation).getD [], records⟩

/-- Every gate stands right behind its phase, `last` being the phase before the steps. -/
def gatesFollow : Option String → List Step → Bool
  | _, [] => true
  | last, .gate through :: steps => last = some through && gatesFollow last steps
  | last, step :: steps => gatesFollow (step.phaseOf.or last) steps

/-- What the launcher and the table have in common for an operation. -/
structure Tabled (operation : String) (phases : List String) : Prop where
  lookup : operations.lookup operation = some phases
  safe : safeText operation 64 = true ∧ ∀ phase ∈ phases, safeText phase 64 = true
  same : (steps operation).filterMap Step.phaseOf = phases
  distinct : phases.Nodup
  follow : gatesFollow none (steps operation) = true
  gates : ∀ g, .gate g ∈ steps operation → operation ∈ prefixGatedOperations ∧ operation ∉ failoverOperations
  limits : .registryLimit ∈ steps operation → operation ∈ registryOperations
  hosts : ∀ p, .hosts p ∉ sequence operation

lemma tabled {operation : String} (supported : operation ∈ supportedOperations) : ∃ phases, Tabled operation phases := by
  have all_ : ∀ operation ∈ supportedOperations, (operations.lookup operation).any fun phases =>
      (safeText operation 64 && phases.all (safeText · 64)) &&
      (steps operation).filterMap Step.phaseOf = phases && decide phases.Nodup &&
      gatesFollow none (steps operation) &&
      ((steps operation).all fun step => match step with
        | .gate _ => operation ∈ prefixGatedOperations && operation ∉ failoverOperations
        | .registryLimit => operation ∈ registryOperations
        | _ => true) &&
      (sequence operation).all fun step => match step with
        | .hosts _ => false
        | _ => true := by
    decide +kernel
  have facts := all_ operation supported
  cases lookup : operations.lookup operation with
  | none => simp [lookup] at facts
  | some phases =>
  rw [lookup, Option.any_some] at facts
  simp only [Bool.and_eq_true, decide_eq_true_eq, List.all_eq_true] at facts
  obtain ⟨⟨⟨⟨⟨safe, same⟩, distinct⟩, follow⟩, kinds⟩, hosts⟩ := facts
  refine ⟨phases, lookup, safe, same, distinct, follow, fun g mem => ?_, fun mem => ?_, fun p mem => ?_⟩
  · simpa using kinds _ mem
  · simpa using kinds _ mem
  · simpa using hosts _ mem

end PlatformConfig.Operation
