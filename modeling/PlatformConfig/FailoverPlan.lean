import PlatformConfig.ActivationPlan

/-!
# Review plans of the failover test

The controller's own copy of the plan checks, the context of a failover job, and the validation of
a plan for a fresh test or for a later recovery.
-/
namespace PlatformConfig.FailoverPlan

open CanonicalJson GuardPlan ActivationPlan

def operation : String := "haproxy-failover"

inductive Mode
  | plan | test | recover
  deriving DecidableEq

def Mode.text : Mode → String
  | .plan => "plan"
  | .test => "test"
  | .recover => "recover"

def contextKeys : List String := ["config_sha", "environment", "image", "inventory", "lane",
  "pipeline", "plan_job", "private_sha", "project"]

/-- `validate_context` -/
def validateContext (value : Json) : Except String Unit :=
  if !(value.keys? = some contextKeys && hasStr value "config_sha" (matchesHex 40) &&
      hasStr value "private_sha" (matchesHex 40) && hasStr value "environment" matchesEnvironment &&
      hasStr value "inventory" validInventory) then
    .error "Invalid failover source/environment identity"
  else if hasStr value "lane" (· = "operator") then
    if ["project", "pipeline", "image", "plan_job"].all fun k => hasStr value k (· = "") then .ok ()
    else .error "Operator plan contains CI identity"
  else if hasStr value "lane" (· = "gitlab") then
    if hasStr value "project" matchesPositive && hasStr value "pipeline" matchesPositive &&
        hasStr value "image" matchesImage && hasStr value "plan_job" matchesPlanJob &&
        hasStr value "plan_job" (·.toList.length ≤ 128) then .ok ()
    else .error "Invalid failover GitLab identity"
  else .error "Unknown failover lane"

def suffix (mode : Mode) : String := "-" ++ operation ++ "-" ++ mode.text

/-- The suffix a job has to end with: a manual test job also restores. -/
def expectedSuffix (mode : Mode) (name : String) : String :=
  if mode = .recover && endsWith name (suffix .test) then suffix .test else suffix mode

/-- The environment with the job under the name of an activation job. -/
def translate (mode : Mode) (env : Env) : Except String Env :=
  let name := env.text "CI_JOB_NAME"
  let expected := expectedSuffix mode name
  if !(endsWith name expected && expected.toList.length < name.toList.length) then
    .error "Expected fixed failover plan/test/recover job"
  else .ok (Function.update env "CI_JOB_NAME" (some (dropEnd name expected.toList.length ++ "-" ++
    operation ++ "-" ++ (if mode = .plan then "plan" else "activate"))))

def baseMode (mode : Mode) (env : Env) : ActivationPlan.Mode :=
  if mode = .plan then .plan else if (env "CI").isSome then .ci else .interactive

/-- `context` -/
def context (config inventory : Source) (environment : String) (mode : Mode) (env : Env) :
    Except String Context := do
  let env ← if (env "CI").isSome then translate mode env else .ok env
  let result ← ActivationPlan.context config inventory environment operation (baseMode mode env) env
  validateContext result.json
  return result

variable (sha256 : List Char → String)

def keys : List String := ["context", "created", "digest", "evidence", "expires", "hosts",
  "nonce", "operation", "owner", "plan_id", "schema", "service"]

/-- Three sorted hosts, with the owner among them. -/
def validHosts (plan : Json) : Bool :=
  match (plan.get? "hosts").bind Json.strings? with
  | some hosts => hosts.length = 3 && hosts.all matchesHost && hosts.Nodup &&
      hosts.insertionSort (· ≤ ·) = hosts && hasStr plan "owner" (hosts.contains ·)
  | none => false

/-- `validate_shape` -/
def validateShape (plan : Json) : Except String Json :=
  if !(plan.keys? = some keys && ((plan.get? "schema").bind Json.int?) = some 1 &&
      hasStr plan "operation" (· = operation) && hasStr plan "service" (· = "haproxy.service") &&
      hasStr plan "plan_id" (matchesHex 32) && hasStr plan "nonce" (matchesHex 32) &&
      times plan fun created expires => 0 ≤ created && expires - created = ttl) then
    .error "Invalid failover plan schema"
  else if !(validHosts plan && (plan.get? "evidence").any Json.nonemptyObject) then
    .error "Failover requires exactly three sorted hosts, owner and baseline evidence"
  else do
    validateContext ((plan.get? "context").getD .null)
    if !((canonical plan).length ≤ maxBytes && hasStr plan "digest" (· = digest sha256 plan)) then
      .error "Invalid failover plan size or digest"
    else .ok plan

/-- A dictionary without a key. -/
def without (key : String) : Json → Json
  | .obj fields => .obj (fields.filter fun f => f.1 ≠ key)
  | j => j

/-- The modes in which a plan is verified. -/
inductive Verification
  | test | recover
  deriving DecidableEq

/-- The clock of a fresh test, with the public code of a rejection. -/
def checkClock (plan : Json) (now : ℤ) : Except String Unit :=
  if !(times plan fun created expires => created ≤ now && now < expires) then
    .error (if times plan fun _ expires => expires ≤ now then "PLAN_EXPIRED" else "PLAN_NOT_YET_VALID")
  else .ok ()

/-- The comparison of hosts and contexts at the end of `validate`. -/
def checkIdentity (plan hosts original current : Json) : Except String Json :=
  if sameText plan "hosts" hosts && canonical current = canonical original then .ok plan
  else .error "SOURCE_OR_CI_IDENTITY_CHANGED"

/-- The comparisons of a fresh test. -/
def validateTest (plan hosts current owner evidence : Json) (now : ℤ) : Except String Json := do
  checkClock plan now
  if !sameText plan "owner" owner then .error "VIP_OWNER_CHANGED"
  else if !sameText plan "evidence" evidence then .error "BASELINE_CHANGED"
  else checkIdentity plan hosts ((plan.get? "context").getD .null) current

/-- `validate` -/
def validate (plan : Json) (mode : Verification) (hosts current owner evidence : Json) (now : ℤ) :
    Except String Json := do
  let plan ← validateShape sha256 plan
  let _ ← validateContext current
  match mode with
  | .recover =>
    checkIdentity plan hosts (without "pipeline" ((plan.get? "context").getD .null))
      (without "pipeline" current)
  | .test => validateTest plan hosts current owner evidence now

/-- A check in front of a computation. -/
lemma checked_ok {ε α : Type} {b : Bool} {e : ε} {x : Except ε α} {a : α} :
    (if (!b) = true then .error e else x) = .ok a ↔ b = true ∧ x = .ok a := by
  cases b <;> simp

/-- A computation that goes on with the value of another one. -/
lemma bind_ok {ε α β : Type} {x : Except ε α} {f : α → Except ε β} {b : β} :
    (x >>= f) = .ok b ↔ ∃ a, x = .ok a ∧ f a = .ok b := by
  cases x with
  | error e =>
    constructor
    · rintro ⟨⟩
    · rintro ⟨a, ⟨⟩, -⟩
  | ok a =>
    constructor
    · exact fun ran => ⟨a, rfl, ran⟩
    · rintro ⟨a', ⟨⟩, ran⟩
      exact ran

end PlatformConfig.FailoverPlan
