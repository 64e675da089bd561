import PlatformConfig.GuardPlan

/-!
# Review plans of the edge activation

The context of a plan, from the committed sources and the CI environment, and the validation of a
plan against the current inputs. The digest function is a parameter.
-/
namespace PlatformConfig.ActivationPlan

open CanonicalJson GuardPlan

def ttl : ℤ := 1800

/-- A committed source: its revision and its name in the repository. -/
structure Source where
  sha : String
  name : String
  immutable : matchesHex 40 sha = true

structure Context where
  configSha : String
  privateSha : String
  inventory : String
  environment : String
  lane : String
  project : String
  pipeline : String
  image : String
  planJob : String
  deriving DecidableEq

def Context.json (c : Context) : Json := .obj [("config_sha", .str c.configSha),
  ("environment", .str c.environment), ("image", .str c.image), ("inventory", .str c.inventory),
  ("lane", .str c.lane), ("pipeline", .str c.pipeline), ("plan_job", .str c.planJob),
  ("private_sha", .str c.privateSha), ("project", .str c.project)]

/-- The modes of an activation. -/
inductive Mode
  | plan | interactive | ci
  deriving DecidableEq

/-- The variables of a process. -/
abbrev Env := String → Option String

/-- `env.get` with an empty default. -/
def Env.text (env : Env) (name : String) : String := (env name).getD ""

def endsWith (name suffix : String) : Bool := suffix.toList.isSuffixOf name.toList

/-- `name[:-n]` -/
def dropEnd (name : String) (n : ℕ) : String :=
  String.ofList (name.toList.take (name.toList.length - n))

/-- The web pipeline of the protected default branch at the private revision. -/
def protectedPipeline (env : Env) (mode : Mode) (privateSha : String) : Bool :=
  env "CI" = some "true" && mode ≠ .interactive && env "CI_PIPELINE_SOURCE" = some "web" &&
    env "CI_COMMIT_REF_PROTECTED" = some "true" && env.text "CI_DEFAULT_BRANCH" ≠ "" &&
    env "CI_COMMIT_BRANCH" = env "CI_DEFAULT_BRANCH" && env "CI_COMMIT_SHA" = some privateSha

def jobSuffix (operation : String) (mode : Mode) : String :=
  "-" ++ operation ++ "-" ++ (if mode = .plan then "plan" else "activate")

/-- A fixed plan or manual job with a pinned image. -/
def pinnedJob (env : Env) (operation : String) (mode : Mode) : Bool :=
  let suffix := jobSuffix operation mode
  let name := env.text "CI_JOB_NAME"
  endsWith name suffix && suffix.toList.length < name.toList.length &&
    (1 ≤ name.toList.length && name.toList.length ≤ 128 && name.toList.all isNameChar) &&
    matchesPositive (env.text "CI_PROJECT_ID") && matchesPositive (env.text "CI_PIPELINE_ID") &&
    matchesImage (env.text "CI_JOB_IMAGE") && (mode ≠ .ci || env "CI_JOB_MANUAL" = some "true")

/-- The identity of a GitLab job. -/
def gitlab (config inventory : Source) (environment : String) (env : Env) (planJob : String) : Context :=
  ⟨config.sha, inventory.sha, inventory.name, environment, "gitlab", env.text "CI_PROJECT_ID",
    env.text "CI_PIPELINE_ID", env.text "CI_JOB_IMAGE", planJob⟩

/-- `context` -/
def context (config inventory : Source) (environment operation : String) (mode : Mode) (env : Env) :
    Except String Context :=
  if !matchesEnvironment environment then .error "Activation environment must be explicit and safe"
  else if (env "CI").isNone then
    if mode = .ci then .error "CI activation requires a matching protected manual GitLab job"
    else .ok ⟨config.sha, inventory.sha, inventory.name, environment, "operator", "", "", "", ""⟩
  else if !protectedPipeline env mode inventory.sha then .error
    "Activation requires the protected default-branch web pipeline and exact private revision"
  else if !pinnedJob env operation mode then .error
    "Activation requires fixed matching plan/manual job identities and a pinned image"
  else .ok (gitlab config inventory environment env
    (if mode = .plan then env.text "CI_JOB_NAME" else dropEnd (env.text "CI_JOB_NAME") 9 ++ "-plan"))

variable (sha256 : List Char → String)

def digest (plan : Json) : String := sha256 (canonical (Json.body plan))

def keys : List String := ["context", "created", "digest", "evidence", "expires", "hosts",
  "operation", "plan_id", "schema"]

/-- The field `key` has the canonical text of `j`. -/
def sameText (plan : Json) (key : String) (j : Json) : Bool :=
  (plan.get? key).map canonical = some (canonical j)

/-- The creation and the expiry of a plan are integers with the property `p`. -/
def times (plan : Json) (p : ℤ → ℤ → Bool) : Bool :=
  ((plan.get? "created").bind Json.int?).any fun created =>
    ((plan.get? "expires").bind Json.int?).any (p created)

/-- The clock lies in a window of the fixed length. -/
def inWindow (plan : Json) (now : ℤ) : Bool :=
  times plan fun created expires => expires - created = ttl && created ≤ now && now < expires

/-- `validate` -/
def validate (plan : Json) (operation : String) (hosts context evidence : Json) (now : ℤ) :
    Except String Json :=
  if !(plan.keys? = some keys && ((plan.get? "schema").bind Json.int?) = some 1) then
    .error "Unsupported activation plan schema"
  else if !(hasStr plan "operation" (· = operation) && hasStr plan "plan_id" (matchesHex 32) &&
      inWindow plan now) then
    .error "Activation plan is expired, future-dated, or for a different operation"
  else if !(hasStr plan "digest" (· = digest sha256 plan) && sameText plan "hosts" hosts &&
      sameText plan "context" context && sameText plan "evidence" evidence) then
    .error ("Activation plan digest, source, lane, hosts, or live evidence changed; " ++
      "create a new plan")
  else .ok plan

end PlatformConfig.ActivationPlan
