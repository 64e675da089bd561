import PlatformConfig.FailoverPlan

/-!
# Plan jobs and their execution jobs

The jobs of a protected pipeline: a prefix, an operation and a mode. An execution job has the
context of its plan job where its own name is short enough, and the context determines the prefix.
-/
namespace PlatformConfig.PlanJobs

open GuardPlan ActivationPlan

/-- The operations of the edge activation. -/
inductive Route
  | haproxy | keepalived
  deriving DecidableEq

def Route.text : Route → String
  | .haproxy => "haproxy"
  | .keepalived => "keepalived"

/-- A job that asks for a context: `failoverRestore` is a test job in recover mode. -/
inductive Job
  | plan (route : Route)
  | activate (route : Route)
  | failoverPlan
  | failoverTest
  | failoverRecover
  | failoverRestore
  deriving DecidableEq

def Job.operation : Job → String
  | .plan route | .activate route => route.text
  | _ => FailoverPlan.operation

/-- What follows the prefix in the name of a job. -/
def Job.suffix : Job → String
  | .plan route => "-" ++ route.text ++ "-plan"
  | .activate route => "-" ++ route.text ++ "-activate"
  | .failoverPlan => "-haproxy-failover-plan"
  | .failoverTest | .failoverRestore => "-haproxy-failover-test"
  | .failoverRecover => "-haproxy-failover-recover"

def Job.context (config inventory : Source) (environment : String) (env : Env) :
    Job → Except String Context
  | .plan route => ActivationPlan.context config inventory environment route.text .plan env
  | .activate route => ActivationPlan.context config inventory environment route.text .ci env
  | .failoverPlan => FailoverPlan.context config inventory environment .plan env
  | .failoverTest => FailoverPlan.context config inventory environment .test env
  | .failoverRecover | .failoverRestore =>
    FailoverPlan.context config inventory environment .recover env

/-- The plan job that an execution job belongs to. -/
def Job.planned : Job → Job
  | .activate route => .plan route
  | .plan route => .plan route
  | _ => .failoverPlan

def Job.executes : Job → Bool
  | .plan _ | .failoverPlan => false
  | _ => true

/-- The variables that the jobs of one pipeline share. -/
def pipelineVariables : List String := ["CI", "CI_PIPELINE_SOURCE", "CI_COMMIT_REF_PROTECTED",
  "CI_DEFAULT_BRANCH", "CI_COMMIT_BRANCH", "CI_COMMIT_SHA", "CI_PROJECT_ID", "CI_PIPELINE_ID",
  "CI_JOB_IMAGE"]

def SamePipeline (env env' : Env) : Prop := ∀ k ∈ pipelineVariables, env' k = env k

lemma endsWith_iff {name suffix : String} : endsWith name suffix = true ↔ ∃ p, name = p ++ suffix := by
  rw [endsWith, List.isSuffixOf_iff_suffix]
  constructor
  · rintro ⟨p, same⟩
    exact ⟨String.ofList p, String.toList_inj.mp (by simpa using same.symm)⟩
  · rintro ⟨p, rfl⟩
    exact ⟨p.toList, by simp⟩

lemma dropEnd_append (p s : String) {n : ℕ} (h : s.toList.length = n) : dropEnd (p ++ s) n = p := by
  rw [dropEnd, ← h]
  apply String.toList_inj.mp
  simp

section Contexts
variable {config inventory : Source} {environment operation : String} {env env' : Env}
  {mode : ActivationPlan.Mode} {c : Context}

/-- What a CI job is accepted for, and the context it gets. -/
lemma context_iff (ci : (env "CI").isSome = true) :
    ActivationPlan.context config inventory environment operation mode env = .ok c ↔
      matchesEnvironment environment = true ∧ protectedPipeline env mode inventory.sha = true ∧
      pinnedJob env operation mode = true ∧ c = gitlab config inventory environment env
        (if mode = .plan then env.text "CI_JOB_NAME"
          else dropEnd (env.text "CI_JOB_NAME") 9 ++ "-plan") := by
  have present : (env "CI").isNone = false := by simpa using ci
  simp only [ActivationPlan.context, present, Bool.false_eq_true, if_false]
  cases matchesEnvironment environment with
  | false => simp
  | true =>
    cases protectedPipeline env mode inventory.sha with
    | false => simp
    | true =>
      cases pinnedJob env operation mode with
      | false => simp
      | true => simp [eq_comm]

lemma pinnedJob_iff {p : String}
    (named : env "CI_JOB_NAME" = some (p ++ jobSuffix operation mode)) :
    pinnedJob env operation mode = true ↔ p.toList ≠ [] ∧
      (p ++ jobSuffix operation mode).toList.length ≤ 128 ∧
      (∀ ch ∈ (p ++ jobSuffix operation mode).toList, isNameChar ch = true) ∧
      matchesPositive (env.text "CI_PROJECT_ID") = true ∧
      matchesPositive (env.text "CI_PIPELINE_ID") = true ∧
      matchesImage (env.text "CI_JOB_IMAGE") = true ∧
      (mode = .ci → env "CI_JOB_MANUAL" = some "true") := by
  have name : env.text "CI_JOB_NAME" = p ++ jobSuffix operation mode := by
    rw [Env.text, named]
    rfl
  have ends : endsWith (p ++ jobSuffix operation mode) (jobSuffix operation mode) = true :=
    endsWith_iff.mpr ⟨p, rfl⟩
  have longer : (jobSuffix operation mode).toList.length <
      (p ++ jobSuffix operation mode).toList.length ↔ p.toList ≠ [] := by
    rw [String.toList_append, List.length_append, ← List.length_pos_iff_ne_nil]
    omega
  simp only [pinnedJob, name, ends, Bool.and_eq_true, decide_eq_true_eq, longer, List.all_eq_true,
    Bool.or_eq_true, true_and, ne_eq]
  constructor
  · rintro ⟨⟨⟨⟨⟨some_, ⟨-, short⟩, plain⟩, project⟩, pipeline⟩, image⟩, manual⟩
    exact ⟨some_, short, plain, project, pipeline, image, fun ci => manual.resolve_left (· ci)⟩
  · rintro ⟨some_, short, plain, project, pipeline, image, manual⟩
    refine ⟨⟨⟨⟨⟨some_, ⟨?_, short⟩, plain⟩, project⟩, pipeline⟩, image⟩, ?_⟩
    · have := longer.mpr some_
      omega
    · by_cases ci : mode = .ci
      · exact .inr (manual ci)
      · exact .inl ci

lemma SamePipeline.text (same : SamePipeline env env') (k : String) (shared : k ∈ pipelineVariables) :
    env'.text k = env.text k := by
  rw [Env.text, Env.text, same k shared]

lemma protectedPipeline_same (same : SamePipeline env env') (sha : String) :
    protectedPipeline env' .ci sha = protectedPipeline env .plan sha := by
  simp only [protectedPipeline, same "CI" (by decide), same "CI_PIPELINE_SOURCE" (by decide),
    same "CI_COMMIT_REF_PROTECTED" (by decide), same.text "CI_DEFAULT_BRANCH" (by decide),
    same "CI_COMMIT_BRANCH" (by decide), same "CI_DEFAULT_BRANCH" (by decide),
    same "CI_COMMIT_SHA" (by decide)]
  rfl

lemma jobSuffix_plan (operation : String) : jobSuffix operation .plan = "-" ++ operation ++ "-plan" := by
  simp only [jobSuffix, if_pos, String.append_assoc]
  rfl

lemma jobSuffix_ci (operation : String) :
    jobSuffix operation .ci = "-" ++ operation ++ "-activate" := by
  simp only [jobSuffix, reduceCtorEq, if_false, String.append_assoc]
  rfl

lemma jobSuffix_plan_length (operation : String) :
    (jobSuffix operation .plan).toList.length = operation.toList.length + 6 := by
  simp [jobSuffix_plan]

lemma jobSuffix_ci_length (operation : String) :
    (jobSuffix operation .ci).toList.length = operation.toList.length + 10 := by
  simp [jobSuffix_ci]

/-- The name of the manual job is made of name characters where that of the plan job is. -/
lemma plain_ci {p : String}
    (plain : ∀ ch ∈ (p ++ jobSuffix operation .plan).toList, isNameChar ch = true) :
    ∀ ch ∈ (p ++ jobSuffix operation .ci).toList, isNameChar ch = true := by
  have ending : ∀ ch ∈ "-activate".toList, isNameChar ch = true := by simp [isNameChar]
  simp only [jobSuffix_plan, jobSuffix_ci, String.toList_append, List.mem_append] at plain ⊢
  rintro ch (pre | (dash | op) | activate)
  · exact plain ch (.inl pre)
  · exact plain ch (.inr (.inl (.inl dash)))
  · exact plain ch (.inr (.inl (.inr op)))
  · exact ending ch activate

lemma gitlab_same (same : SamePipeline env env') (planJob : String) :
    gitlab config inventory environment env' planJob =
      gitlab config inventory environment env planJob := by
  simp only [gitlab, same.text "CI_PROJECT_ID" (by decide), same.text "CI_PIPELINE_ID" (by decide),
    same.text "CI_JOB_IMAGE" (by decide)]

/-- The plan job that a manual job names. -/
lemma planJob_ci {p : String} (named : env "CI_JOB_NAME" = some (p ++ jobSuffix operation .ci)) :
    dropEnd (env.text "CI_JOB_NAME") 9 ++ "-plan" = p ++ jobSuffix operation .plan := by
  have cut : p ++ jobSuffix operation .ci = (p ++ ("-" ++ operation)) ++ "-activate" := by
    simp only [jobSuffix_ci, String.append_assoc]
  rw [Env.text, named, Option.getD_some, cut, dropEnd_append _ _ (by decide), jobSuffix_plan]
  simp only [String.append_assoc]

/-- The manual job of an accepted plan job gets the same context unless its name is too long. -/
lemma activation_pairs {p : String} (ci : (env "CI").isSome = true) (same : SamePipeline env env')
    (named : env "CI_JOB_NAME" = some (p ++ jobSuffix operation .plan))
    (named' : env' "CI_JOB_NAME" = some (p ++ jobSuffix operation .ci))
    (manual : env' "CI_JOB_MANUAL" = some "true")
    (accepted : ActivationPlan.context config inventory environment operation .plan env = .ok c) :
    ActivationPlan.context config inventory environment operation .ci env' = .ok c ↔
      (p ++ jobSuffix operation .plan).toList.length ≤ 124 := by
  obtain ⟨environment_, pipeline, pinned, rfl⟩ := (context_iff ci).mp accepted
  have ci' : ( env' "CI").isSome = true := by rwa [same "CI" (by decide)]
  obtain ⟨some_, short, plain, project, pipeline_, image, -⟩ := (pinnedJob_iff named).mp pinned
  have name : env.text "CI_JOB_NAME" = p ++ jobSuffix operation .plan := by
    rw [Env.text, named]
    rfl
  rw [context_iff ci', pinnedJob_iff named', protectedPipeline_same same, planJob_ci named',
    gitlab_same same, if_pos rfl, if_neg (by decide), name, same.text "CI_PROJECT_ID" (by decide),
    same.text "CI_PIPELINE_ID" (by decide), same.text "CI_JOB_IMAGE" (by decide)]
  have lengths : (p ++ jobSuffix operation .ci).toList.length =
      (p ++ jobSuffix operation .plan).toList.length + 4 := by
    simp only [String.toList_append, List.length_append, jobSuffix_plan_length, jobSuffix_ci_length]
    omega
  constructor
  · rintro ⟨-, -, ⟨-, fits, -⟩, -⟩
    omega
  · intro fits
    exact ⟨environment_, pipeline, ⟨some_, by omega, plain_ci plain, project, pipeline_, image,
      fun _ => manual⟩, rfl⟩

/-- The suffix of the job that the activation knows a failover job as. -/
def translated (mode : FailoverPlan.Mode) : String :=
  jobSuffix FailoverPlan.operation (if mode = .plan then .plan else .ci)

lemma translate_named {mode : FailoverPlan.Mode} {p s : String} (some_ : p.toList ≠ [])
    (named : env "CI_JOB_NAME" = some (p ++ s))
    (expected : FailoverPlan.expectedSuffix mode (p ++ s) = s) :
    FailoverPlan.translate mode env =
      .ok (Function.update env "CI_JOB_NAME" (some (p ++ translated mode))) := by
  have name : env.text "CI_JOB_NAME" = p ++ s := by
    rw [Env.text, named]
    rfl
  have ends : endsWith (p ++ s) s = true := endsWith_iff.mpr ⟨p, rfl⟩
  have longer : s.toList.length < (p ++ s).toList.length := by
    have := List.length_pos_iff_ne_nil.mpr some_
    rw [String.toList_append, List.length_append]
    omega
  simp only [FailoverPlan.translate, name, expected, ends, longer, decide_true, Bool.and_self,
    Bool.not_true, Bool.false_eq_true, if_false, dropEnd_append p s rfl, translated]
  cases mode <;> simp only [jobSuffix, reduceCtorEq, if_true, if_false, String.append_assoc]

/-- A job whose name does not end as expected, or only names its suffix, is refused. -/
lemma translate_ok {mode : FailoverPlan.Mode} (accepted : FailoverPlan.translate mode env = .ok env') :
    ∃ p : String, p.toList ≠ [] ∧ env.text "CI_JOB_NAME" =
      p ++ FailoverPlan.expectedSuffix mode (env.text "CI_JOB_NAME") := by
  unfold FailoverPlan.translate at accepted
  dsimp only at accepted
  by_cases refused : (!(endsWith (env.text "CI_JOB_NAME")
      (FailoverPlan.expectedSuffix mode (env.text "CI_JOB_NAME")) &&
    (FailoverPlan.expectedSuffix mode (env.text "CI_JOB_NAME")).toList.length <
      (env.text "CI_JOB_NAME").toList.length)) = true
  · rw [if_pos refused] at accepted
    cases accepted
  simp only [Bool.not_eq_true', Bool.and_eq_false_iff, not_or, Bool.not_eq_false, decide_eq_true_eq]
    at refused
  obtain ⟨p, named⟩ := endsWith_iff.mp refused.1
  refine ⟨p, fun none_ => ?_, named⟩
  have longer := congrArg (fun s => s.toList.length) named
  simp only [String.toList_append, List.length_append, none_, List.length_nil] at longer
  omega

lemma failover_iff {mode : FailoverPlan.Mode} (ci : (env "CI").isSome = true) :
    FailoverPlan.context config inventory environment mode env = .ok c ↔
      ∃ env₁, FailoverPlan.translate mode env = .ok env₁ ∧
        ActivationPlan.context config inventory environment FailoverPlan.operation
          (FailoverPlan.baseMode mode env₁) env₁ = .ok c ∧
        FailoverPlan.validateContext c.json = .ok () := by
  simp only [FailoverPlan.context, ci, if_true, FailoverPlan.bind_ok]
  constructor
  · rintro ⟨env₁, moved, result, accepted, ⟨⟩, valid, ⟨⟩⟩
    exact ⟨env₁, moved, accepted, valid⟩
  · rintro ⟨env₁, moved, accepted, valid⟩
    exact ⟨env₁, moved, c, accepted, (), valid, rfl⟩

lemma expected_recover (p : String) : FailoverPlan.expectedSuffix .recover
    (p ++ Job.failoverRecover.suffix) = Job.failoverRecover.suffix := by
  have other : endsWith (p ++ Job.failoverRecover.suffix) (FailoverPlan.suffix .test) = false := by
    rw [Bool.eq_false_iff]
    intro ends
    obtain ⟨q, same⟩ := endsWith_iff.mp ends
    have last := congrArg (fun s => s.toList.getLast?) same
    simp [Job.suffix, FailoverPlan.suffix, FailoverPlan.Mode.text, FailoverPlan.operation] at last
  rw [FailoverPlan.expectedSuffix, other]
  rfl

lemma expected_restore (p : String) : FailoverPlan.expectedSuffix .recover
    (p ++ Job.failoverRestore.suffix) = Job.failoverRestore.suffix := by
  have ends : endsWith (p ++ Job.failoverRestore.suffix) (FailoverPlan.suffix .test) = true :=
    endsWith_iff.mpr ⟨p, rfl⟩
  rw [FailoverPlan.expectedSuffix, ends]
  rfl

lemma update_same (same : SamePipeline env env') (a b : Option String) :
    SamePipeline (Function.update env "CI_JOB_NAME" a) (Function.update env' "CI_JOB_NAME" b) := by
  intro k shared
  have other : k ≠ "CI_JOB_NAME" := by
    rintro rfl
    revert shared
    decide
  rw [Function.update_of_ne other, Function.update_of_ne other, same k shared]

lemma update_ci (ci : (env "CI").isSome = true) (a : Option String) :
    (Function.update env "CI_JOB_NAME" a "CI").isSome = true := by
  rwa [Function.update_of_ne (by decide)]

/-- An accepted failover job, under the name of an activation job. -/
lemma failover_named {mode : FailoverPlan.Mode} {p s : String} (ci : (env "CI").isSome = true)
    (named : env "CI_JOB_NAME" = some (p ++ s))
    (expected : FailoverPlan.expectedSuffix mode (p ++ s) = s) :
    FailoverPlan.context config inventory environment mode env = .ok c ↔ p.toList ≠ [] ∧
      ActivationPlan.context config inventory environment FailoverPlan.operation
        (if mode = .plan then .plan else .ci)
        (Function.update env "CI_JOB_NAME" (some (p ++ translated mode))) = .ok c ∧
      FailoverPlan.validateContext c.json = .ok () := by
  have base : FailoverPlan.baseMode mode (Function.update env "CI_JOB_NAME"
      (some (p ++ translated mode))) = if mode = .plan then .plan else .ci := by
    rw [FailoverPlan.baseMode, update_ci ci, if_pos rfl]
  rw [failover_iff ci]
  constructor
  · rintro ⟨env₁, moved, accepted, valid⟩
    have some_ : p.toList ≠ [] := by
      obtain ⟨q, some_, name⟩ := translate_ok moved
      rw [Env.text, named, Option.getD_some, expected] at name
      rwa [(String.append_left_inj s).mp name]
    rw [translate_named some_ named expected] at moved
    cases moved
    rw [base] at accepted
    exact ⟨some_, accepted, valid⟩
  · rintro ⟨some_, accepted, valid⟩
    exact ⟨_, translate_named some_ named expected, by rwa [base], valid⟩

/-- The execution job of an accepted failover plan job gets the same context unless its translated
name is too long. -/
lemma failover_pairs {mode : FailoverPlan.Mode} {p s : String} (execution : mode ≠ .plan)
    (ci : (env "CI").isSome = true) (same : SamePipeline env env')
    (named : env "CI_JOB_NAME" = some (p ++ Job.failoverPlan.suffix))
    (named' : env' "CI_JOB_NAME" = some (p ++ s))
    (expected : FailoverPlan.expectedSuffix mode (p ++ s) = s)
    (manual : env' "CI_JOB_MANUAL" = some "true")
    (accepted : FailoverPlan.context config inventory environment .plan env = .ok c) :
    FailoverPlan.context config inventory environment mode env' = .ok c ↔
      (p ++ Job.failoverPlan.suffix).toList.length ≤ 124 := by
  have ci' : ( env' "CI").isSome = true := by rwa [same "CI" (by decide)]
  obtain ⟨some_, planned, valid⟩ := (failover_named ci named rfl).mp accepted
  have pairs := activation_pairs (update_ci ci _) (update_same same _ _)
    (Function.update_self ..) (Function.update_self ..)
    (by rwa [Function.update_of_ne (by decide)]) planned
  rw [failover_named ci' named' expected, if_neg execution]
  simp only [translated, if_neg execution, some_, valid, pairs, ne_eq, not_false_eq_true, true_and, and_true]
  rfl

/-- The plan job in the context of an accepted job. -/
lemma planJob_eq (job : Job) {p : String} (ci : (env "CI").isSome = true)
    (named : env "CI_JOB_NAME" = some (p ++ job.suffix))
    (accepted : job.context config inventory environment env = .ok c) :
    c.planJob = p ++ job.planned.suffix := by
  have activation {m : ActivationPlan.Mode} {env : Env} {op : String} (ci : (env "CI").isSome = true)
      (named : env "CI_JOB_NAME" = some (p ++ jobSuffix op m)) (m_ : m = .plan ∨ m = .ci)
      (accepted : ActivationPlan.context config inventory environment op m env = .ok c) :
      c.planJob = p ++ jobSuffix op .plan := by
    obtain ⟨-, -, -, rfl⟩ := (context_iff ci).mp accepted
    rcases m_ with rfl | rfl
    · simp [gitlab, Env.text, named]
    · exact planJob_ci named
  have failover {mode : FailoverPlan.Mode} {s : String}
      (named : env "CI_JOB_NAME" = some (p ++ s))
      (expected : FailoverPlan.expectedSuffix mode (p ++ s) = s)
      (accepted : FailoverPlan.context config inventory environment mode env = .ok c) :
      c.planJob = p ++ Job.failoverPlan.suffix := by
    obtain ⟨-, accepted, -⟩ := (failover_named ci named expected).mp accepted
    have planned := activation (update_ci ci _) (Function.update_self ..)
      (by by_cases h : mode = .plan <;> simp [h]) accepted
    exact planned
  cases job with
  | plan route =>
    have planned := activation ci (by rwa [jobSuffix_plan]) (.inl rfl) accepted
    rwa [jobSuffix_plan] at planned
  | activate route =>
    have planned := activation ci (by rwa [jobSuffix_ci]) (.inr rfl) accepted
    rwa [jobSuffix_plan] at planned
  | failoverPlan => exact failover named rfl accepted
  | failoverTest => exact failover named rfl accepted
  | failoverRecover => exact failover named (expected_recover p) accepted
  | failoverRestore => exact failover named (expected_restore p) accepted

/-- The names of plan jobs determine their prefixes. -/
lemma planned_cancel {job job' : Job} {p p' : String}
    (same : p ++ job.planned.suffix = p' ++ job'.planned.suffix) : p = p' := by
  have endings := congrArg (fun s => s.toList.reverse.take 8) same
  have whole (j : Job) : j.planned = .plan .haproxy ∨ j.planned = .plan .keepalived ∨
      j.planned = .failoverPlan := by
    cases j with
    | plan route => cases route <;> simp [Job.planned]
    | activate route => cases route <;> simp [Job.planned]
    | _ => simp [Job.planned]
  rcases whole job with h | h | h <;> rcases whole job' with h' | h' | h' <;>
    rw [h, h'] at same endings
  case inl.inl | inr.inl.inr.inl | inr.inr.inr.inr => exact (String.append_left_inj _).mp same
  all_goals simp [Job.suffix, Route.text] at endings

end Contexts

/-- Where a plan job is accepted, the matching execution job of its pipeline is accepted with the
same context if and only if the name of the plan job has at most 124 characters; and no accepted
job with another prefix has that context. -/
theorem jobs_pair_iff {job : Job} {p environment : String} {config inventory : Source}
    {env env' : Env} {c : Context} (executes : job.executes = true) (ci : (env "CI").isSome = true)
    (named : env "CI_JOB_NAME" = some (p ++ job.planned.suffix))
    (accepted : job.planned.context config inventory environment env = .ok c)
    (same : SamePipeline env env') (named' : env' "CI_JOB_NAME" = some (p ++ job.suffix))
    (manual : env' "CI_JOB_MANUAL" = some "true") :
    (job.context config inventory environment env' = .ok c ↔
      (p ++ job.planned.suffix).toList.length ≤ 124) ∧
    ∀ (other : Job) (q environment' : String) (config' inventory' : Source) (env'' : Env),
      ( env'' "CI").isSome = true → env'' "CI_JOB_NAME" = some (q ++ other.suffix) →
      other.context config' inventory' environment' env'' = .ok c → q = p := by
  refine ⟨?_, fun other q environment' config' inventory' env'' ci'' named'' accepted'' => ?_⟩
  · cases job with
    | activate route =>
      have named : env "CI_JOB_NAME" = some (p ++ jobSuffix route.text .plan) := by
        rwa [jobSuffix_plan]
      have pairs := activation_pairs ci same named (by rwa [jobSuffix_ci]) manual accepted
      rwa [jobSuffix_plan] at pairs
    | failoverTest => exact failover_pairs (by decide) ci same named named' rfl manual accepted
    | failoverRecover =>
      exact failover_pairs (by decide) ci same named named' (expected_recover p) manual accepted
    | failoverRestore =>
      exact failover_pairs (by decide) ci same named named' (expected_restore p) manual accepted
    | plan route => cases executes
    | failoverPlan => cases executes
  · have planned : (job.planned).planned = job.planned := by cases job <;> rfl
    have here := planJob_eq job.planned ci named accepted
    rw [planned] at here
    exact planned_cancel ((planJob_eq other ci'' named'' accepted'').symm.trans here)

def sampleSha : String := "0123456789abcdef0123456789abcdef01234567"

def sampleSource : Source := ⟨sampleSha, "inventories/dev", by decide +kernel⟩

/-- A job of a protected web pipeline. -/
def sampleEnv (name : String) : Env := fun variable_ =>
  [("CI", "true"), ("CI_PIPELINE_SOURCE", "web"), ("CI_COMMIT_REF_PROTECTED", "true"),
    ("CI_DEFAULT_BRANCH", "main"), ("CI_COMMIT_BRANCH", "main"), ("CI_COMMIT_SHA", sampleSha),
    ("CI_PROJECT_ID", "12"), ("CI_PIPELINE_ID", "34"),
    ("CI_JOB_IMAGE", "tool@sha256:" ++ String.ofList (List.replicate 64 'd')),
    ("CI_JOB_MANUAL", "true"), ("CI_JOB_NAME", name)].lookup variable_

lemma sample_same (name name' : String) : SamePipeline (sampleEnv name) (sampleEnv name') := by
  intro k shared
  fin_cases shared <;> rfl

/-- The context of a sample plan job. -/
def sampleContext (name : String) : Context :=
  gitlab sampleSource sampleSource "dev" (sampleEnv name) name

theorem jobs_pair_fixture : Job.failoverTest.context sampleSource sampleSource "dev"
    (sampleEnv ("fixture" ++ Job.failoverTest.suffix)) =
      .ok (sampleContext ("fixture" ++ Job.failoverPlan.suffix)) :=
  (jobs_pair_iff (p := "fixture") rfl rfl rfl (by decide +kernel) (sample_same _ _) rfl rfl).1.mpr
    (by decide)

/-- A prefix with which the manual job of the activation has a name that is too long. -/
def longPrefix : String := String.ofList (List.replicate 115 'a')

/-- A plan job with a name of 128 characters has no manual job. -/
theorem long_prefix_refused : ¬∀ (job : Job) (p environment : String) (config inventory : Source)
    (env env' : Env) (c : Context), job.executes = true → (env "CI").isSome = true →
    env "CI_JOB_NAME" = some (p ++ job.planned.suffix) →
    job.planned.context config inventory environment env = .ok c →
    SamePipeline env env' → env' "CI_JOB_NAME" = some (p ++ job.suffix) →
    env' "CI_JOB_MANUAL" = some "true" →
    job.context config inventory environment env' = .ok c := by
  intro pairs
  have accepted := pairs (.activate .haproxy) longPrefix "dev" sampleSource sampleSource
    (sampleEnv (longPrefix ++ (Job.plan .haproxy).suffix))
    (sampleEnv (longPrefix ++ (Job.activate .haproxy).suffix))
    (sampleContext (longPrefix ++ (Job.plan .haproxy).suffix)) rfl rfl rfl (by decide +kernel)
    (sample_same _ _) rfl rfl
  revert accepted
  decide +kernel

end PlatformConfig.PlanJobs
