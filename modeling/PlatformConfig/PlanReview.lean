import PlatformConfig.FailoverPlan

/-!
# What a reviewed plan authorizes

The validations accept a well-formed plan exactly for the inputs that were reviewed: canonical
texts are equal for equal values only, so every comparison of texts compares values.
-/
namespace PlatformConfig.PlanReview

open CanonicalJson GuardPlan ActivationPlan FailoverPlan

variable {sha256 : List Char → String} {plan hosts context owner evidence : Json} {now : ℤ}

/-- The digest of a plan is that of its other fields. -/
def Sealed (sha256 : List Char → String) (plan : Json) : Prop :=
  plan.get? "digest" = some (.str (digest sha256 plan))

/-- The clock lies in the half hour after the creation. -/
def Current (plan : Json) (now : ℤ) : Prop :=
  ∃ created, plan.get? "created" = some (.int created) ∧ created ≤ now ∧ now < created + 1800

/-- The schema of an activation plan. -/
structure ActivationShape (plan : Json) : Prop where
  keys : plan.keys? = some ActivationPlan.keys
  schema : plan.get? "schema" = some (.int 1)
  planId : ∃ s, plan.get? "plan_id" = some (.str s) ∧ matchesHex 32 s = true
  times : ∃ created, plan.get? "created" = some (.int created) ∧
    plan.get? "expires" = some (.int (created + 1800))

/-- The schema of a failover plan, with its size limit. -/
structure FailoverShape (plan : Json) : Prop where
  keys : plan.keys? = some FailoverPlan.keys
  schema : plan.get? "schema" = some (.int 1)
  operation : plan.get? "operation" = some (.str "haproxy-failover")
  service : plan.get? "service" = some (.str "haproxy.service")
  planId : ∃ s, plan.get? "plan_id" = some (.str s) ∧ matchesHex 32 s = true
  nonce : ∃ s, plan.get? "nonce" = some (.str s) ∧ matchesHex 32 s = true
  times : ∃ created, 0 ≤ created ∧ plan.get? "created" = some (.int created) ∧
    plan.get? "expires" = some (.int (created + 1800))
  hosts : validHosts plan = true
  evidence : ∃ e, plan.get? "evidence" = some e ∧ Json.nonemptyObject e = true
  context : ∃ c, plan.get? "context" = some c ∧ validateContext c = .ok ()
  fits : (canonical plan).length ≤ maxBytes

section Fields

lemma hasStr_iff {j : Json} {key : String} {p : String → Bool} :
    hasStr j key p = true ↔ ∃ s, j.get? key = some (.str s) ∧ p s = true := by
  rw [hasStr]
  cases j.get? key with
  | none => simp
  | some v => cases v <;> simp [Json.str?]

lemma get_int_iff {j : Json} {key : String} {n : ℤ} :
    (j.get? key).bind Json.int? = some n ↔ j.get? key = some (.int n) := by
  cases j.get? key with
  | none => simp
  | some v => cases v <;> simp [Json.int?]

/-- Equal texts come from equal values. -/
lemma sameText_iff {j v : Json} {key : String} : sameText j key v = true ↔ j.get? key = some v := by
  rw [sameText, decide_eq_true_eq, Option.map_eq_some_iff]
  constructor
  · rintro ⟨w, found, same⟩
    rwa [canonical_injective same] at found
  · exact fun found => ⟨v, found, rfl⟩

lemma times_iff {p : ℤ → ℤ → Bool} :
    times plan p = true ↔ ∃ created expires, plan.get? "created" = some (.int created) ∧
      plan.get? "expires" = some (.int expires) ∧ p created expires = true := by
  simp only [times, Option.any_eq_true, get_int_iff]
  tauto

lemma inWindow_iff : inWindow plan now = true ↔ ∃ created, plan.get? "created" = some (.int created) ∧
    plan.get? "expires" = some (.int (created + 1800)) ∧ created ≤ now ∧ now < created + 1800 := by
  simp only [inWindow, times_iff, Bool.and_eq_true, decide_eq_true_eq]
  constructor
  · rintro ⟨created, expires, found, found', ⟨whole, past⟩, future⟩
    obtain rfl : expires = created + 1800 := eq_add_of_sub_eq' whole
    exact ⟨created, found, found', past, future⟩
  · rintro ⟨created, found, found', past, future⟩
    exact ⟨created, _, found, found', ⟨add_sub_cancel_left created 1800, past⟩, future⟩

lemma validTimes_iff : (times plan fun created expires => 0 ≤ created && expires - created = ttl) = true ↔
    ∃ created, 0 ≤ created ∧ plan.get? "created" = some (.int created) ∧
      plan.get? "expires" = some (.int (created + 1800)) := by
  simp only [times_iff, Bool.and_eq_true, decide_eq_true_eq]
  constructor
  · rintro ⟨created, expires, found, found', natural, whole⟩
    obtain rfl : expires = created + 1800 := eq_add_of_sub_eq' whole
    exact ⟨created, natural, found, found'⟩
  · rintro ⟨created, natural, found, found'⟩
    exact ⟨created, _, found, found', natural, add_sub_cancel_left created 1800⟩

end Fields

/-- The activation accepts a plan for exactly what was reviewed. -/
lemma activation_iff {operation : String} {p : Json} :
    ActivationPlan.validate sha256 plan operation hosts context evidence now = .ok p ↔
      p = plan ∧ ActivationShape plan ∧ Sealed sha256 plan ∧
      plan.get? "operation" = some (.str operation) ∧ plan.get? "hosts" = some hosts ∧
      plan.get? "context" = some context ∧ plan.get? "evidence" = some evidence ∧
      Current plan now := by
  simp only [ActivationPlan.validate, checked_ok, Bool.and_eq_true, decide_eq_true_eq, get_int_iff,
    hasStr_iff, exists_eq_right, sameText_iff, inWindow_iff, Except.ok.injEq]
  constructor
  · rintro ⟨⟨keys, schema⟩, ⟨⟨operation_, planId⟩, created, found, found', past, future⟩,
      ⟨⟨⟨sealed, hosts_⟩, context_⟩, evidence_⟩, rfl⟩
    exact ⟨rfl, ⟨keys, schema, planId, created, found, found'⟩, sealed, operation_, hosts_, context_,
      evidence_, created, found, past, future⟩
  · rintro ⟨rfl, shape, sealed, operation_, hosts_, context_, evidence_, created, found, past, future⟩
    obtain ⟨created', again, found'⟩ := shape.times
    obtain rfl : created' = created := by simpa [found] using again.symm
    exact ⟨⟨shape.keys, shape.schema⟩, ⟨⟨operation_, shape.planId⟩, created', found, found', past, future⟩,
      ⟨⟨⟨sealed, hosts_⟩, context_⟩, evidence_⟩, rfl⟩

/-- The shape check of the failover, with the digest. -/
lemma validateShape_iff {p : Json} : validateShape sha256 plan = .ok p ↔
    p = plan ∧ FailoverShape plan ∧ Sealed sha256 plan := by
  simp only [validateShape, checked_ok, bind_ok, Bool.and_eq_true, decide_eq_true_eq, get_int_iff,
    hasStr_iff, exists_eq_right, validTimes_iff, Except.ok.injEq, Option.any_eq_true]
  constructor
  · rintro ⟨⟨⟨⟨⟨⟨⟨keys, schema⟩, operation_⟩, service⟩, planId⟩, nonce⟩, times⟩, ⟨hosts_, evidence_⟩, ⟨⟩,
      context_, ⟨fits, sealed⟩, rfl⟩
    refine ⟨rfl, ⟨keys, schema, operation_, service, planId, nonce, times, hosts_, evidence_, ?_, fits⟩, sealed⟩
    cases found : plan.get? "context" with
    | none =>
      rw [found] at context_
      cases context_
    | some c =>
      rw [found] at context_
      exact ⟨c, rfl, context_⟩
  · rintro ⟨rfl, shape, sealed⟩
    obtain ⟨c, found, valid⟩ := shape.context
    exact ⟨⟨⟨⟨⟨⟨⟨shape.keys, shape.schema⟩, shape.operation⟩, shape.service⟩, shape.planId⟩, shape.nonce⟩,
      shape.times⟩, ⟨shape.hosts, shape.evidence⟩, (), by rw [found]; exact valid, ⟨shape.fits, sealed⟩, rfl⟩

lemma checkIdentity_iff {original current p : Json} :
    checkIdentity plan hosts original current = .ok p ↔
      p = plan ∧ plan.get? "hosts" = some hosts ∧ current = original := by
  have agrees : (sameText plan "hosts" hosts && canonical current = canonical original) = true ↔
      plan.get? "hosts" = some hosts ∧ current = original := by
    rw [Bool.and_eq_true, sameText_iff, decide_eq_true_eq, canonical_injective.eq_iff]
  unfold checkIdentity
  split
  · next same =>
    rw [and_iff_left (agrees.mp same), Except.ok.injEq, eq_comm]
  · next other =>
    constructor
    · rintro ⟨⟩
    · exact fun same => absurd (agrees.mpr same.2) other

lemma checkClock_iff (shape : FailoverShape plan) : checkClock plan now = .ok () ↔ Current plan now := by
  simp only [checkClock, checked_ok, times_iff, Bool.and_eq_true, decide_eq_true_eq, and_true]
  obtain ⟨created, -, found, found'⟩ := shape.times
  constructor
  · rintro ⟨created', expires, again, again', past, future⟩
    obtain rfl : created' = created := by simpa [found] using again.symm
    obtain rfl : expires = created' + 1800 := by simpa [found'] using again'.symm
    exact ⟨created', again, past, future⟩
  · rintro ⟨created', again, past, future⟩
    obtain rfl : created' = created := by simpa [found] using again.symm
    exact ⟨created', _, found, found', past, future⟩

/-- A fresh test accepts a plan for exactly what was reviewed. -/
lemma test_iff {p : Json} :
    FailoverPlan.validate sha256 plan .test hosts context owner evidence now = .ok p ↔
      p = plan ∧ FailoverShape plan ∧ Sealed sha256 plan ∧ plan.get? "hosts" = some hosts ∧
      plan.get? "context" = some context ∧ plan.get? "owner" = some owner ∧
      plan.get? "evidence" = some evidence ∧ Current plan now := by
  simp only [FailoverPlan.validate, validateTest, bind_ok, validateShape_iff, checked_ok, sameText_iff,
    checkIdentity_iff]
  constructor
  · rintro ⟨_, ⟨rfl, shape, sealed⟩, ⟨⟩, -, ⟨⟩, clock, owner_, evidence_, rfl, hosts_, context_⟩
    obtain ⟨c, found, -⟩ := shape.context
    rw [found, Option.getD_some] at context_
    exact ⟨rfl, shape, sealed, hosts_, context_ ▸ found, owner_, evidence_, (checkClock_iff shape).mp clock⟩
  · rintro ⟨rfl, shape, sealed, hosts_, context_, owner_, evidence_, clock⟩
    obtain ⟨c, found, valid⟩ := shape.context
    obtain rfl : c = context := by simpa [found] using context_
    exact ⟨p, ⟨rfl, shape, sealed⟩, (), valid, (), (checkClock_iff shape).mpr clock, owner_, evidence_, rfl,
      hosts_, by rw [found]; rfl⟩

/-- A recovery differs by the pipeline, the owner, the evidence and the clock. -/
lemma recover_iff {p : Json} :
    FailoverPlan.validate sha256 plan .recover hosts context owner evidence now = .ok p ↔
      p = plan ∧ FailoverShape plan ∧ Sealed sha256 plan ∧ plan.get? "hosts" = some hosts ∧
      validateContext context = .ok () ∧ ∃ original, plan.get? "context" = some original ∧
        without "pipeline" context = without "pipeline" original := by
  simp only [FailoverPlan.validate, bind_ok, validateShape_iff, checkIdentity_iff]
  constructor
  · rintro ⟨_, ⟨rfl, shape, sealed⟩, ⟨⟩, valid, rfl, hosts_, same⟩
    obtain ⟨c, found, -⟩ := shape.context
    rw [found, Option.getD_some] at same
    exact ⟨rfl, shape, sealed, hosts_, valid, c, found, same⟩
  · rintro ⟨rfl, shape, sealed, hosts_, valid, original, found, same⟩
    exact ⟨p, ⟨rfl, shape, sealed⟩, (), valid, rfl, hosts_, by rw [found]; exact same⟩

/-- A plan that has its schema is accepted exactly if its digest is that of its fields, these equal
the current inputs as JSON values, and the clock lies in its half hour; a recovery does not
compare pipeline, owner and evidence and ignores the clock. -/
theorem plan_review_exact (sha256 : List Char → String) (plan : Json) :
    (∀ operation hosts context evidence now,
      ActivationPlan.validate sha256 plan operation hosts context evidence now = .ok plan ↔
        ActivationShape plan ∧ Sealed sha256 plan ∧ plan.get? "operation" = some (.str operation) ∧
        plan.get? "hosts" = some hosts ∧ plan.get? "context" = some context ∧
        plan.get? "evidence" = some evidence ∧ Current plan now) ∧
    (∀ hosts context owner evidence now,
      FailoverPlan.validate sha256 plan .test hosts context owner evidence now = .ok plan ↔
        FailoverShape plan ∧ Sealed sha256 plan ∧ plan.get? "hosts" = some hosts ∧
        plan.get? "context" = some context ∧ plan.get? "owner" = some owner ∧
        plan.get? "evidence" = some evidence ∧ Current plan now) ∧
    (∀ hosts context owner evidence now,
      FailoverPlan.validate sha256 plan .recover hosts context owner evidence now = .ok plan ↔
        FailoverShape plan ∧ Sealed sha256 plan ∧ plan.get? "hosts" = some hosts ∧
        validateContext context = .ok () ∧ ∃ original, plan.get? "context" = some original ∧
          without "pipeline" context = without "pipeline" original) ∧
    (∀ operation hosts context evidence now p,
      ActivationPlan.validate sha256 plan operation hosts context evidence now = .ok p → p = plan) ∧
    (∀ mode hosts context owner evidence now p,
      FailoverPlan.validate sha256 plan mode hosts context owner evidence now = .ok p → p = plan) := by
  refine ⟨fun operation hosts context evidence now => ?_, fun hosts context owner evidence now => ?_,
    fun hosts context owner evidence now => ?_, fun operation hosts context evidence now p ok => ?_,
    fun mode hosts context owner evidence now p ok => ?_⟩
  · rw [activation_iff, eq_self_iff_true, true_and]
  · rw [test_iff, eq_self_iff_true, true_and]
  · rw [recover_iff, eq_self_iff_true, true_and]
  · exact (activation_iff.mp ok).1
  · cases mode with
    | test => exact (test_iff.mp ok).1
    | recover => exact (recover_iff.mp ok).1

/-- The fields of a sample plan besides its digest. -/
def sampleBody (schema : ℤ) : Json := .obj [("context", .obj []), ("created", .int 0),
  ("evidence", .obj [("active", .bool true)]), ("expires", .int 1800),
  ("hosts", .arr [.str "bao-1", .str "bao-2", .str "bao-3"]), ("operation", .str "haproxy"),
  ("plan_id", .str "0123456789abcdef0123456789abcdef"), ("schema", .int schema)]

/-- A sample plan under a digest function that is injective. -/
def samplePlan (schema : ℤ) : Json := .obj [("context", .obj []), ("created", .int 0),
  ("digest", .str (String.ofList (canonical (sampleBody schema)))),
  ("evidence", .obj [("active", .bool true)]), ("expires", .int 1800),
  ("hosts", .arr [.str "bao-1", .str "bao-2", .str "bao-3"]), ("operation", .str "haproxy"),
  ("plan_id", .str "0123456789abcdef0123456789abcdef"), ("schema", .int schema)]

/-- A plan of another schema is refused although its digest and all its fields agree. -/
theorem other_schema_refused : ¬∀ (sha256 : List Char → String), Function.Injective sha256 →
    ∀ (plan : Json) (operation : String) (hosts context evidence : Json) (now : ℤ),
      (∃ p, ActivationPlan.validate sha256 plan operation hosts context evidence now = .ok p) ↔
        Sealed sha256 plan ∧ plan.get? "operation" = some (.str operation) ∧
        plan.get? "hosts" = some hosts ∧ plan.get? "context" = some context ∧
        plan.get? "evidence" = some evidence ∧ Current plan now := by
  intro exact_
  have injective : Function.Injective String.ofList := fun a b same => by
    simpa using congrArg String.toList same
  obtain ⟨p, accepted⟩ := (exact_ String.ofList injective (samplePlan 2) "haproxy"
    (.arr [.str "bao-1", .str "bao-2", .str "bao-3"]) (.obj []) (.obj [("active", .bool true)]) 5).mpr
    ⟨rfl, rfl, rfl, rfl, rfl, 0, rfl, by decide, by decide⟩
  have schema := (activation_iff.mp accepted).2.1.schema
  cases schema

end PlatformConfig.PlanReview
