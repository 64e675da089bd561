import PlatformConfig.FailoverGuard
import PlatformConfig.JsonText
import PlatformConfig.PlanReview

/-!
# A failover plan from the controller to the targets

The controller prepares a plan and writes its canonical text; a later run reads it back, and the
playbook sends it to each target with blanks behind the separators. The records and responses built
from a plan fit their limit; a request fits its own unless the blanks are too many.
-/
namespace PlatformConfig.PlanChain

open CanonicalJson JsonText GuardPlan GuardStore FailoverGuard ActivationPlan FailoverPlan PlanReview

/-- `uuid4().hex` -/
abbrev Uuid := {s : String // matchesHex 32 s = true}

/-- A JSON value of the controller. -/
abbrev Value (float : List Char → Option FloatText) := {j : Json // WellFormed float j}

/-- A fresh plan without its digest. -/
def unsealed (planId nonce : Uuid) (now : ℤ) (hosts context owner evidence : Json) : Json :=
  .obj [("context", context), ("created", .int now), ("evidence", evidence),
    ("expires", .int (now + ttl)), ("hosts", hosts), ("nonce", .str nonce),
    ("operation", .str operation), ("owner", owner), ("plan_id", .str planId), ("schema", .int 1),
    ("service", .str "haproxy.service")]

variable (sha256 : List Char → String)

def freshPlan (planId nonce : Uuid) (now : ℤ) (hosts context owner evidence : Json) : Json :=
  .obj [("context", context), ("created", .int now),
    ("digest", .str (sha256 (canonical (unsealed planId nonce now hosts context owner evidence)))),
    ("evidence", evidence), ("expires", .int (now + ttl)), ("hosts", hosts), ("nonce", .str nonce),
    ("operation", .str operation), ("owner", owner), ("plan_id", .str planId), ("schema", .int 1),
    ("service", .str "haproxy.service")]

/-- `write_plan` where the place is safe. -/
def writePlan (plan : Json) : Except String (List Char) :=
  let data := canonical plan ++ ['\n']
  if maxBytes < data.length then .error "Plan exceeds size limit" else .ok data

/-- `read_plan` of a private file. -/
def readPlan (float : List Char → Option FloatText) (data : List Char) : Option Json :=
  if maxBytes < data.length then none else loads float data

/-- `prepare` in plan mode: the plan and its file. -/
def prepare (planId nonce : Uuid) (now : ℤ) (hosts context owner evidence : Json) :
    Except String (Json × List Char) := do
  let plan ← validateShape sha256 (freshPlan sha256 planId nonce now hosts context owner evidence)
  let data ← writePlan plan
  return (plan, data)

/-- The field by which a finish confirms the smoke test. -/
def smokeField (action : Action) : List (String × Json) :=
  if action = .update .finish then [("smoke_verified", .bool true)] else []

/-- The standard input of a request: the text of `to_json`, and the newline that the command module
adds. -/
def requestInput (action : Action) (host nonce : String) (plan : Json) : List Char :=
  dumps [' '] (.obj ([("host", .str host), ("plan", plan), ("nonce", .str nonce)] ++
    smokeField action)) ++ ['\n']

def responseJson (r : Response) : Json := .obj [("changed", .bool r.changed),
  ("record", r.record.elim .null Record.json), ("restore_authorized", .bool r.restoreAuthorized),
  ("status", .str (r.status.elim "absent" Phase.text)), ("stop_authorized", .bool r.stopAuthorized)]

section Sizes
variable {sha256} {plan : Json} {host nonce : String}

lemma quote_host (named : matchesHost host = true) :
    (quote host).length = host.toList.length + 2 :=
  quote_length fun c mem => isNameChar_plain ((matchesHost_iff named).2 c mem)

lemma quote_nonce (hex : matchesHex 32 nonce = true) : (quote nonce).length = 34 := by
  simp only [matchesHex, Bool.and_eq_true, decide_eq_true_eq] at hex
  rw [quote_length fun c mem =>
    isNameChar_plain (isLowerHex_nameChar (List.all_eq_true.mp hex.2 c mem)), hex.1]

/-- A request is as long as the canonical plan with a blank for each separator, and its envelope. -/
lemma requestInput_length (action : Action) (named : matchesHost host = true)
    (hex : matchesHex 32 nonce = true) : (requestInput action host nonce plan).length =
      (canonical plan).length + separators plan + host.toList.length +
        (if action = .update .finish then 92 else 68) := by
  have keys : (quote "host").length = 6 ∧ (quote "plan").length = 6 ∧ (quote "nonce").length = 7 ∧
    (quote "smoke_verified").length = 16 ∧ (canonical (.bool true)).length = 4 := by decide
  obtain ⟨host_, plan_, nonce_, smoke, true_⟩ := keys
  have name := quote_host named
  have invocation := quote_nonce hex
  rw [requestInput, List.length_append, dumps_length, smokeField]
  split_ifs <;>
    simp only [List.cons_append, List.nil_append, List.append_nil, canonical_obj_length, fields_length,
      List.map_cons, List.map_nil, List.sum_cons, List.sum_nil, separators, fieldSeparators,
      canonical_str, List.length_singleton, host_, plan_, nonce_, smoke, true_, name, invocation] <;>
    omega

/-- What a record adds to its plan. -/
lemma record_envelope {r : Record} {p : Plan} (h : record sha256 r = some p) :
    (canonical r.json).length ≤ (canonical r.plan).length + 400 := by
  obtain ⟨hplan, hnonce, hhost, -⟩ := record_iff.mp h
  have nonce : (quote r.nonce).length = 34 := hnonce ▸ nonce_length p
  have host := host_length hhost
  have phase : (quote r.phase.text).length ≤ 17 := by cases r.phase <;> decide
  have outcome : (quote r.outcome.text).length ≤ 9 := by cases r.outcome <;> decide
  have keys : (quote "host").length + (quote "nonce").length + (quote "outcome").length +
    (quote "phase").length + (quote "plan").length + (quote "schema").length = 43 := by decide
  have schema : (canonical (.int 1)).length = 1 := by decide
  rw [Record.json, canonical_obj_length]
  simp only [fields_length, List.map_cons, List.map_nil, List.sum_cons, List.sum_nil,
    canonical_str]
  omega

lemma response_fits {r : Record} {p : Plan} (h : record sha256 r = some p)
    (changed stop restore : Bool) :
    (canonical (responseJson (result r changed stop restore))).length ≤ recordBytes := by
  have flag (b : Bool) : (canonical (.bool b)).length ≤ 5 := by cases b <;> decide
  have changed_ := flag changed
  have stop_ := flag stop
  have restore_ := flag restore
  have status : (quote r.phase.text).length ≤ 17 := by cases r.phase <;> decide
  have keys : (quote "changed").length + (quote "record").length +
    (quote "restore_authorized").length + (quote "status").length +
    (quote "stop_authorized").length = 62 := by decide +kernel
  have record_ := record_envelope h
  have fits : (canonical r.plan).length ≤ maxBytes := by
    have fits := p.fits
    rwa [validatePlan_value (record_iff.mp h).1] at fits
  have envelope : (canonical (responseJson (result r changed stop restore))).length ≤
      (canonical r.json).length + 120 := by
    rw [responseJson, canonical_obj_length]
    simp only [result, Option.elim_some, fields_length, List.map_cons, List.map_nil, List.sum_cons,
      List.sum_nil, canonical_str]
    omega
  unfold recordBytes
  omega

end Sizes

section Copies
variable {sha256} {plan : Json}

/-- The controller and the target accept the same contexts. -/
lemma validateContext_iff {c : Json} : validateContext c = .ok () ↔ validContext c = true := by
  have same : FailoverPlan.contextKeys = GuardPlan.contextKeys := rfl
  simp only [validateContext, checked_ok, validContext, validLane, Bool.and_eq_true, decide_eq_true_eq,
    laneFields, same, and_assoc]
  refine and_congr_right fun _ => and_congr_right fun _ => and_congr_right fun _ =>
    and_congr_right fun _ => and_congr_right fun _ => ?_
  cases operator : hasStr c "lane" (· = "operator") with
  | true =>
    rw [if_pos rfl, if_pos rfl]
    split
    · next bare => exact iff_of_true rfl bare
    · next other => exact iff_of_false (by simp) other
  | false =>
    rw [if_neg Bool.false_ne_true, if_neg Bool.false_ne_true]
    cases gitlab_ : hasStr c "lane" (· = "gitlab") with
    | true =>
      rw [if_pos rfl, Bool.true_and]
      split
      · next valid => exact iff_of_true rfl (by simpa [and_assoc] using valid)
      · next other => exact iff_of_false (by simp) (by simpa [and_assoc] using other)
    | false =>
      rw [if_neg Bool.false_ne_true]
      exact iff_of_false (by simp) (by simp)

lemma validHosts_iff : validHosts plan = true ↔ ∃ hosts owner,
    (plan.get? "hosts").bind Json.strings? = some hosts ∧ plan.get? "owner" = some (.str owner) ∧
      hosts.length = 3 ∧ hosts.all matchesHost = true ∧ hosts.Nodup ∧
      hosts.insertionSort (· ≤ ·) = hosts ∧ owner ∈ hosts := by
  rw [validHosts]
  cases (plan.get? "hosts").bind Json.strings? with
  | none => simp
  | some hosts =>
    simp only [Bool.and_eq_true, decide_eq_true_eq, hasStr_iff, List.contains_iff_mem,
      Option.some.injEq]
    constructor
    · rintro ⟨⟨⟨⟨three, named⟩, distinct⟩, sorted⟩, owner, found, owned⟩
      exact ⟨hosts, owner, rfl, found, three, named, distinct, sorted, owned⟩
    · rintro ⟨hosts, owner, rfl, found, three, named, distinct, sorted, owned⟩
      exact ⟨⟨⟨⟨three, named⟩, distinct⟩, sorted⟩, owner, found, owned⟩

/-- The checks of a plan that the target reads again in no later step, in the controller's words. -/
lemma validSeal_iff : validSeal sha256 plan = true ↔ plan.keys? = some planKeys ∧
    plan.get? "schema" = some (.int 1) ∧ plan.get? "operation" = some (.str "haproxy-failover") ∧
    plan.get? "service" = some (.str "haproxy.service") ∧
    (∃ e, plan.get? "evidence" = some e ∧ Json.nonemptyObject e = true) ∧
    (∃ c, plan.get? "context" = some c ∧ validateContext c = .ok ()) ∧ Sealed sha256 plan := by
  simp only [validSeal, Bool.and_eq_true, decide_eq_true_eq, get_int_iff, hasStr_iff, exists_eq_right,
    Option.any_eq_true, validateContext_iff, Sealed, digest, and_assoc]

lemma str?_iff {v : Json} {s : String} : v.str? = some s ↔ v = .str s := by
  cases v <;> simp [Json.str?]

lemma int?_iff {v : Json} {n : ℤ} : v.int? = some n ↔ v = .int n := by
  cases v <;> simp [Json.int?]

/-- The controller and the target accept the same plans. -/
theorem copies_agree : (validatePlan sha256 plan).isSome = true ↔ validateShape sha256 plan = .ok plan := by
  rw [validateShape_iff, eq_self_iff_true, true_and]
  simp only [Option.isSome_iff_exists, validatePlan, Option.bind_eq_bind, Option.bind_eq_some_iff,
    str?_iff, int?_iff, exists_eq_right]
  constructor
  · rintro ⟨p, planId, foundId, nonce, foundNonce, created, foundCreated, expires, foundExpires, hosts,
      foundHosts, owner, foundOwner, accepted⟩
    obtain ⟨⟨unread, hexId, hexNonce, ⟨natural, whole⟩, three, named, distinct, sorted, owned, fits⟩, -⟩ :=
      Option.dite_none_right_eq_some.mp accepted
    obtain ⟨keys, schema, operation_, service, evidence, context, sealed⟩ := validSeal_iff.mp unread
    obtain rfl : expires = created + 1800 := eq_add_of_sub_eq' whole
    have hosts_ := validHosts_iff.mpr ⟨hosts, owner, Option.bind_eq_some_iff.mpr foundHosts, foundOwner, three, named, distinct,
      sorted, owned⟩
    exact ⟨⟨keys, schema, operation_, service, ⟨planId, foundId, hexId⟩, ⟨nonce, foundNonce, hexNonce⟩,
      ⟨created, natural, foundCreated, foundExpires⟩, hosts_, evidence, context, fits⟩, sealed⟩
  · rintro ⟨shape, sealed⟩
    obtain ⟨planId, foundId, hexId⟩ := shape.planId
    obtain ⟨nonce, foundNonce, hexNonce⟩ := shape.nonce
    obtain ⟨created, natural, foundCreated, foundExpires⟩ := shape.times
    obtain ⟨hosts, owner, listed, foundOwner, three, named, distinct, sorted, owned⟩ :=
      validHosts_iff.mp shape.hosts
    have unread := validSeal_iff.mpr ⟨shape.keys, shape.schema, shape.operation, shape.service,
      shape.evidence, shape.context, sealed⟩
    exact ⟨_, planId, foundId, nonce, foundNonce, created, foundCreated, created + 1800, foundExpires,
      hosts, Option.bind_eq_some_iff.mp listed, owner, foundOwner, dif_pos ⟨unread, hexId, hexNonce,
        ⟨natural, add_sub_cancel_left created 1800⟩, three, named, distinct, sorted, owned, shape.fits⟩⟩

end Copies

section Chain
variable {sha256} {float : List Char → Option FloatText} {planId nonce : Uuid} {now : ℤ}

/-- What `prepare` returns has the schema, and room for the newline of its file. -/
lemma prepare_iff {hosts context owner evidence plan : Json} {data : List Char} :
    prepare sha256 planId nonce now hosts context owner evidence = .ok (plan, data) ↔
      plan = freshPlan sha256 planId nonce now hosts context owner evidence ∧ FailoverShape plan ∧
        data = canonical plan ++ ['\n'] ∧ data.length ≤ maxBytes := by
  have seal_ : Sealed sha256 (freshPlan sha256 planId nonce now hosts context owner evidence) := rfl
  simp only [prepare, bind_ok, validateShape_iff, writePlan]
  constructor
  · rintro ⟨_, ⟨rfl, shape, -⟩, written, fits, returned⟩
    split at fits
    · cases fits
    · next room =>
      cases fits
      cases returned
      exact ⟨rfl, shape, rfl, not_lt.mp room⟩
  · rintro ⟨rfl, shape, rfl, room⟩
    exact ⟨_, ⟨rfl, shape, seal_⟩, _, if_neg (not_lt.mpr room), rfl⟩

/-- A fresh plan is a value as a reader holds it. -/
lemma freshPlan_wellFormed (hosts context owner evidence : Value float) :
    WellFormed float (freshPlan sha256 planId nonce now hosts.1 context.1 owner.1 evidence.1) := by
  have ordered : FailoverPlan.keys.Pairwise (· < ·) := by decide +kernel
  refine ⟨ordered, ?_⟩
  simp only [FieldsWellFormed, WellFormed, hosts.2, context.2, owner.2, evidence.2, and_self]

/-- What the claim of the whole chain says of a plan and its file. -/
structure Survives (sha256 : List Char → String) (float : List Char → Option FloatText) (now : ℤ)
    (hosts context owner evidence plan : Json) (nonce : String) (data : List Char) : Prop where
  reread : readPlan float data = some plan
  verified : ∀ clock, now ≤ clock → clock < now + ttl →
    FailoverPlan.validate sha256 plan .test hosts context owner evidence clock = .ok plan
  accepted : (validatePlan sha256 plan).isSome = true
  requests : ∀ (action : Action) (names : List String) (host : String), action ≠ .inspect →
    Json.strings? hosts = some names → host ∈ names →
      (requestInput action host nonce plan).length ≤ recordBytes
  records : ∀ (r : Record) (p : Plan), r.plan = plan → record sha256 r = some p →
    (canonical r.json).length ≤ recordBytes ∧ ∀ changed stop restore : Bool,
      (canonical (responseJson (result r changed stop restore))).length ≤ recordBytes

/-- The longest request for each host fits the input limit. -/
def Room (hosts plan : Json) : Prop :=
  ∀ (names : List String) (host : String), Json.strings? hosts = some names → host ∈ names →
    (canonical plan).length + separators plan + host.toList.length + 92 ≤ recordBytes

/-- A prepared plan survives the chain exactly if its text, spaced as in a request, leaves room for
the envelope: the blanks are the only difference that no limit allows for. -/
theorem plan_chain_iff (sha256 : List Char → String) (float : List Char → Option FloatText)
    (planId nonce : Uuid) (now : ℤ) (hosts context owner evidence : Value float) (plan : Json)
    (data : List Char)
    (h : prepare sha256 planId nonce now hosts.1 context.1 owner.1 evidence.1 = .ok (plan, data)) :
    Survives sha256 float now hosts.1 context.1 owner.1 evidence.1 plan nonce.1 data ↔
      Room hosts.1 plan := by
  obtain ⟨rfl, shape, rfl, room⟩ := prepare_iff.mp h
  have seal_ : Sealed sha256
    (freshPlan sha256 planId nonce now hosts.1 context.1 owner.1 evidence.1) := rfl
  have shape_ := validateShape_iff.mpr ⟨rfl, shape, seal_⟩
  have named {names : List String} {host : String} (listed : Json.strings? hosts.1 = some names)
      (mem : host ∈ names) : matchesHost host = true := by
    obtain ⟨names', _, listed', -, -, named, -⟩ := validHosts_iff.mp shape.hosts
    obtain rfl : names' = names := Option.some.inj (listed'.symm.trans listed)
    exact List.all_eq_true.mp named host mem
  constructor
  · intro survives names host listed mem
    have fits := survives.requests (.update .finish) names host (by decide) listed mem
    rwa [requestInput_length _ (named listed mem) nonce.2, if_pos rfl] at fits
  · intro spaced
    refine ⟨?_, fun clock past future => ?_, copies_agree.mpr shape_,
      fun action names host _ listed mem => ?_, fun r p _ valid => ?_⟩
    · rw [readPlan, if_neg (not_lt.mpr room)]
      exact loads_canonical (freshPlan_wellFormed hosts context owner evidence) (by simp [isBlank])
    · have half_hour : clock < now + 1800 := by rwa [ttl] at future
      exact test_iff.mpr ⟨rfl, shape, seal_, rfl, rfl, rfl, rfl, now, rfl, past, half_hour⟩
    · have most := spaced names host listed mem
      rw [requestInput_length action (named listed mem) nonce.2]
      split_ifs <;> omega
    · exact ⟨record_fits valid, response_fits valid⟩

end Chain

section Sample

lemma sampleId_hex : matchesHex 32 "0123456789abcdef0123456789abcdef" = true := by decide +kernel

def sampleId : Uuid := ⟨"0123456789abcdef0123456789abcdef", sampleId_hex⟩

def sampleContext : Json := .obj [("config_sha", .str "0123456789012345678901234567890123456789"),
  ("environment", .str "lab"), ("image", .str ""), ("inventory", .str "inventories/lab"),
  ("lane", .str "operator"), ("pipeline", .str ""), ("plan_job", .str ""),
  ("private_sha", .str "0123456789012345678901234567890123456789"), ("project", .str "")]

def sampleHosts : Json := .arr [.str "bao-1", .str "bao-2", .str "bao-3"]

/-- A sample plan of three hosts under a digest function that is constant. -/
def samplePlan (evidence : Json) : Json :=
  freshPlan (fun _ => "") sampleId sampleId 0 sampleHosts sampleContext (.str "bao-1") evidence

/-- The values of one field make the whole difference of two objects. -/
lemma object_length (k l : String) (u v w : Json) (before after : List (String × Json)) :
    (canonical (.obj ((l, u) :: before ++ (k, v) :: after))).length + (canonical w).length =
      (canonical (.obj ((l, u) :: before ++ (k, w) :: after))).length + (canonical v).length := by
  simp only [List.cons_append, canonical_obj_length, fields_length, List.map_append, List.map_cons,
    List.sum_append, List.sum_cons]
  omega

lemma samplePlan_length (evidence : Json) :
    (canonical (samplePlan evidence)).length = (canonical evidence).length + 505 := by
  have bare : (canonical (samplePlan .null)).length = 509 := by decide +kernel
  have null : (canonical .null).length = 4 := rfl
  have exchanged : (canonical (samplePlan evidence)).length + (canonical .null).length =
      (canonical (samplePlan .null)).length + (canonical evidence).length :=
    object_length "evidence" "context" sampleContext evidence .null
      [("created", .int 0), ("digest", .str "")] _
  omega

lemma samplePlan_shape {evidence : Json} (some_ : Json.nonemptyObject evidence = true)
    (room : (canonical evidence).length + 506 ≤ maxBytes) : FailoverShape (samplePlan evidence) := by
  refine ⟨rfl, rfl, rfl, rfl, ⟨_, rfl, sampleId.2⟩, ⟨_, rfl, sampleId.2⟩, ⟨0, le_rfl, rfl, rfl⟩, ?_,
    ⟨evidence, rfl, some_⟩, ⟨sampleContext, rfl, ?_⟩, ?_⟩
  · exact validHosts_iff.mpr ⟨["bao-1", "bao-2", "bao-3"], "bao-1", rfl, rfl, by decide +kernel⟩
  · exact validateContext_iff.mpr (by decide +kernel)
  · rw [samplePlan_length]
    omega

lemma sample_prepared {evidence : Json} (some_ : Json.nonemptyObject evidence = true)
    (room : (canonical evidence).length + 506 ≤ maxBytes) :
    prepare (fun _ => "") sampleId sampleId 0 sampleHosts sampleContext (.str "bao-1") evidence =
      .ok (samplePlan evidence, canonical (samplePlan evidence) ++ ['\n']) := by
  refine prepare_iff.mpr ⟨rfl, samplePlan_shape some_ room, rfl, ?_⟩
  rw [List.length_append, samplePlan_length]
  exact room

/-- A reader of JSON without floats. -/
def noFloats : List Char → Option FloatText := fun _ => none

def sampleHostsValue : Value noFloats := ⟨sampleHosts, by simp [sampleHosts, WellFormed, ElementsWellFormed]⟩

def sampleContextValue : Value noFloats :=
  ⟨sampleContext, by decide +kernel, by simp [FieldsWellFormed, WellFormed]⟩

def sampleOwner : Value noFloats := ⟨.str "bao-1", trivial⟩

/-- Evidence of one list of zeros. -/
def zeros (n : ℕ) : Value noFloats := ⟨.obj [("a", .arr (List.replicate (n + 1) (.int 0)))], by
  have elements_ : ∀ m, ElementsWellFormed noFloats (List.replicate m (.int 0)) := by
    intro m
    induction m with
    | zero => trivial
    | succ m ih => exact ⟨trivial, ih⟩
  exact ⟨List.pairwise_singleton _ _, elements_ (n + 1), trivial⟩⟩

lemma zeros_length (n : ℕ) : (canonical (zeros n).1).length = 2 * n + 9 := by
  have elements_ : ∀ m, (elements (List.replicate m (.int 0))).length = 2 * m + 1 := by
    intro m
    induction m with
    | zero => rfl
    | succ m ih =>
      rw [List.replicate_succ, elements, List.length_cons, List.length_append, ih]
      have digit : (canonical (.int 0)).length = 1 := rfl
      omega
  have digit : (canonical (.int 0)).length = 1 := rfl
  have key : (quote "a").length = 3 := by decide
  rw [zeros, canonical_obj_length, List.replicate_succ, canonical, List.length_cons, List.length_append,
    elements_, digit, key]
  simp only [fields, List.length_singleton]
  omega

lemma zeros_separators (n : ℕ) : separators (zeros n).1 = n + 1 := by
  have elements_ : ∀ m, elementSeparators (List.replicate m (.int 0)) = m := by
    intro m
    induction m with
    | zero => rfl
    | succ m ih =>
      rw [List.replicate_succ, elementSeparators, ih, separators]
      · omega
      · simp
      · simp
  rw [zeros, separators, List.replicate_succ, separators, elements_, fieldSeparators, separators]
  · omega
  · simp
  · simp

lemma samplePlan_separators (evidence : Json) :
    separators (samplePlan evidence) = separators evidence + 42 := by
  simp only [samplePlan, freshPlan, sampleContext, sampleHosts, separators, fieldSeparators,
    elementSeparators]
  omega

lemma zeros_prepared {n : ℕ} (room : 2 * n + 515 ≤ maxBytes) :
    prepare (fun _ => "") sampleId sampleId 0 sampleHostsValue.1 sampleContextValue.1 sampleOwner.1
      (zeros n).1 = .ok (samplePlan (zeros n).1, canonical (samplePlan (zeros n).1) ++ ['\n']) := by
  refine sample_prepared rfl ?_
  rw [zeros_length]
  exact room

/-- A plan of one measurement survives the chain. -/
theorem sample_survives : Survives (fun _ => "") noFloats 0 sampleHosts sampleContext (.str "bao-1")
    (zeros 0).1 (samplePlan (zeros 0).1) sampleId.1 (canonical (samplePlan (zeros 0).1) ++ ['\n']) := by
  refine (plan_chain_iff (fun _ => "") noFloats sampleId sampleId 0 sampleHostsValue sampleContextValue
    sampleOwner (zeros 0) _ _ (zeros_prepared (by decide))).mpr fun names host listed mem => ?_
  obtain rfl : ["bao-1", "bao-2", "bao-3"] = names := Option.some.inj listed
  have short : ∀ host ∈ ["bao-1", "bao-2", "bao-3"], host.toList.length = 5 := by decide +kernel
  rw [samplePlan_length, zeros_length, samplePlan_separators, zeros_separators, short host mem]
  decide

/-- A long list of short numbers fits the file of the plan, and its blanks overflow the request. -/
theorem spaced_request_refused : ¬∀ (sha256 : List Char → String)
    (float : List Char → Option FloatText) (planId nonce : Uuid) (now : ℤ)
    (hosts context owner evidence : Value float) (plan : Json) (data : List Char),
    prepare sha256 planId nonce now hosts.1 context.1 owner.1 evidence.1 = .ok (plan, data) →
      Survives sha256 float now hosts.1 context.1 owner.1 evidence.1 plan nonce.1 data := by
  intro survives
  have fits := (survives (fun _ => "") noFloats sampleId sampleId 0 sampleHostsValue sampleContextValue
    sampleOwner (zeros 130000) _ _ (zeros_prepared (by decide))).requests (.update .finish)
      ["bao-1", "bao-2", "bao-3"] "bao-1" (by decide) rfl (by simp)
  rw [requestInput_length _ (by decide +kernel) sampleId.2, samplePlan_length, zeros_length,
    samplePlan_separators, zeros_separators, if_pos rfl] at fits
  have short : "bao-1".toList.length = 5 := by decide +kernel
  rw [short] at fits
  revert fits
  decide

end Sample

end PlatformConfig.PlanChain
