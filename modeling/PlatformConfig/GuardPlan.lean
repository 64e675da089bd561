import PlatformConfig.CanonicalJson

/-!
# Failover plans and transaction records

The schema checks of the failover guard: which JSON values are plans, and which
records may stand on disk. The digest function is a parameter.
-/
namespace PlatformConfig.GuardPlan

open CanonicalJson

def maxBytes : ℕ := 256 * 1024

def recordBytes : ℕ := maxBytes + 4096

def isLowerHex (c : Char) : Bool := c.isDigit || ('a' ≤ c && c ≤ 'f')

def isNameChar (c : Char) : Bool := c.isAlphanum || c = '_' || c = '.' || c = '-'

/-- Exactly `n` lowercase hexadecimal digits. -/
def matchesHex (n : ℕ) (s : String) : Bool := s.toList.length = n && s.toList.all isLowerHex

def matchesHost (s : String) : Bool :=
  match s.toList with
  | [] => false
  | c :: cs => (c.isAlphanum || c = '_') && cs.length ≤ 252 && cs.all isNameChar

def matchesEnvironment (s : String) : Bool :=
  1 ≤ s.toList.length && s.toList.length ≤ 64 && s.toList.all isNameChar

def matchesPositive (s : String) : Bool :=
  match s.toList with
  | [] => false
  | c :: cs => c.isDigit && c != '0' && cs.all Char.isDigit

/-- The Unicode whitespace of a regular expression's `\s`. -/
def isSpace (c : Char) : Bool :=
  let n := c.toNat
  (9 ≤ n && n ≤ 13) || (28 ≤ n && n ≤ 32) || n = 0x85 || n = 0xa0 || n = 0x1680 ||
    (0x2000 ≤ n && n ≤ 0x200a) || n = 0x2028 || n = 0x2029 || n = 0x202f || n = 0x205f ||
    n = 0x3000

/-- An image name without whitespace, pinned by a digest of 64 hexadecimal digits. -/
def matchesImage (s : String) : Bool :=
  let cut := s.toList.length - 72
  let name := s.toList.take cut
  name ≠ [] && name.all (fun c => !isSpace c) &&
    (s.toList.drop cut).take 8 = "@sha256:".toList &&
    (s.toList.drop (cut + 8)).length = 64 && (s.toList.drop (cut + 8)).all isLowerHex

def matchesPlanJob (s : String) : Bool :=
  let cut := s.toList.length - 22
  let name := s.toList.take cut
  name ≠ [] && name.all isNameChar && s.toList.drop cut = "-haproxy-failover-plan".toList

/-- The field `key` is a string for which `p` holds. -/
def hasStr (j : Json) (key : String) (p : String → Bool) : Bool :=
  ((j.get? key).bind Json.str?).any p

/-- The inventory path is relative and does not climb. -/
def validInventory (s : String) : Bool :=
  s.toList ≠ [] && s.toList.head? ≠ some '/' && !((s.toList.splitOn '/').contains ['.', '.'])

def laneFields : List String := ["project", "pipeline", "image", "plan_job"]

def validLane (ctx : Json) : Bool :=
  if hasStr ctx "lane" (· = "operator") then laneFields.all fun k => hasStr ctx k (· = "")
  else hasStr ctx "lane" (· = "gitlab") &&
    hasStr ctx "project" matchesPositive && hasStr ctx "pipeline" matchesPositive &&
    hasStr ctx "image" matchesImage && hasStr ctx "plan_job" matchesPlanJob &&
    hasStr ctx "plan_job" (·.toList.length ≤ 128)

def contextKeys : List String := ["config_sha", "environment", "image", "inventory", "lane",
  "pipeline", "plan_job", "private_sha", "project"]

def validContext (ctx : Json) : Bool :=
  ctx.keys? = some contextKeys &&
    hasStr ctx "config_sha" (matchesHex 40) && hasStr ctx "private_sha" (matchesHex 40) &&
    hasStr ctx "environment" matchesEnvironment && hasStr ctx "inventory" validInventory &&
    validLane ctx

def planKeys : List String := ["context", "created", "digest", "evidence", "expires", "hosts",
  "nonce", "operation", "owner", "plan_id", "schema", "service"]

def Json.strings? : Json → Option (List String)
  | .arr xs => xs.mapM Json.str?
  | _ => none

def Json.nonemptyObject : Json → Bool
  | .obj (_ :: _) => true
  | _ => false

/-- A plan without the digest that seals it. -/
def Json.body : Json → Json
  | .obj fs => .obj (fs.filter fun f => f.1 ≠ "digest")
  | j => j

/-- A validated plan, with the fields the guard reads. -/
structure Plan where
  value : Json
  planId : String
  nonce : String
  created : ℤ
  expires : ℤ
  hosts : List String
  owner : String
  planId_hex : matchesHex 32 planId = true
  nonce_hex : matchesHex 32 nonce = true
  window : 0 ≤ created ∧ expires - created = 1800
  three : hosts.length = 3
  named : hosts.all matchesHost = true
  distinct : hosts.Nodup
  sorted : hosts.insertionSort (· ≤ ·) = hosts
  owned : owner ∈ hosts
  fits : (canonical value).length ≤ maxBytes

/-- The checks of a plan that no later step reads again. -/
def validSeal (sha256 : List Char → String) (plan : Json) : Bool :=
  plan.keys? = some planKeys && ((plan.get? "schema").bind Json.int?) = some 1 &&
    hasStr plan "operation" (· = "haproxy-failover") &&
    hasStr plan "service" (· = "haproxy.service") &&
    ((plan.get? "evidence").any Json.nonemptyObject) &&
    ((plan.get? "context").any validContext) &&
    hasStr plan "digest" (· = sha256 (canonical (Json.body plan)))

def validatePlan (sha256 : List Char → String) (plan : Json) : Option Plan := do
  let planId ← (plan.get? "plan_id").bind Json.str?
  let nonce ← (plan.get? "nonce").bind Json.str?
  let created ← (plan.get? "created").bind Json.int?
  let expires ← (plan.get? "expires").bind Json.int?
  let hosts ← (plan.get? "hosts").bind Json.strings?
  let owner ← (plan.get? "owner").bind Json.str?
  if h : validSeal sha256 plan ∧ matchesHex 32 planId = true ∧ matchesHex 32 nonce = true ∧
      (0 ≤ created ∧ expires - created = 1800) ∧ hosts.length = 3 ∧
      hosts.all matchesHost = true ∧ hosts.Nodup ∧ hosts.insertionSort (· ≤ ·) = hosts ∧
      owner ∈ hosts ∧ (canonical plan).length ≤ maxBytes then
    some ⟨plan, planId, nonce, created, expires, hosts, owner, h.2.1, h.2.2.1, h.2.2.2.1,
      h.2.2.2.2.1, h.2.2.2.2.2.1, h.2.2.2.2.2.2.1, h.2.2.2.2.2.2.2.1, h.2.2.2.2.2.2.2.2.1,
      h.2.2.2.2.2.2.2.2.2⟩
  else none

theorem validatePlan_value {sha256 : List Char → String} {j : Json} {p : Plan}
    (h : validatePlan sha256 j = some p) : p.value = j := by
  simp only [validatePlan, Option.bind_eq_bind, Option.bind_eq_some_iff] at h
  obtain ⟨planId, -, nonce, -, created, -, expires, -, hosts, -, owner, -, h⟩ := h
  split at h
  · cases h; rfl
  · cases h

/-- Plans with the same canonical text are the same plan. -/
theorem validatePlan_canonical {sha256 : List Char → String} {j k : Json} {p q : Plan}
    (hj : validatePlan sha256 j = some p) (hk : validatePlan sha256 k = some q)
    (h : canonical j = canonical k) : p = q := by
  rw [canonical_injective h, hk] at hj
  exact Option.some.inj hj.symm

inductive Phase
  | claimed | armed | failoverProven | restoring | closed
  deriving DecidableEq

inductive Outcome
  | pending | proven | failed
  deriving DecidableEq

/-- A transaction record of schema 1. -/
structure Record where
  plan : Json
  nonce : String
  host : String
  phase : Phase
  outcome : Outcome

def Phase.text : Phase → String
  | .claimed => "claimed"
  | .armed => "armed"
  | .failoverProven => "failover-proven"
  | .restoring => "restoring"
  | .closed => "closed"

def Outcome.text : Outcome → String
  | .pending => "pending"
  | .proven => "proven"
  | .failed => "failed"

def Record.json (r : Record) : Json := .obj [("host", .str r.host), ("nonce", .str r.nonce),
  ("outcome", .str r.outcome.text), ("phase", .str r.phase.text), ("plan", r.plan),
  ("schema", .int 1)]

/-- Which phase and outcome may stand together, given whether the host owns the fault. -/
def coherent (owns : Bool) : Phase → Outcome → Bool
  | .claimed, o => o != .proven
  | .armed, o => o != .proven && owns
  | .failoverProven, o => o = .proven
  | .restoring, o => o != .pending
  | .closed, o => o != .pending

/-- `_record`: a record that may stand on disk, with its validated plan. -/
def record (sha256 : List Char → String) (r : Record) : Option Plan := do
  let p ← validatePlan sha256 r.plan
  if r.nonce = p.nonce ∧ r.host ∈ p.hosts ∧ coherent (r.host = p.owner) r.phase r.outcome then
    some p
  else none

theorem record_iff {sha256 : List Char → String} {r : Record} {p : Plan} :
    record sha256 r = some p ↔ validatePlan sha256 r.plan = some p ∧ r.nonce = p.nonce ∧
      r.host ∈ p.hosts ∧ coherent (r.host = p.owner) r.phase r.outcome = true := by
  simp only [record, Option.bind_eq_bind, Option.bind_eq_some_iff]
  constructor
  · rintro ⟨q, hq, h⟩
    split at h
    · next hc => cases h; exact ⟨hq, hc⟩
    · cases h
  · rintro ⟨hp, hc⟩
    exact ⟨p, hp, if_pos hc⟩

theorem isNameChar_plain {c : Char} (h : isNameChar c = true) : Plain c := by
  have range : (45 ≤ c.toNat ∧ c.toNat ≤ 57) ∨ (65 ≤ c.toNat ∧ c.toNat ≤ 90) ∨
      (95 ≤ c.toNat ∧ c.toNat ≤ 122) := by
    simp only [isNameChar, Char.isAlphanum, Char.isAlpha, Char.isUpper, Char.isLower,
      Char.isDigit, Bool.or_eq_true, Bool.and_eq_true, decide_eq_true_eq,
      UInt32.le_iff_toNat_le, ge_iff_le] at h
    have hc : c.toNat = c.val.toNat := rfl
    rcases h with ((((⟨lo, hi⟩ | ⟨lo, hi⟩) | ⟨lo, hi⟩) | rfl) | rfl) | rfl
    · exact .inr (.inl ⟨lo, hi⟩)
    · exact .inr (.inr ⟨by have : 'a'.val.toNat = 97 := rfl; omega, hi⟩)
    · exact .inl ⟨by have : '0'.val.toNat = 48 := rfl; omega, hi⟩
    all_goals decide
  exact ⟨by omega, by omega, by rintro rfl; revert range; decide,
    by rintro rfl; revert range; decide⟩

theorem isLowerHex_nameChar {c : Char} (h : isLowerHex c = true) : isNameChar c = true := by
  simp only [isLowerHex, isNameChar, Char.isAlphanum, Char.isAlpha, Char.isLower, Bool.or_eq_true,
    Bool.and_eq_true, decide_eq_true_eq, ge_iff_le] at h ⊢
  rcases h with digit | ⟨lo, hi⟩
  · exact .inl (.inl (.inl (.inr digit)))
  · exact .inl (.inl (.inl (.inl (.inr ⟨lo, hi.trans (by decide)⟩))))

theorem matchesHost_iff {s : String} (h : matchesHost s = true) :
    s.toList.length ≤ 253 ∧ ∀ c ∈ s.toList, isNameChar c = true := by
  unfold matchesHost at h
  cases hs : s.toList with
  | nil => simp [hs] at h
  | cons c cs =>
    simp only [hs, Bool.and_eq_true, decide_eq_true_eq, List.all_eq_true] at h
    obtain ⟨⟨first, short⟩, rest⟩ := h
    refine ⟨Nat.succ_le_succ short, ?_⟩
    rintro d (_ | ⟨_, hd⟩)
    · simp only [Bool.or_eq_true, decide_eq_true_eq] at first
      simp only [isNameChar, Bool.or_eq_true, decide_eq_true_eq]
      tauto
    · exact rest d hd

theorem nonce_length (p : Plan) : (quote p.nonce).length = 34 := by
  have hex := p.nonce_hex
  simp only [matchesHex, Bool.and_eq_true, decide_eq_true_eq] at hex
  rw [quote_length fun c hc =>
    isNameChar_plain (isLowerHex_nameChar (List.all_eq_true.mp hex.2 c hc)), hex.1]

theorem host_length {p : Plan} {h : String} (hh : h ∈ p.hosts) : (quote h).length ≤ 255 := by
  obtain ⟨short, named⟩ := matchesHost_iff (List.all_eq_true.mp p.named _ hh)
  rw [quote_length fun c hc => isNameChar_plain (named c hc)]
  omega

/-- A record of a valid plan is never too large to be written. -/
theorem record_fits {sha256 : List Char → String} {r : Record} {p : Plan}
    (h : record sha256 r = some p) : (canonical r.json).length ≤ recordBytes := by
  obtain ⟨hplan, hnonce, hhost, -⟩ := record_iff.mp h
  have envelope : (canonical r.json).length ≤ (canonical r.plan).length + 4096 := by
    have nonce : (quote r.nonce).length = 34 := hnonce ▸ nonce_length p
    have host := host_length hhost
    have phase : (quote r.phase.text).length ≤ 17 := by cases r.phase <;> decide
    have outcome : (quote r.outcome.text).length ≤ 9 := by cases r.outcome <;> decide
    have keys : (quote "host").length + (quote "nonce").length + (quote "outcome").length +
      (quote "phase").length + (quote "plan").length + (quote "schema").length = 43 := by decide
    have schema : (canonical (.int 1)).length = 1 := by decide
    rw [Record.json, canonical_obj_length]
    simp only [fields_length, List.map_cons, List.map_nil, List.sum_cons, List.sum_nil,
      canonical_str]
    omega
  have fits := p.fits
  rw [validatePlan_value hplan] at fits
  exact envelope.trans (Nat.add_le_add_right fits 4096)

end PlatformConfig.GuardPlan
