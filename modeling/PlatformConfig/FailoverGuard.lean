import PlatformConfig.GuardStore

/-!
# The failover guard helper

Acceptance of a request before the lock, and the locked section: the checks of
`active/` and `consumed/`, the claim, and the updates of a retained record.
-/
namespace PlatformConfig.FailoverGuard

open CanonicalJson GuardPlan CrashProgram CrashLock GuardStore Prog

variable {sha256 : List Char → String}

inductive Action
  | inspect
  | claim
  | update (u : Update)
  deriving DecidableEq

/-- The fields of a request that carries a plan. -/
def acceptRequest (sha256 : List Char → String) (keys : List String) (request : Json) (now : ℤ) : Option (Request sha256) := do
  let host ← (request.get? "host").bind Json.str?
  let value ← request.get? "plan"
  let nonce ← (request.get? "nonce").bind Json.str?
  match valid : validatePlan sha256 value with
  | none => none
  | some plan =>
    if h : request.keys? = some keys ∧ matchesHost host ∧ nonce = plan.nonce ∧
        host ∈ plan.hosts then
      some ⟨host, plan, now, by rw [validatePlan_value valid, valid], h.2.2.2⟩
    else none

def acceptInspect (request : Json) : Option (Call sha256) := do
  let host ← (request.get? "host").bind Json.str?
  if !matchesHost host then none
  else if request.keys? = some ["host"] then some (.inspect host none)
  else if request.keys? = some ["host", "plan_id"] then
    match request.get? "plan_id" with
    | some .null => some (.inspect host none)
    | some (.str p) => if matchesHex 32 p then some (.inspect host (some p)) else none
    | _ => none
  else none

/-- `smoke_verified` is the JSON value true. -/
def smokeVerified (request : Json) : Bool :=
  match request.get? "smoke_verified" with
  | some (.bool true) => true
  | _ => false

/-- `guard` up to the lock, with the clock value it reads. -/
def accept (sha256 : List Char → String) (action : Action) (request : Json) (now : ℤ) : Option (Call sha256) :=
  match action with
  | .inspect => acceptInspect request
  | .claim => do
    let q ← acceptRequest sha256 ["host", "nonce", "plan"] request now
    if fresh : q.Fresh then some (.claim q fresh) else none
  | .update .finish => do
    let q ← acceptRequest sha256 ["host", "nonce", "plan", "smoke_verified"] request now
    if smokeVerified request then some (.update .finish q (by simp)) else none
  | .update u => do
    let q ← acceptRequest sha256 ["host", "nonce", "plan"] request now
    if fresh : u = .arm → q.Fresh then some (.update u q fresh) else none

/-- `_result` -/
def result (r : Record) (changed stop restore : Bool) : Response :=
  ⟨changed, some r.phase, some r, stop, restore⟩

def absent : Response := ⟨false, none, none, false, false⟩

def claimed (q : Request sha256) : Record := ⟨q.plan.value, q.plan.nonce, q.host, .claimed, .pending⟩

/-- The phase from which a host proves the fault. -/
def provenFrom (p : Plan) (r : Record) : Phase := if r.host = p.owner then .armed else .claimed

/-- The change an action makes to a record that is not closed. -/
def step (u : Update) (p : Plan) (r : Record) : Except Refusal Record :=
  match u with
  | .arm =>
    if r.phase = .claimed ∧ r.outcome = .pending ∧ r.host = p.owner then
      .ok { r with phase := .armed }
    else .error (.value "stop intent may be armed once on exact planned owner")
  | .prove =>
    if r.phase = provenFrom p r ∧ r.outcome = .pending then
      .ok { r with phase := .failoverProven, outcome := .proven }
    else .error (.value "proof cannot replace failed/interrupted/restored result")
  | .fail =>
    .ok { r with
      outcome := .failed
      phase := if r.phase = .failoverProven then .restoring else r.phase }
  | .restore =>
    .ok { r with
      phase := .restoring
      outcome := if r.outcome = .pending then .failed else r.outcome }
  | .finish =>
    if r.phase = .restoring then .ok { r with phase := .closed }
    else .error (.value "restore intent and full smoke required before finish")

def makeConsumed : Call sha256 → Prog Op Reply Refusal Unit
  | .claim _ _ => ask .mkdirConsumed
  | _ => .ret ()

def checkConsumed : Prog Op Reply Refusal Unit := do
  let names ← ask .listConsumed
  require names.isSome .os
  require (names = some 0) (.value "incomplete or unknown consumption records; retained")

def checkOwner : Option Content → Prog Op Reply Refusal Owner
  | some (.owner o) => do
    require (o.operation = .haproxyFailover && matchesHex 32 o.planId && matchesHex 32 o.nonce)
      (.value "foreign or malformed active guard; retained")
    return o
  | _ => .fail (.value "foreign or malformed active guard; retained")

def readActive : Prog Op Reply Refusal (Option Owner) := do
  let names ← ask .listActive
  match names with
  | none => return none
  | some n => do
    require (n = (true, 0)) (.value "incomplete active ownership; retained")
    let content ← ask .readOwner
    let owner ← checkOwner content
    return some owner

/-- The plan the request is about: its own, or the active one. -/
def selectPlan (planId : Option String) : Option Owner → Prog Op Reply Refusal (Option String)
  | none => .ret planId
  | some o => do
    require (planId.getD o.planId = o.planId)
      (.value "another transaction is active; retained")
    return some (planId.getD o.planId)

/-- The refusal of `_write` where the name should be there, or should not. -/
def misplaced : Bool → Refusal
  | true => .os
  | false => .value "record already exists"

/-- `_write` of a record: refused when its text is too large. -/
def writeRecord (p : String) (r : Record) (replace : Bool) : Prog Op Reply Refusal Unit := do
  require ((canonical r.json).length ≤ recordBytes) (.value "oversized guard record")
  let written ← ask (.writeConsumed p r replace)
  require written (misplaced replace)

def claim (q : Request sha256) (owner : Option Owner) : Section := do
  let found ← ask (.readConsumed q.plan.planId)
  require (owner.isNone && found.isNone)
    (.value "active or permanently consumed plan; no reacquisition")
  let made ← ask .mkdirActive
  require made .os
  let owned ← ask (.writeOwner (ownerOf q.plan))
  require owned (.value "record already exists")
  writeRecord q.plan.planId (claimed q) false
  return .response (result (claimed q) true false false)

/-- The checks of an entry that was read for plan `p` on `host`. -/
def checkRetained (sha256 : List Char → String) (host p : String) (owner : Option Owner) (r : Record) :
    Prog Op Reply Refusal (Record × Plan) :=
  match record sha256 r with
  | none => .fail (.value "unknown transaction record")
  | some plan => do
    require (plan.planId = p && r.host = host) (.value "retained record identity mismatch")
    require (owner = some (ownerOf plan) || (owner.isNone && r.phase = .closed))
      (.value "active/consumed ownership mismatch; retained")
    return (r, plan)

def missing : Refusal := .value "missing retained transaction; no automatic repair"

/-- The retained record of a plan on `host`, or nothing when an inspection finds none. -/
def retained (sha256 : List Char → String) (inspecting : Bool) (host : String)
    (planId : Option String) (owner : Option Owner) : Prog Op Reply Refusal (Option (Record × Plan)) :=
  match planId with
  | none => if inspecting && owner.isNone then .ret none else .fail missing
  | some p => do
    let content ← ask (.readConsumed p)
    match content with
    | none => if inspecting && owner.isNone then .ret none else .fail missing
    | some (.record r) => do
      let found ← checkRetained sha256 host p owner r
      return some found
    | some _ => .fail (.value "unknown transaction record")

/-- Release of the exclusion by a finish, and the response of an update. -/
def conclude (u : Update) (owner : Option Owner) (r : Record) (changed : Bool) : Section :=
  if u = .finish ∧ owner.isSome then do
    let unlinked ← ask .unlinkOwner
    require unlinked .os
    let removed ← ask .rmdirActive
    require removed .os
    return .response (result r true false false)
  else .ret (.response (result r changed (u = .arm) (u = .restore && changed)))

def update (u : Update) (q : Request sha256) (owner : Option Owner) (r : Record) (p : Plan) : Section := do
  require (canonical q.plan.value = canonical r.plan && q.plan.nonce = r.nonce)
    (.value "exact retained plan/nonce required")
  if r.phase = .closed then do
    require (u = .restore || u = .finish) (.value "closed record is verification-only")
    conclude u owner r false
  else
    match step u p r with
    | .error e => .fail e
    | .ok next => do
      require (record sha256 next).isSome (.value "invalid transaction phase/outcome")
      writeRecord p.planId next true
      conclude u owner next true

/-- What follows once the owner of `active/` and the plan are known. -/
def dispatch (owner : Option Owner) (planId : Option String) : Call sha256 → Section
  | .claim q _ => claim q owner
  | .inspect host _ => do
    let found ← retained sha256 true host planId owner
    return .response (found.elim absent fun f => result f.1 false false false)
  | .update u q _ => do
    let found ← retained sha256 false q.host planId owner
    match found with
    | none => .fail missing
    | some (r, p) => update u q owner r p

def callPlan : Call sha256 → Option String
  | .inspect _ planId => planId
  | .claim q _ => some q.plan.planId
  | .update _ q _ => some q.plan.planId

/-- `_locked` -/
def locked (c : Call sha256) : Section := do
  makeConsumed c
  checkConsumed
  let owner ← readActive
  let planId ← selectPlan (callPlan c) owner
  dispatch owner planId c

/-- A step of an admissible record gives an admissible record of the same plan. -/
theorem step_record {u : Update} {p : Plan} {r next : Record} (hr : record sha256 r = some p)
    (hopen : r.phase ≠ .closed) (h : step u p r = .ok next) : record sha256 next = some p := by
  rw [record_iff] at hr ⊢
  obtain ⟨hplan, hnonce, hhost, hcoherent⟩ := hr
  obtain ⟨plan, nonce, host, phase, outcome⟩ := r
  cases u with
  | arm =>
    simp only [step] at h
    split at h
    · next hc =>
      obtain ⟨rfl, rfl, rfl⟩ := hc
      cases h
      exact ⟨hplan, hnonce, hhost, by simp [coherent]⟩
    · cases h
  | prove =>
    simp only [step] at h
    split at h
    · cases h
      exact ⟨hplan, hnonce, hhost, rfl⟩
    · cases h
  | fail =>
    cases h
    refine ⟨hplan, hnonce, hhost, ?_⟩
    cases phase <;> simp_all [coherent]
  | restore =>
    cases h
    refine ⟨hplan, hnonce, hhost, ?_⟩
    cases outcome <;> simp [coherent]
  | finish =>
    simp only [step] at h
    split at h
    · next hc =>
      cases h
      refine ⟨hplan, hnonce, hhost, ?_⟩
      subst hc
      simpa [coherent] using hcoherent
    · cases h

theorem step_keeps {u : Update} {p : Plan} {r next : Record} (h : step u p r = .ok next) :
    next.plan = r.plan ∧ next.nonce = r.nonce ∧ next.host = r.host := by
  cases u <;> simp only [step] at h
  case arm | prove | finish =>
    split at h
    · cases h; exact ⟨rfl, rfl, rfl⟩
    · cases h
  case fail | restore => cases h; exact ⟨rfl, rfl, rfl⟩

theorem claimed_record (q : Request sha256) : record sha256 (claimed q) = some q.plan :=
  record_iff.mpr ⟨q.valid, rfl, q.member, rfl⟩

end PlatformConfig.FailoverGuard
