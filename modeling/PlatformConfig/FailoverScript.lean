import PlatformConfig.FailoverController

/-!
# Scripts of controllers

An executable scheduler: each act of a script is one allowed step of the world, so a script
that runs through reaches its last world.
-/
namespace PlatformConfig.FailoverScript

open CanonicalJson GuardPlan CrashProgram CrashLock GuardStore FailoverGuard GuardChange SharedGuard
  FailoverSafety FailoverController

variable {sha256 : List Char → String} {p : Plan}

/-- What a scheduler lets happen; `serve` and `hear` take the newest message. -/
inductive Act
  | begin_ (i : ℕ) (fresh : Bool)
  | proof (i : ℕ) (h : String)
  | advance (i : ℕ)
  | send (i : ℕ) (h : String)
  | serve (now : ℤ)
  | hear
  | stop (i : ℕ)
  | start (i : ℕ)
  | smoke (i : ℕ)

instance (c : Controller) : Decidable (c.Settled p) :=
  inferInstanceAs (Decidable (∀ h ∈ p.hosts, _))

instance (c : Controller) : Decidable (c.Coherent p) :=
  inferInstanceAs (Decidable (_ ∧ _ ∧ _ ∧ _ ∧ _))

/-- The next task of a controller whose current task went well. -/
def advance (p : Plan) (w : World sha256) (c : Controller) : Option Controller :=
  match c.stage with
  | .claim => if c.Settled p ∧ ∀ h ∈ p.hosts, c.claimOk h = true then
      some { c.enter .recheck with allClaimed := true } else none
  | .recheck => some (c.enter .arm)
  | .arm => if c.Settled p ∧ c.stopAuthorized = true then some (c.enter .stop) else none
  | .stop => if c.stopOk = true ∧ w.stopped = true then some (c.enter .proof) else none
  | .proof => if ∀ h ∈ p.hosts, c.proofOk h = true then
      some { c.enter .prove with proofRecorded := true } else none
  | .prove => if c.Settled p then some c.rescue else none
  | .gate => some (if c.fresh = true ∧ c.allClaimed = true then
      { c.enter .fail with present := fun _ => true } else c.enter .inspect)
  | .inspect => if c.Settled p ∧ c.Coherent p then
      some { c.enter .fail with present := fun h => ((c.inspected h).join).isSome } else none
  | .fail => if c.Settled p then
      some { c.enter .restore with restoreOk := fun h => !c.present h } else none
  | .restore => if c.Settled p then some (c.enter .start) else none
  | .start => if ∀ h ∈ p.hosts, c.restoreOk h = true then some (c.enter .smoke) else none
  | .finish => if c.Settled p then some (c.enter .ended) else none
  | .smoke | .ended => none

/-- One guard request, run on its host at clock value `now`. -/
def serve (p : Plan) (now : ℤ) (m : Message) (s : Store × History sha256) :
    Option Response × (Store × History sha256) :=
  match accept sha256 m.action (requestJson p m.host m.action) now with
  | none => (none, s)
  | some call =>
    match run (recording (.failover call) effect) (locked call) s with
    | (.ok (.response resp), t) =>
      (some resp, (t.1, .answered (.failover call) (.response resp) :: t.2))
    | (.ok .complete, _) => (none, s)
    | (.error _, t) => (none, t)

/-- Perform one act, if the world allows it now. -/
def perform (p : Plan) (w : World sha256) : Act → Option (World sha256)
  | .begin_ i fresh => if (w.controller i).isNone then some (w.set i (.initial fresh)) else none
  | .proof i h => do
    let c ← w.controller i
    if c.stage = .proof then some (w.set i { c with proofOk := Function.update c.proofOk h true })
      else none
  | .advance i => do
    let c ← w.controller i
    let c' ← advance p w c
    some (w.set i c')
  | .send i h => do
    let c ← w.controller i
    let a ← c.stage.action
    if h ∈ p.hosts ∧ c.asks p h = true ∧ c.asked h = false then
      some { w.set i { c with asked := Function.update c.asked h true } with
        requests := ⟨i, h, a⟩ :: w.requests }
    else none
  | .serve now =>
    match w.requests with
    | [] => none
    | m :: rest =>
      let (resp, s) := serve p now m (w.root m.host)
      some { w with
        root := Function.update w.root m.host s
        requests := rest
        responses := (m, resp) :: w.responses }
  | .hear =>
    match w.responses with
    | [] => none
    | (m, resp) :: rest => do
      let c ← w.controller m.controller
      if c.stage.action = some m.action ∧ c.asked m.host = true ∧ c.heard m.host = false then
        some { w.set m.controller (c.hear p m.host resp) with responses := rest }
      else none
  | .stop i => do
    let c ← w.controller i
    if c.stage = .stop ∧ c.heard p.owner = false then
      some { w.set i { c with heard := Function.update c.heard p.owner true, stopOk := true } with
        stopped := true }
    else none
  | .start i => do
    let c ← w.controller i
    if c.stage = .start ∧ (c.present p.owner = true ∧ c.restoreOk p.owner = true ∧
        c.restoreAuthorized = true) ∧ c.heard p.owner = false then
      some { w.set i { c with heard := Function.update c.heard p.owner true } with
        stopped := false }
    else none
  | .smoke i => do
    let c ← w.controller i
    if c.stage = .smoke ∧ w.stopped = false then
      some (w.set i { c.enter .finish with smokeOk := true })
    else none

/-- One request of controller `i` to each host in turn, answered and heard. -/
def asking (i : ℕ) (now : ℤ) (hosts : List String) : List Act :=
  hosts.flatMap fun h => [.send i h, .serve now, .hear]

/-- A controller that proves the stopped fault on all hosts. -/
def proving (p : Plan) (i : ℕ) (now : ℤ) : List Act :=
  .advance i :: (p.hosts.map (.proof i ·)) ++ [.advance i] ++ asking i now p.hosts ++ [.advance i]

/-- A restoration from its gate to its end, after the inspection where it has no claims. -/
def restoring (p : Plan) (i : ℕ) (now : ℤ) : List Act :=
  [.advance i] ++ asking i now p.hosts ++ [.advance i, .start i, .advance i, .smoke i] ++
    asking i now p.hosts ++ [.advance i]

/-- The sample plan for three hosts. -/
def plan : Plan := (validatePlan (fun _ => "sealed") samplePlan).get (by decide +kernel)

end PlatformConfig.FailoverScript
