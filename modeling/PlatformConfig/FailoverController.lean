import PlatformConfig.FailoverSafety

/-!
# Controllers of the failover test and recovery

Any number of controllers run the test and recovery task files for one plan over
its hosts. Guard requests and their responses travel separately: either can be
lost or late, a host can be unreachable, and a controller can be killed at any
point. Each guard request is one atomic run of the guard on its host.
-/
namespace PlatformConfig.FailoverController

open CanonicalJson GuardPlan CrashProgram CrashLock GuardStore FailoverGuard GuardChange SharedGuard
  FailoverSafety

/-- The task groups of a run: `claim` to `prove` are the fault block, the others recovery. -/
inductive Stage
  | claim | recheck | arm | stop | proof | prove
  | gate | inspect | fail | restore | start | smoke | finish | ended
  deriving DecidableEq

/-- The facts one run has registered, and how far it is in its current task. -/
structure Controller where
  fresh : Bool
  stage : Stage
  asked : String → Bool
  heard : String → Bool
  claimOk : String → Bool
  allClaimed : Bool
  stopAuthorized : Bool
  stopOk : Bool
  proofOk : String → Bool
  proofRecorded : Bool
  passed : String → Bool
  inspected : String → Option (Option Record)
  present : String → Bool
  restoreOk : String → Bool
  restoreAuthorized : Bool
  smokeOk : Bool

/-- A fresh fault begins with the claims, a retained transaction with its inspection. -/
def Controller.initial (fresh : Bool) : Controller :=
  ⟨fresh, if fresh then .claim else .gate, fun _ => false, fun _ => false, fun _ => false, false,
    false, false, fun _ => false, false, fun _ => false, fun _ => none, fun _ => false,
    fun _ => false, false, false⟩

/-- Begin the next task, with no host asked yet. -/
def Controller.enter (c : Controller) (stage : Stage) : Controller :=
  { c with stage := stage, asked := fun _ => false, heard := fun _ => false }

/-- The guard action of a task. -/
def Stage.action : Stage → Option Action
  | .claim => some .claim
  | .arm => some (.update .arm)
  | .prove => some (.update .prove)
  | .inspect => some .inspect
  | .fail => some (.update .fail)
  | .restore => some (.update .restore)
  | .finish => some (.update .finish)
  | _ => none

/-- The hosts a task addresses: its `when` condition. -/
def Controller.asks (p : Plan) (c : Controller) (h : String) : Bool :=
  match c.stage with
  | .claim | .prove | .inspect => true
  | .arm => h = p.owner
  | .fail => c.fresh && c.present h && !p.hosts.all c.passed
  | .restore | .finish => c.present h
  | _ => false

/-- The facts registered from a response; `none` is a refusal or an unreachable host. -/
def Controller.hear (p : Plan) (c : Controller) (h : String) (resp : Option Response) :
    Controller :=
  let status := resp.bind (·.status)
  { c with
    heard := Function.update c.heard h true
    claimOk := if c.stage = .claim then Function.update c.claimOk h (status = some .claimed)
      else c.claimOk
    stopAuthorized := if c.stage = .arm then resp.any (·.stopAuthorized) else c.stopAuthorized
    passed := if c.stage = .prove then Function.update c.passed h (status = some .failoverProven)
      else c.passed
    inspected := if c.stage = .inspect then Function.update c.inspected h (resp.map (·.record))
      else c.inspected
    restoreOk := if c.stage = .restore then
        Function.update c.restoreOk h (status = some .restoring || status = some .closed)
      else c.restoreOk
    restoreAuthorized := if c.stage = .restore ∧ h = p.owner then resp.any (·.restoreAuthorized)
      else c.restoreAuthorized }

/-- The retained records of an inspection. -/
def Controller.records (p : Plan) (c : Controller) : List Record :=
  p.hosts.filterMap fun h => (c.inspected h).join

/-- `openbao-failover-records.yml`: complete coherent retained evidence of the plan. -/
def Controller.Coherent (p : Plan) (c : Controller) : Prop :=
  (∀ h ∈ p.hosts, (c.inspected h).isSome = true) ∧ c.records p ≠ [] ∧
  (∀ r ∈ c.records p, canonical r.plan = canonical p.value ∧ r.nonce = p.nonce) ∧
  ((c.records p).map Record.host).Nodup ∧
  ((c.records p).length = 3 ∨ ∀ r ∈ c.records p, r.phase = .claimed ∨
    ((r.phase = .restoring ∨ r.phase = .closed) ∧ r.outcome = .failed))

/-- Every addressed host has answered, refused or was unreachable. -/
def Controller.Settled (p : Plan) (c : Controller) : Prop :=
  ∀ h ∈ p.hosts, c.asks p h = true → c.heard h = true

def Stage.inFault : Stage → Bool
  | .claim | .recheck | .arm | .stop | .proof | .prove => true
  | _ => false

/-- The rescue of the fault block: the hosts without a durable proof have failed. -/
def Controller.rescue (c : Controller) : Controller :=
  { c.enter .gate with proofOk := fun h => c.passed h && c.proofOk h }

/-- The moves of one controller from task to task. Smoke tests, evidence checks and the fault
proof of a host may fail at any time. -/
inductive Move (p : Plan) : Controller → Controller → Prop
  | claimed {c} (at_ : c.stage = .claim) (settled : c.Settled p)
      (all : ∀ h ∈ p.hosts, c.claimOk h = true) :
      Move p c { c.enter .recheck with allClaimed := true }
  | rechecked {c} (at_ : c.stage = .recheck) : Move p c (c.enter .arm)
  | armed {c} (at_ : c.stage = .arm) (settled : c.Settled p)
      (authorized : c.stopAuthorized = true) : Move p c (c.enter .stop)
  | proof {c h} (at_ : c.stage = .proof) :
      Move p c { c with proofOk := Function.update c.proofOk h true }
  | proofs {c} (at_ : c.stage = .proof) (all : ∀ h ∈ p.hosts, c.proofOk h = true) :
      Move p c { c.enter .prove with proofRecorded := true }
  | tested {c} (at_ : c.stage = .prove) (settled : c.Settled p) : Move p c c.rescue
  | failed {c} (at_ : c.stage.inFault = true) : Move p c c.rescue
  | authority {c} (at_ : c.stage = .gate) (own : c.fresh = true ∧ c.allClaimed = true) :
      Move p c { c.enter .fail with present := fun _ => true }
  | reinspect {c} (at_ : c.stage = .gate) (other : ¬(c.fresh = true ∧ c.allClaimed = true)) :
      Move p c (c.enter .inspect)
  | inspected {c} (at_ : c.stage = .inspect) (settled : c.Settled p) (coherent : c.Coherent p) :
      Move p c { c.enter .fail with present := fun h => ((c.inspected h).join).isSome }
  | reported {c} (at_ : c.stage = .fail) (settled : c.Settled p) :
      Move p c { c.enter .restore with restoreOk := fun h => !c.present h }
  | restored {c} (at_ : c.stage = .restore) (settled : c.Settled p) : Move p c (c.enter .start)
  | started {c} (at_ : c.stage = .start) (all : ∀ h ∈ p.hosts, c.restoreOk h = true) :
      Move p c (c.enter .smoke)
  | finished {c} (at_ : c.stage = .finish) (settled : c.Settled p) : Move p c (c.enter .ended)
  | abandoned {c} (at_ : c.stage.inFault = false) : Move p c (c.enter .ended)

/-- A guard request in flight. -/
structure Message where
  controller : ℕ
  host : String
  action : Action

variable {sha256 : List Char → String}

/-- The guard roots of the hosts, the traffic, the controllers that ever ran, and whether this
transaction has stopped the owner's HAProxy. -/
structure World (sha256 : List Char → String) where
  root : String → Store × History sha256
  requests : List Message
  responses : List (Message × Option Response)
  controller : ℕ → Option Controller
  stopped : Bool

def World.initial (sha256 : List Char → String) : World sha256 :=
  ⟨fun _ => (Store.empty, []), [], [], fun _ => none, false⟩

/-- The JSON request of `openbao-failover-guard.yml` and of the inspection task. -/
def requestJson (p : Plan) (h : String) : Action → Json
  | .inspect => .obj [("host", .str h), ("plan_id", .str p.planId)]
  | .update .finish => .obj [("host", .str h), ("nonce", .str p.nonce), ("plan", p.value),
      ("smoke_verified", .bool true)]
  | _ => .obj [("host", .str h), ("nonce", .str p.nonce), ("plan", p.value)]

/-- One guard request on a host at some clock value: its response, if it was not refused. -/
inductive Serve (p : Plan) (h : String) (a : Action) :
    Store × History sha256 → Option Response → Store × History sha256 → Prop
  | refused {s} : Serve p h a s none s
  | answered {s s' now call resp} (accepted : accept sha256 a (requestJson p h a) now = some call)
      (ran : run (recording (.failover call) effect) (locked call) s
        = (.ok (.response resp), s')) :
      Serve p h a s (some resp) (s'.1, .answered (.failover call) (.response resp) :: s'.2)
  | rejected {s s' now call e} (accepted : accept sha256 a (requestJson p h a) now = some call)
      (ran : run (recording (.failover call) effect) (locked call) s = (.error e, s')) :
      Serve p h a s none s'

def World.set (w : World sha256) (i : ℕ) (c : Controller) : World sha256 :=
  { w with controller := Function.update w.controller i (some c) }

/-- One step of the world for plan `p`. -/
inductive Step (p : Plan) : World sha256 → World sha256 → Prop
  | begin_ {w i fresh} (new : w.controller i = none) : Step p w (w.set i (.initial fresh))
  | move {w i c c'} (at_ : w.controller i = some c) (move : Move p c c') : Step p w (w.set i c')
  | kill {w i c} (at_ : w.controller i = some c) : Step p w (w.set i (c.enter .ended))
  | send {w i c h a} (at_ : w.controller i = some c) (member : h ∈ p.hosts)
      (action : c.stage.action = some a) (asks : c.asks p h = true) (new : c.asked h = false) :
      Step p w { w.set i { c with asked := Function.update c.asked h true } with
        requests := ⟨i, h, a⟩ :: w.requests }
  | serve {w l m r resp s} (at_ : w.requests = l ++ m :: r)
      (served : Serve p m.host m.action (w.root m.host) resp s) :
      Step p w { w with
        root := Function.update w.root m.host s, requests := l ++ r,
        responses := (m, resp) :: w.responses }
  | loseRequest {w l m r} (at_ : w.requests = l ++ m :: r) :
      Step p w { w with requests := l ++ r }
  | hear {w l m resp r c} (at_ : w.responses = l ++ (m, resp) :: r)
      (running : w.controller m.controller = some c) (action : c.stage.action = some m.action)
      (asked : c.asked m.host = true) (open_ : c.heard m.host = false) :
      Step p w { w.set m.controller (c.hear p m.host resp) with responses := l ++ r }
  | loseResponse {w l m r} (at_ : w.responses = l ++ m :: r) :
      Step p w { w with responses := l ++ r }
  | unreachable {w i c h} (at_ : w.controller i = some c) (asked : c.asked h = true)
      (open_ : c.heard h = false) : Step p w (w.set i (c.hear p h none))
  | stop {w i c ok} (at_ : w.controller i = some c) (stage : c.stage = .stop)
      (once : c.heard p.owner = false) :
      Step p w { w.set i { c with heard := Function.update c.heard p.owner true, stopOk := ok } with
        stopped := true }
  | observe {w i c} (at_ : w.controller i = some c) (stage : c.stage = .stop)
      (ok : c.stopOk = true) (inactive : w.stopped = true) : Step p w (w.set i (c.enter .proof))
  | start {w i c} (at_ : w.controller i = some c) (stage : c.stage = .start)
      (permitted : c.present p.owner = true ∧ c.restoreOk p.owner = true ∧
        c.restoreAuthorized = true) (once : c.heard p.owner = false) :
      Step p w { w.set i { c with heard := Function.update c.heard p.owner true } with
        stopped := false }
  | smoke {w i c} (at_ : w.controller i = some c) (stage : c.stage = .smoke)
      (running : w.stopped = false) :
      Step p w (w.set i { c.enter .finish with smokeOk := true })

/-- The call that a request of plan `p` to host `h` becomes. -/
def Carries (p : Plan) (h : String) : Action → Call sha256 → Prop
  | .inspect, c => c = .inspect h (some p.planId)
  | .claim, c => ∃ q fresh, c = .claim q fresh ∧ q.plan = p ∧ q.host = h
  | .update u, c => ∃ q fresh, c = .update u q fresh ∧ q.plan = p ∧ q.host = h

end PlatformConfig.FailoverController
