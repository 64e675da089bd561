import PlatformConfig.FailoverProtocol

/-!
# A closed record and the stopped service

The stop is authorized by one step and executed by a later one. A run is timely when the
service is never stopped after a recovery of the owner has passed its full smoke; in timely
runs the owner's record is not closed while the service is stopped.
-/
namespace PlatformConfig.FailoverStop

open CanonicalJson GuardPlan CrashProgram CrashLock GuardStore FailoverGuard GuardChange SharedGuard
  FailoverSafety FailoverController FailoverScript FailoverProtocol

variable {sha256 : List Char → String} {p : Plan}

/-- Some controller that restores host `h` has passed its full smoke. -/
def Passed (h : String) (w : World sha256) : Prop :=
  ∃ i c, w.controller i = some c ∧ c.smokeOk = true ∧ c.present h = true

/-- The service is not stopped once a recovery of the owner has passed its smoke. -/
def Timely (p : Plan) (w w' : World sha256) : Prop :=
  w.stopped = false → w'.stopped = true → ¬Passed p.owner w

def Stage.beforeRestore : Stage → Bool
  | .restore | .start | .smoke | .finish | .ended => false
  | _ => true

/-- What the facts of a recovering controller say about each other in each task. -/
structure Recovering (p : Plan) (c : Controller) : Prop where
  unrestored : Stage.beforeRestore c.stage = true → ∀ h, c.restoreOk h = false
  ready : c.stage = .smoke → ∀ h ∈ p.hosts, c.restoreOk h = true
  smoked : c.smokeOk = true → (c.stage = .finish ∨ c.stage = .ended) ∧
    ∀ h ∈ p.hosts, c.restoreOk h = true
  finishing : c.stage = .finish → c.smokeOk = true

/-- Restore intents, finishes and the service over all hosts, traffic and controllers. -/
structure Restoration (p : Plan) (w : World sha256) : Prop where
  recovering : ∀ i c, w.controller i = some c → Recovering p c
  heard : ∀ m r, (m, some r) ∈ w.responses → m.action = .update .restore →
    (r.status = some .restoring ∨ r.status = some .closed) → Shows p Restored (w.root m.host).1
  restored : ∀ i c h, w.controller i = some c → c.present h = true → c.restoreOk h = true →
    Shows p Restored (w.root h).1
  finishing : ∀ m ∈ w.requests, m.action = .update .finish → Passed m.host w
  closed : ∀ h, Shows p Closed (w.root h).1 → Passed h w
  running : Passed p.owner w → w.stopped = false

/-- What a step of a controller keeps of its recovery. -/
structure Keeps (p : Plan) (c c' : Controller) : Prop where
  recovering : Recovering p c'
  smokeOk : c'.smokeOk = c.smokeOk
  present : c.smokeOk = true → c'.present = c.present
  restored : ∀ h, c'.present h = true → c'.restoreOk h = true →
    c.present h = true ∧ c.restoreOk h = true

theorem Recovering.unsmoked {c : Controller} (h : Recovering p c)
    (early : c.stage ≠ .finish ∧ c.stage ≠ .ended) : c.smokeOk = false := by
  by_contra smoke
  rcases (h.smoked (by simpa using smoke)).1 with at_ | at_
  · exact early.1 at_
  · exact early.2 at_

/-- A step among the tasks before the restoration. -/
theorem Recovering.before {c c' : Controller} (h : Recovering p c)
    (old : Stage.beforeRestore c.stage = true) (new : Stage.beforeRestore c'.stage = true)
    (same : c'.restoreOk = c.restoreOk ∧ c'.smokeOk = c.smokeOk) : Keeps p c c' := by
  have unsmoked : c.smokeOk = false := h.unsmoked (by
    constructor <;> rintro at_ <;> rw [at_] at old <;> cases old)
  refine ⟨⟨fun _ => same.1 ▸ h.unrestored old, fun at_ => ?_, fun smoke => ?_, fun at_ => ?_⟩,
    same.2, fun smoke => ?_, fun h' _ restored => ?_⟩
  · rw [at_] at new
    cases new
  · rw [same.2, unsmoked] at smoke
    cases smoke
  · rw [at_] at new
    cases new
  · rw [unsmoked] at smoke
    cases smoke
  · rw [same.1, h.unrestored old h'] at restored
    cases restored

/-- A step into a later task of the restoration, or out of it. -/
theorem Recovering.enter {c : Controller} {stage : Stage} (h : Recovering p c)
    (new : Stage.beforeRestore stage = false)
    (ready : stage = .smoke → ∀ h ∈ p.hosts, c.restoreOk h = true)
    (smoked : c.smokeOk = true → stage = .finish ∨ stage = .ended) (finishing : stage ≠ .finish) :
    Keeps p c (c.enter stage) := by
  refine ⟨⟨fun at_ => ?_, ready, fun smoke => ⟨smoked smoke, (h.smoked smoke).2⟩,
    fun at_ => absurd at_ finishing⟩, rfl, fun _ => rfl, fun _ present restored => ⟨present, restored⟩⟩
  simp only [Controller.enter, new] at at_
  cases at_

section Local
variable {w : World sha256} {i : ℕ} {c : Controller} {requests : List Message}
  {responses : List (Message × Option Response)} {stopped : Bool}

/-- A controller's step that forgets no passed smoke. -/
theorem passed_keeps {h : String} (passed : Passed h w)
    (keeps : ∀ c₀, w.controller i = some c₀ → c₀.smokeOk = true → c₀.present h = true →
      c.smokeOk = true ∧ c.present h = true) :
    Passed h { w.set i c with requests := requests, responses := responses, stopped := stopped } := by
  obtain ⟨j, d, hd, smoke, present⟩ := passed
  by_cases same : j = i
  · subst same
    exact ⟨j, c, Function.update_self .., keeps d hd smoke present⟩
  · exact ⟨j, d, by simpa [World.set, same] using hd, smoke, present⟩

/-- A passed smoke after a controller's step is an earlier one, or its own. -/
theorem passed_back {h : String} (passed : Passed h { w.set i c with
      requests := requests, responses := responses, stopped := stopped }) :
    Passed h w ∨ c.smokeOk = true ∧ c.present h = true := by
  obtain ⟨j, d, hd, smoke, present⟩ := passed
  rcases set_controller hd with ⟨-, rfl⟩ | ⟨-, old⟩
  · exact .inr ⟨smoke, present⟩
  · exact .inl ⟨j, d, old, smoke, present⟩

/-- A step of controller `i` that leaves the hosts alone. -/
theorem Restoration.local (h : Restoration p w) (recovering : Recovering p c)
    (restored : ∀ h, c.present h = true → c.restoreOk h = true → Shows p Restored (w.root h).1)
    (keeps : ∀ c₀ h, w.controller i = some c₀ → c₀.smokeOk = true → c₀.present h = true →
      c.smokeOk = true ∧ c.present h = true)
    (sent : ∀ m ∈ requests, m ∈ w.requests ∨
      (m.action = .update .finish → c.smokeOk = true ∧ c.present m.host = true))
    (received : responses ⊆ w.responses)
    (running : Passed p.owner w ∨ c.smokeOk = true ∧ c.present p.owner = true → stopped = false) :
    Restoration p { w.set i c with
      requests := requests, responses := responses, stopped := stopped } := by
  refine ⟨fun j d hd => ?_, fun m r hm => h.heard m r (received hm), fun j d h' hd => ?_,
    fun m hm act => ?_, fun h' shows => passed_keeps (h.closed h' shows) (fun c₀ => keeps c₀ h'),
    fun passed => running (passed_back passed)⟩
  · rcases set_controller hd with ⟨-, rfl⟩ | ⟨-, old⟩
    · exact recovering
    · exact h.recovering j d old
  · rcases set_controller hd with ⟨-, rfl⟩ | ⟨-, old⟩
    · exact restored h'
    · exact h.restored j d h' old
  · rcases sent m hm with old | own
    · exact passed_keeps (h.finishing m old act) fun c₀ => keeps c₀ m.host
    · exact ⟨i, c, Function.update_self .., own act⟩

end Local

theorem Restoration.serve {w : World sha256} {l r : List Message} {m : Message}
    {resp : Option Response} {s : Store × History sha256} (h : Restoration p w)
    (at_ : w.requests = l ++ m :: r) (served : Served p m.host m.action (w.root m.host) resp s) :
    Restoration p (serving w (l ++ r) m resp s) := by
  have shows : ∀ {h'}, Shows p Restored (w.root h').1 →
      Shows p Restored ((serving w (l ++ r) m resp s).root h').1 := fun {h'} =>
    served_root (fun h' t => Shows p Restored (w.root h').1 → Shows p Restored t.1)
      (fun _ => id) served.restored h'
  have pending : ∀ {m'}, m' ∈ l ++ r → m' ∈ w.requests := by
    intro m' hm
    rw [at_]
    rcases List.mem_append.mp hm with left | right <;> simp [*]
  refine ⟨h.recovering, fun m' r' hm act status => ?_, fun i c h' hc present restored =>
    shows (h.restored i c h' hc present restored), fun m' hm => h.finishing m' (pending hm), ?_,
    h.running⟩
  · rcases List.mem_cons.mp hm with new | old
    · cases new
      rw [serving_self]
      have watched : m.action ≠ .inspect := by rw [act]; nofun
      rcases status with status | status
      · obtain ⟨r, entry, phase⟩ := served.shown watched r' rfl .restoring status
        exact ⟨r, entry, .inl phase⟩
      · obtain ⟨r, entry, phase⟩ := served.shown watched r' rfl .closed status
        exact ⟨r, entry, .inr phase⟩
    · exact shows (h.heard m' r' old act status)
  · refine served_root (fun h' t => Shows p Closed t.1 → Passed h' w) h.closed fun closed => ?_
    rcases served.closed closed with before | act
    · exact h.closed _ before
    · exact h.finishing m (by simp [at_]) act

theorem Recovering.hear {c : Controller} {host : String} {resp : Option Response}
    (h : Recovering p c) : Recovering p (c.hear p host resp) := by
  by_cases at_ : c.stage = .restore
  · have unsmoked := h.unsmoked (by rw [at_]; decide)
    refine ⟨?_, ?_, fun smoke => ?_, ?_⟩
    · simp [Controller.hear, at_, Stage.beforeRestore]
    · simp [Controller.hear, at_]
    · rw [show (c.hear p host resp).smokeOk = c.smokeOk from rfl, unsmoked] at smoke
      cases smoke
    · simp [Controller.hear, at_]
  · have same : (c.hear p host resp).restoreOk = c.restoreOk := if_neg at_
    exact ⟨same ▸ h.unrestored, same ▸ h.ready, same ▸ h.smoked, h.finishing⟩

end PlatformConfig.FailoverStop
