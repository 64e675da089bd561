import PlatformConfig.FailoverScript

/-!
# Safety of the failover protocol across hosts

What one served request does to its host, what a controller's facts say at each task, and
the invariant that joins hosts, traffic and controllers: claims before the stop, one stop
authority, and a proof only behind it.
-/
namespace PlatformConfig.FailoverProtocol

open CanonicalJson GuardPlan CrashProgram CrashLock GuardStore FailoverGuard GuardChange SharedGuard
  FailoverSafety FailoverController FailoverScript

variable {sha256 : List Char → String} {p : Plan}

/-- Host `h` has recorded a claim of exactly plan `p` with its nonce. -/
def HeldClaim (p : Plan) (h : String) (l : History sha256) : Prop :=
  ∃ who, Event.did who
    (.writeConsumed p.planId ⟨p.value, p.nonce, h, .claimed, .pending⟩ false) true ∈ l

/-- The retained record of the plan satisfies `P`. -/
def Shows (p : Plan) (P : Record → Prop) (s : Store) : Prop :=
  ∃ r, s.entry p.planId = some (.record r) ∧ P r

def Proven (r : Record) : Prop := r.outcome = .proven

def Closed (r : Record) : Prop := r.phase = .closed

/-- The restore intent of a record is durable. -/
def Restored (r : Record) : Prop := r.phase = .restoring ∨ r.phase = .closed

/-- The root of host `h`: the guard's own invariant, and no record without its claim. -/
structure Kept (p : Plan) (h : String) (s : Store) (l : History sha256) : Prop where
  retention : Retention s l
  claimed : ∀ r, s.entry p.planId = some (.record r) → HeldClaim p h l

theorem step_proven {u : Update} {old next : Record} (h : step u p old = .ok next)
    (proven : Proven next) : Proven old ∨ u = .prove := by
  cases u with
  | prove => exact .inr rfl
  | arm | finish =>
    simp only [step] at h
    split at h
    · cases h; exact .inl proven
    · cases h
  | fail => cases h; cases proven
  | restore =>
    cases h
    simp only [Proven] at proven
    split at proven
    · cases proven
    · exact .inl proven

theorem step_closed {u : Update} {old next : Record} (h : step u p old = .ok next)
    (closed : Closed next) : Closed old ∨ u = .finish := by
  cases u with
  | finish => exact .inr rfl
  | arm | prove =>
    simp only [step] at h
    split at h
    · cases h; cases closed
    · cases h
  | fail =>
    cases h
    simp only [Closed] at closed
    split at closed
    · cases closed
    · exact .inl closed
  | restore => cases h; cases closed

theorem provenFrom_open (r : Record) : ¬(provenFrom p r = .restoring ∨ provenFrom p r = .closed) := by
  unfold provenFrom
  split <;> decide

theorem step_restored {u : Update} {old next : Record} (h : step u p old = .ok next)
    (restored : Restored old) : Restored next := by
  cases u with
  | arm =>
    simp only [step] at h
    split at h
    next armable => rw [Restored, armable.1] at restored; simp at restored
    · cases h
  | prove =>
    simp only [step] at h
    split at h
    next provable =>
      rw [Restored, provable.1] at restored
      exact absurd restored (provenFrom_open old)
    · cases h
  | fail =>
    cases h
    rcases restored with phase | phase
    · exact .inl (by simp [phase])
    · exact .inr (by simp [phase])
  | restore => cases h; exact .inl rfl
  | finish =>
    simp only [step] at h
    split at h
    · cases h; exact .inr rfl
    · cases h

/-- What one operation of a request does to the entry of plan `p` on host `h`. -/
inductive Entry (p : Plan) (h : String) (a : Action) (s t : Store) (l : History sha256) : Prop
  | same (entry : t.entry p.planId = s.entry p.planId)
  | taken (fresh : s.entry p.planId = none) (other : ∀ r, t.entry p.planId ≠ some (.record r))
  | claimed (fresh : s.entry p.planId = none) (held : HeldClaim p h l)
      (entry : t.entry p.planId = some (.record ⟨p.value, p.nonce, h, .claimed, .pending⟩))
  | moved {u old next} (act : a = .update u) (before : s.entry p.planId = some (.record old))
      (moves : step u p old = .ok next) (after : t.entry p.planId = some (.record next))

theorem change_entry {h : String} {a : Action} {call : Call sha256} (carries : Carries p h a call)
    {start : Store × History sha256} {o : Op} {s t : Store} {l l' : History sha256}
    (change : Change (fun _ _ _ => False) (.failover call) start o (s, l) (t, l')) :
    l <:+ l' ∧ Entry p h a s t l' := by
  cases change with
  | quiet still => exact ⟨List.suffix_cons _ _, .same rfl⟩
  | interrupted halt => exact halt.elim
  | prepared absent =>
    exact ⟨List.suffix_cons _ _, .same (by simp [Store.entry, absent])⟩
  | reserved | owned | unlinked | removed => exact ⟨List.suffix_cons _ _, .same rfl⟩
  | @spent _ r _ _ d id c named acquires identity owns at_ unspent held success =>
    refine ⟨List.suffix_cons _ _, ?_⟩
    cases a with
    | inspect => obtain rfl := carries; cases acquires
    | update u => obtain ⟨q, fresh, rfl, -, -⟩ := carries; cases acquires
    | claim =>
      obtain ⟨q, fresh, rfl, rfl, rfl⟩ := carries
      cases identity
      have absent : s.entry q.plan.planId = none := by simpa [Store.entry, at_] using unspent
      rcases named with ⟨rfl, rfl⟩ | ⟨q', fresh', who_, rfl, rfl⟩
      · refine .taken absent fun r hr => ?_
        rw [ownerOf_planId, entry_put at_, if_pos rfl] at hr
        cases hr
      · cases who_
        cases success
        refine .claimed absent ⟨_, List.mem_cons_self⟩ ?_
        rw [ownerOf_planId, entry_put at_, if_pos rfl]
        rfl
  | @replaced u q fresh _ _ d old next by_ owns at_ entry valid host opened moves =>
    refine ⟨List.suffix_cons _ _, ?_⟩
    cases by_
    cases a with
    | inspect => cases carries
    | claim => obtain ⟨_, _, same, -, -⟩ := carries; cases same
    | update u' =>
      obtain ⟨_, _, same, rfl, -⟩ := carries
      cases same
      refine .moved rfl (by simpa [Store.entry, at_] using entry) moves ?_
      rw [entry_put at_, if_pos rfl]

/-- How a request can have changed its host, at each of its operations. -/
structure Progress (p : Plan) (h : String) (a : Action) (s t : Store × History sha256) : Prop where
  kept : Kept p h t.1 t.2
  grows : s.2 <:+ t.2
  proven : Shows p Proven t.1 → Shows p Proven s.1 ∨ a = .update .prove
  closed : Shows p Closed t.1 → Shows p Closed s.1 ∨ a = .update .finish
  restored : Shows p Restored s.1 → Shows p Restored t.1

theorem Progress.refl {h : String} {a : Action} {s : Store × History sha256}
    (kept : Kept p h s.1 s.2) : Progress p h a s s :=
  ⟨kept, List.suffix_rfl, .inl, .inl, id⟩

theorem HeldClaim.mono {h : String} {l l' : History sha256} (held : HeldClaim p h l)
    (grows : l <:+ l') : HeldClaim p h l' :=
  held.imp fun _ member => grows.subset member

/-- A property of the record that a step of the guard gives only where it was there before, or
where the action is `u`. -/
theorem Entry.shows {h : String} {a : Action} {s t : Store} {l : History sha256} {u : Update}
    {P : Record → Prop} (entry : Entry p h a s t l)
    (claimed : ¬P ⟨p.value, p.nonce, h, .claimed, .pending⟩)
    (moves : ∀ v old next, step v p old = .ok next → P next → P old ∨ v = u)
    (shows : Shows p P t) : Shows p P s ∨ a = .update u := by
  obtain ⟨r, hr, holds⟩ := shows
  cases entry with
  | same entry => exact .inl ⟨r, entry ▸ hr, holds⟩
  | taken fresh other => exact absurd hr (other r)
  | claimed fresh held entry =>
    rw [entry] at hr
    cases hr
    exact absurd holds claimed
  | moved act before moved after =>
    rw [after] at hr
    cases hr
    rcases moves _ _ _ moved holds with was | rfl
    · exact .inl ⟨_, before, was⟩
    · exact .inr act

theorem Progress.step {h : String} {a : Action} {call : Call sha256}
    (carries : Carries p h a call) {start s t : Store × History sha256} {o : Op}
    (began : Exclusive start.1 start.2) (hs : Progress p h a start s)
    (change : Change (fun _ _ _ => False) (.failover call) start o s t) :
    Progress p h a start t := by
  obtain ⟨s, l⟩ := s
  obtain ⟨t, l'⟩ := t
  obtain ⟨suffix, entry⟩ := change_entry carries change
  refine ⟨⟨change_retention began hs.kept.retention change, fun r hr => ?_⟩,
    hs.grows.trans suffix, fun shows => ?_, fun shows => ?_, fun shows => ?_⟩
  · cases entry with
    | same entry => exact (hs.kept.claimed r (entry ▸ hr)).mono suffix
    | taken fresh other => exact absurd hr (other r)
    | claimed fresh held entry => exact held
    | moved act before moves after => exact (hs.kept.claimed _ before).mono suffix
  · rcases entry.shows (by nofun) (fun _ _ _ => step_proven) shows with before | act
    · exact hs.proven before
    · exact .inr act
  · rcases entry.shows (by nofun) (fun _ _ _ => step_closed) shows with before | act
    · exact hs.closed before
    · exact .inr act
  · obtain ⟨r, hr, holds⟩ := hs.restored shows
    cases entry with
    | same entry => exact ⟨r, entry.trans hr, holds⟩
    | taken fresh other => rw [fresh] at hr; cases hr
    | claimed fresh held entry => rw [fresh] at hr; cases hr
    | moved act before moves after =>
      rw [before] at hr
      cases hr
      exact ⟨_, after, step_restored moves holds⟩

/-- What a served request does to its host, and what its response says about it. -/
structure Served (p : Plan) (h : String) (a : Action) (s : Store × History sha256)
    (resp : Option Response) (t : Store × History sha256) : Prop
    extends Progress p h a s t where
  stopped : p.planId ∈ FailoverSafety.stopped t.2 → p.planId ∈ FailoverSafety.stopped s.2 ∨
    ∃ r ∈ resp, r.stopAuthorized = true
  authorized : ∀ r ∈ resp, r.stopAuthorized = true → a = .update .arm ∧ h = p.owner ∧
    p.planId ∉ FailoverSafety.stopped s.2 ∧ p.planId ∈ FailoverSafety.stopped t.2
  shown : a ≠ .inspect → ∀ r ∈ resp, ∀ φ ∈ r.status,
    Shows p (fun record => record.phase = φ) t.1

theorem stopped_mono {l l' : History sha256} (grows : l <:+ l') :
    FailoverSafety.stopped l ⊆ FailoverSafety.stopped l' := by
  obtain ⟨newer, rfl⟩ := grows
  induction newer with
  | nil => exact fun _ member => member
  | cons e newer ih =>
    refine fun id member => ?_
    have older := ih member
    cases e with
    | did => exact older
    | answered who a =>
      exact ((List.sublist_cons_self (who, a) (answers (newer ++ l))).filterMap stopOf).subset older

/-- What the facts of a controller say about each other in each task. -/
structure Formed (p : Plan) (c : Controller) : Prop where
  asks : ∀ h, c.asked h = true → c.asks p h = true
  before : (c.stage = .claim ∨ c.stage = .recheck ∨ c.stage = .arm ∧ c.heard p.owner = false) →
    c.stopAuthorized = false
  all : (c.stage = .recheck ∨ c.stage = .arm ∨ c.stage = .stop ∨ c.stage = .proof ∨
    c.stage = .prove) → c.allClaimed = true
  authorized : (c.stage = .stop ∨ c.stage = .proof ∨ c.stage = .prove) → c.stopAuthorized = true
  recorded : c.stage = .prove → c.proofRecorded = true
  proof : c.proofRecorded = true → c.stopAuthorized = true

/-- Outside the fault block only the history of a proof is left to keep. -/
theorem Formed.outside {c c' : Controller} (h : Formed p c) (outside : c'.stage.inFault = false)
    (asks : ∀ h, c'.asked h = true → c'.asks p h = true)
    (flags : c'.proofRecorded = c.proofRecorded ∧ c'.stopAuthorized = c.stopAuthorized) :
    Formed p c' := by
  have apart : ∀ {stage}, stage.inFault = true → c'.stage ≠ stage := by
    rintro _ fault rfl
    rw [outside] at fault
    cases fault
  refine ⟨asks, ?_, ?_, ?_, fun at_ => absurd at_ (apart rfl), fun proof => ?_⟩
  · rintro (at_ | at_ | ⟨at_, -⟩) <;> exact absurd at_ (apart rfl)
  · rintro (at_ | at_ | at_ | at_ | at_) <;> exact absurd at_ (apart rfl)
  · rintro (at_ | at_ | at_) <;> exact absurd at_ (apart rfl)
  · rw [flags.2]
    exact h.proof (flags.1 ▸ proof)

theorem Formed.sent {c : Controller} {h : String} (formed : Formed p c)
    (asks : c.asks p h = true) :
    Formed p { c with asked := Function.update c.asked h true } := by
  refine ⟨fun h' asked => ?_, formed.before, formed.all, formed.authorized, formed.recorded,
    formed.proof⟩
  by_cases same : h' = h
  · exact same ▸ asks
  · exact formed.asks h' (by simpa [Function.update_apply, same] using asked)

theorem hear_asks (c : Controller) (h : String) (resp : Option Response) :
    (c.hear p h resp).asks p = c.asks p := by
  funext h'
  cases at_ : c.stage <;> simp [Controller.asks, Controller.hear, at_]

theorem Formed.hear {c : Controller} {h : String} {resp : Option Response} (formed : Formed p c)
    (asked : c.asked h = true) (unheard : c.heard h = false) : Formed p (c.hear p h resp) := by
  have asks : ∀ h', (c.hear p h resp).asked h' = true → (c.hear p h resp).asks p h' = true := by
    rw [hear_asks]
    exact formed.asks
  by_cases at_ : c.stage = .arm
  · -- the owner answers its arm once, so no authority is overwritten
    have owner : h = p.owner := by
      simpa [Controller.asks, at_] using formed.asks h asked
    have fresh := formed.before (.inr (.inr ⟨at_, owner ▸ unheard⟩))
    refine ⟨asks, ?_, formed.all, ?_, formed.recorded, fun proof => ?_⟩
    · simp [Controller.hear, at_, owner]
    · simp [Controller.hear, at_]
    · rw [formed.proof proof] at fresh
      cases fresh
  · have same : (c.hear p h resp).stopAuthorized = c.stopAuthorized := if_neg at_
    refine ⟨asks, fun stage => ?_, formed.all, same ▸ formed.authorized, formed.recorded,
      same ▸ formed.proof⟩
    rw [same]
    rcases stage with at' | at' | at'
    · exact formed.before (.inl at')
    · exact formed.before (.inr (.inl at'))
    · exact absurd at'.1 at_

/-- The claims of all hosts are recorded. -/
def AllClaimed (p : Plan) (root : String → Store × History sha256) : Prop :=
  ∀ h ∈ p.hosts, HeldClaim p h (root h).2

/-- Some controller has recorded the fault proof of all hosts. -/
def ProofRecorded (w : World sha256) : Prop :=
  ∃ i c, w.controller i = some c ∧ c.proofRecorded = true

/-- Claims, requests and proofs over all hosts, traffic and controllers. -/
structure Evidence (p : Plan) (w : World sha256) : Prop where
  formed : ∀ i c, w.controller i = some c → Formed p c
  kept : ∀ h, Kept p h (w.root h).1 (w.root h).2
  heard : ∀ m r, (m, some r) ∈ w.responses → m.action = .claim → r.status = some .claimed →
    HeldClaim p m.host (w.root m.host).2
  claims : ∀ i c h, w.controller i = some c → c.claimOk h = true → HeldClaim p h (w.root h).2
  all : ∀ i c, w.controller i = some c → c.allClaimed = true → AllClaimed p w.root
  arming : ∀ m ∈ w.requests, m.action = .update .arm → AllClaimed p w.root
  stops : ∀ h, p.planId ∈ stopped (w.root h).2 → h = p.owner ∧ AllClaimed p w.root
  proving : ∀ m ∈ w.requests, m.action = .update .prove → ProofRecorded w
  proven : ∀ h, Shows p Proven (w.root h).1 → ProofRecorded w

def Authorizes (x : Message × Option Response) : Prop := ∃ r ∈ x.2, r.stopAuthorized = true

/-- The stop authority: one response in flight or one controller has it, once the owner gave it. -/
structure Authority (p : Plan) (w : World sha256) : Prop where
  response : ∀ x ∈ w.responses, Authorizes x → p.planId ∈ stopped (w.root p.owner).2 ∧
    ∀ i c, w.controller i = some c → c.stopAuthorized = false
  single : w.responses.Pairwise fun x y => ¬(Authorizes x ∧ Authorizes y)
  controller : ∀ i c, w.controller i = some c → c.stopAuthorized = true →
    p.planId ∈ stopped (w.root p.owner).2 ∧
    ∀ j d, w.controller j = some d → d.stopAuthorized = true → j = i

theorem set_controller {w : World sha256} {i j : ℕ} {c d : Controller}
    (h : (w.set i c).controller j = some d) : j = i ∧ d = c ∨ j ≠ i ∧ w.controller j = some d := by
  simp only [World.set, Function.update_apply] at h
  split at h
  next same => cases h; exact .inl ⟨same, rfl⟩
  next differs => exact .inr ⟨differs, h⟩

/-- A step of controller `i` that leaves the hosts alone. -/
theorem Evidence.local {w : World sha256} {i : ℕ} {c : Controller} {requests : List Message}
    {responses : List (Message × Option Response)} {stopped : Bool} (h : Evidence p w)
    (formed : Formed p c) (claims : ∀ h, c.claimOk h = true → HeldClaim p h (w.root h).2)
    (all : c.allClaimed = true → AllClaimed p w.root)
    (proof : ∀ c₀, w.controller i = some c₀ → c₀.proofRecorded = true → c.proofRecorded = true)
    (sent : ∀ m ∈ requests, m ∈ w.requests ∨ (m.action = .update .arm → c.allClaimed = true) ∧
      (m.action = .update .prove → c.proofRecorded = true))
    (received : responses ⊆ w.responses) :
    Evidence p { w.set i c with requests := requests, responses := responses, stopped := stopped } := by
  have keeps : ProofRecorded w → ProofRecorded { w.set i c with
      requests := requests, responses := responses, stopped := stopped } := by
    rintro ⟨j, d, hd, recorded⟩
    by_cases same : j = i
    · subst same
      exact ⟨j, c, Function.update_self .., proof d hd recorded⟩
    · exact ⟨j, d, by simpa [World.set, same] using hd, recorded⟩
  refine ⟨fun j d hd => ?_, h.kept, fun m r hm => h.heard m r (received hm),
    fun j d h' hd ok => ?_, fun j d hd ok => ?_, fun m hm act => ?_, h.stops,
    fun m hm act => ?_, fun h' shows => keeps (h.proven h' shows)⟩
  · rcases set_controller hd with ⟨-, rfl⟩ | ⟨-, old⟩
    · exact formed
    · exact h.formed j d old
  · rcases set_controller hd with ⟨-, rfl⟩ | ⟨-, old⟩
    · exact claims h' ok
    · exact h.claims j d h' old ok
  · rcases set_controller hd with ⟨-, rfl⟩ | ⟨-, old⟩
    · exact all ok
    · exact h.all j d old ok
  · rcases sent m hm with old | ⟨arms, -⟩
    · exact h.arming m old act
    · exact all (arms act)
  · rcases sent m hm with old | ⟨-, proves⟩
    · exact keeps (h.proving m old act)
    · exact ⟨i, c, Function.update_self .., proves act⟩

/-- A step of controller `i` that gives nobody the stop authority. -/
theorem Authority.local {w : World sha256} {i : ℕ} {c : Controller} {requests : List Message}
    {responses : List (Message × Option Response)} {stopped : Bool} (h : Authority p w)
    (same : c.stopAuthorized = true → ∃ c₀, w.controller i = some c₀ ∧ c₀.stopAuthorized = true)
    (received : responses.Sublist w.responses) :
    Authority p { w.set i c with requests := requests, responses := responses, stopped := stopped } := by
  have back : ∀ j d, (w.set i c).controller j = some d → d.stopAuthorized = true →
      ∃ d₀, w.controller j = some d₀ ∧ d₀.stopAuthorized = true := by
    intro j d hd authorized
    rcases set_controller hd with ⟨rfl, rfl⟩ | ⟨-, old⟩
    · exact same authorized
    · exact ⟨d, old, authorized⟩
  refine ⟨fun x hx authorizes => ⟨(h.response x (received.subset hx) authorizes).1, ?_⟩,
    h.single.sublist received, fun j d hd authorized => ?_⟩
  · intro j d hd
    by_contra authorized
    obtain ⟨d₀, hd₀, authorized₀⟩ := back j d hd (by simpa using authorized)
    rw [(h.response x (received.subset hx) authorizes).2 j d₀ hd₀] at authorized₀
    cases authorized₀
  · obtain ⟨d₀, hd₀, authorized₀⟩ := back j d hd authorized
    refine ⟨(h.controller j d₀ hd₀ authorized₀).1, fun k e he authorized' => ?_⟩
    obtain ⟨e₀, he₀, authorized₁⟩ := back k e he authorized'
    exact (h.controller j d₀ hd₀ authorized₀).2 k e₀ he₀ authorized₁

section Served
variable {w : World sha256} {l r : List Message} {m : Message} {resp : Option Response}
  {s : Store × History sha256}

/-- The world after one served request. -/
def serving (w : World sha256) (requests : List Message) (m : Message) (resp : Option Response)
    (s : Store × History sha256) : World sha256 :=
  { w with
    root := Function.update w.root m.host s
    requests := requests
    responses := (m, resp) :: w.responses }

theorem served_root (Q : String → Store × History sha256 → Prop) (old : ∀ h, Q h (w.root h))
    (new : Q m.host s) (h : String) : Q h ((serving w (l ++ r) m resp s).root h) := by
  simp only [serving, Function.update_apply]
  split
  next same => exact same ▸ new
  · exact old h

theorem serving_self : (serving w l m resp s).root m.host = s := Function.update_self ..

theorem served_grows (served : Served p m.host m.action (w.root m.host) resp s) (h : String) :
    (w.root h).2 <:+ ((serving w (l ++ r) m resp s).root h).2 :=
  served_root (fun h t => (w.root h).2 <:+ t.2) (fun _ => List.suffix_rfl) served.grows h

theorem Evidence.serve (h : Evidence p w) (at_ : w.requests = l ++ m :: r)
    (served : Served p m.host m.action (w.root m.host) resp s) :
    Evidence p (serving w (l ++ r) m resp s) := by
  have held : ∀ {h'}, HeldClaim p h' (w.root h').2 →
      HeldClaim p h' ((serving w (l ++ r) m resp s).root h').2 :=
    fun claim => claim.mono (served_grows served _)
  have all : AllClaimed p w.root → AllClaimed p (serving w (l ++ r) m resp s).root :=
    fun claims h' hh => held (claims h' hh)
  have pending : ∀ {m'}, m' ∈ l ++ r → m' ∈ w.requests := by
    intro m' hm
    rw [at_]
    rcases List.mem_append.mp hm with left | right <;> simp [*]
  have here : m ∈ w.requests := by simp [at_]
  refine ⟨h.formed, served_root (fun h t => Kept p h t.1 t.2) h.kept served.kept,
    fun m' r' hm act status => ?_, fun i c h' hc ok => held (h.claims i c h' hc ok),
    fun i c hc ok => all (h.all i c hc ok), fun m' hm act => all (h.arming m' (pending hm) act),
    ?_, fun m' hm act => h.proving m' (pending hm) act, ?_⟩
  · rcases List.mem_cons.mp hm with new | old
    · cases new
      obtain ⟨record_, entry, -⟩ := served.shown (by rw [act]; nofun) r' rfl .claimed status
      have claimed := served.kept.claimed record_ entry
      rwa [serving_self]
    · exact held (h.heard m' r' old act status)
  · refine served_root (fun h' t => p.planId ∈ stopped t.2 → h' = p.owner ∧ _)
      (fun h' stops => ⟨(h.stops h' stops).1, all (h.stops h' stops).2⟩) fun stops => ?_
    rcases served.stopped stops with before | ⟨r', hr, authorized⟩
    · exact ⟨(h.stops _ before).1, all (h.stops _ before).2⟩
    · obtain ⟨act, owner, -⟩ := served.authorized r' hr authorized
      exact ⟨owner, all (h.arming m here act)⟩
  · refine served_root (fun _ t => Shows p Proven t.1 → _) h.proven fun shows => ?_
    rcases served.proven shows with before | act
    · exact h.proven _ before
    · exact h.proving m here act

theorem Authority.serve (h : Authority p w)
    (served : Served p m.host m.action (w.root m.host) resp s) :
    Authority p (serving w (l ++ r) m resp s) := by
  have keeps : p.planId ∈ stopped (w.root p.owner).2 →
      p.planId ∈ stopped ((serving w (l ++ r) m resp s).root p.owner).2 :=
    fun stops => stopped_mono (served_grows served p.owner) stops
  -- the guard authorizes a stop only where no authority is in the world yet
  have first : ∀ r' ∈ resp, r'.stopAuthorized = true →
      p.planId ∉ stopped (w.root p.owner).2 ∧
      p.planId ∈ stopped ((serving w (l ++ r) m resp s).root p.owner).2 := by
    intro r' hr authorized
    obtain ⟨-, owner, before, after⟩ := served.authorized r' hr authorized
    rw [owner] at before
    rw [← owner, serving_self]
    exact ⟨owner ▸ before, after⟩
  refine ⟨fun x hx authorizes => ?_, List.pairwise_cons.mpr ⟨fun y hy both => ?_, h.single⟩,
    fun i c hc authorized => ⟨keeps (h.controller i c hc authorized).1,
      (h.controller i c hc authorized).2⟩⟩
  · rcases List.mem_cons.mp hx with rfl | old
    · obtain ⟨r', hr, authorized⟩ := authorizes
      obtain ⟨before, after⟩ := first r' hr authorized
      refine ⟨after, fun i c hc => ?_⟩
      by_contra authority
      exact before (h.controller i c hc (by simpa using authority)).1
    · exact ⟨keeps (h.response x old authorizes).1, (h.response x old authorizes).2⟩
  · obtain ⟨⟨r', hr, authorized⟩, authorizes⟩ := both
    exact (first r' hr authorized).1 (h.response y hy authorizes).1

end Served

theorem Authority.hear {w : World sha256} {l r : List (Message × Option Response)} {m : Message}
    {resp : Option Response} {c : Controller} (h : Authority p w)
    (at_ : w.responses = l ++ (m, resp) :: r) (running : w.controller m.controller = some c) :
    Authority p { w.set m.controller (c.hear p m.host resp) with responses := l ++ r } := by
  by_cases authorizes : Authorizes (m, resp)
  · -- the authority moves from this response to its controller
    have here : (m, resp) ∈ w.responses := by simp [at_]
    obtain ⟨stops, none_⟩ := h.response _ here authorizes
    have others : ∀ x ∈ l ++ r, ¬Authorizes x := by
      intro x hx also
      have single := h.single
      rw [at_, List.pairwise_append, List.pairwise_cons] at single
      rcases List.mem_append.mp hx with left | right
      · exact single.2.2 x left _ List.mem_cons_self ⟨also, authorizes⟩
      · exact single.2.1.1 x right ⟨authorizes, also⟩
    refine ⟨fun x hx also => absurd also (others x hx), ?_, fun j d hd authorized => ?_⟩
    · exact h.single.sublist (by rw [at_]; exact (List.sublist_cons_self _ _).append_left l)
    · have mine : ∀ k e, (w.set m.controller (c.hear p m.host resp)).controller k = some e →
          e.stopAuthorized = true → k = m.controller := by
        intro k e he authority
        rcases set_controller he with ⟨rfl, -⟩ | ⟨-, old⟩
        · rfl
        · rw [none_ k e old] at authority
          cases authority
      exact ⟨stops, fun k e he authority => (mine k e he authority).trans (mine j d hd authorized).symm⟩
  · refine h.local (fun authorized => ⟨c, running, ?_⟩)
      (by rw [at_]; exact (List.sublist_cons_self _ _).append_left l)
    simp only [Controller.hear] at authorized
    split at authorized
    · cases resp with
      | none => cases authorized
      | some r' => exact absurd ⟨r', rfl, authorized⟩ authorizes
    · exact authorized

theorem Evidence.hear {w : World sha256} {l r : List (Message × Option Response)} {m : Message}
    {resp : Option Response} {c : Controller} (h : Evidence p w)
    (at_ : w.responses = l ++ (m, resp) :: r) (running : w.controller m.controller = some c)
    (action : c.stage.action = some m.action) (asked : c.asked m.host = true)
    (unheard : c.heard m.host = false) :
    Evidence p { w.set m.controller (c.hear p m.host resp) with responses := l ++ r } := by
  refine h.local ((h.formed _ c running).hear asked unheard) (fun h' ok => ?_)
    (h.all _ c running) (fun c₀ at₀ recorded => ?_) (fun m hm => .inl hm) ?_
  · simp only [Controller.hear] at ok
    split at ok
    next stage =>
      rw [Function.update_apply] at ok
      split at ok
      next same =>
        subst same
        obtain ⟨r', hr, status⟩ := Option.bind_eq_some_iff.mp (of_decide_eq_true ok)
        have act : m.action = .claim := by
          rw [stage] at action
          exact (Option.some.inj action).symm
        exact h.heard m r' (by simp [at_, hr]) act status
      · exact h.claims _ c h' running ok
    · exact h.claims _ c h' running ok
  · rw [running] at at₀
    cases at₀
    exact recorded
  · rw [at_]
    exact ((List.sublist_cons_self _ _).append_left l).subset

end PlatformConfig.FailoverProtocol
