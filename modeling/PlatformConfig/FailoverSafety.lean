import PlatformConfig.SharedGuard

/-!
# Safety of the failover guard over whole runs

The guard is killed only between whole-record writes and directory operations.
One invariant ties each retained record to the writes and answers in the history;
the four safety properties are read off it.
-/
namespace PlatformConfig.FailoverSafety

open CanonicalJson GuardPlan CrashProgram CrashLock GuardStore FailoverGuard GuardChange SharedGuard

variable {sha256 : List Char → String}

/-- The plan that an answer authorizes to be stopped. -/
def stopOf : Caller sha256 × Answer → Option String
  | (who, .response resp) =>
    if resp.stopAuthorized then who.identity.map Owner.planId else none
  | _ => none

/-- The plans with an answer that authorized a stop. -/
def stopped (l : History sha256) : List String := (answers l).filterMap stopOf

/-- Some update of plan `p` was written to disk with an action and record as `P` says. -/
def Recorded (P : Update → Record → Prop) (p : String) : History sha256 → Prop
  | [] => False
  | .did (.failover (.update u _ _)) (.writeConsumed p' r true) true :: l =>
    (p' = p ∧ P u r) ∨ Recorded P p l
  | _ :: l => Recorded P p l

/-- The actions after which a plan may not stop the service any more. -/
def Ending (u : Update) (_ : Record) : Prop := u = .restore ∨ u = .fail ∨ u = .finish

def Failed (_ : Update) (r : Record) : Prop := r.outcome = .failed

/-- A record that could still be armed, or was armed and nothing else. -/
def Live (r : Record) : Prop := (r.phase = .claimed ∨ r.phase = .armed) ∧ r.outcome = .pending

def LawfulAnswer : Event (Caller sha256) Op Reply Answer → History sha256 → Prop
  | .answered who (.response resp), l =>
    (resp.stopAuthorized = true → ∃ q fresh, who = .failover (.update .arm q fresh) ∧
      q.host = q.plan.owner ∧ holders l = [ownerOf q.plan] ∧
      ¬Recorded Ending q.plan.planId l) ∧
    ∀ r ∈ resp.record, ∃ p, record sha256 r = some p ∧
      (r.outcome = .proven → ¬Recorded Failed p.planId l)
  | _, _ => True

structure Retention (s : Store) (l : History sha256) : Prop where
  exclusive : Exclusive s l
  tidy : ∀ d, s.consumed = some d → d.pending = 0
  valid : ∀ p r, s.entry p = some (.record r) → ∃ plan, record sha256 r = some plan ∧
    plan.planId = p ∧ (r.phase ≠ .closed → Held s (ownerOf plan))
  unwritten : ∀ p, s.entry p = none → p ∉ stopped l ∧ ∀ P, ¬Recorded P p l
  unstopped : ∀ p r, s.entry p = some (.record r) → r.phase = .claimed → p ∉ stopped l
  live : ∀ p r, s.entry p = some (.record r) → Live r → ¬Recorded Ending p l
  unfailed : ∀ p r, s.entry p = some (.record r) → r.outcome ≠ .failed → ¬Recorded Failed p l
  settled : ∀ p r, r.phase = .closed → Recorded (fun _ r' => r' = r) p l →
    s.entry p = some (.record r)
  once : (stopped l).Nodup
  lawful : Always LawfulAnswer l

theorem recorded_other {who : Caller sha256} {o : Op} {r : Reply o} {P : Update → Record → Prop}
    {p : String} {l : History sha256}
    (h : ∀ p' r', o = .writeConsumed p' r' true → HEq r false) :
    Recorded P p (.did who o r :: l) = Recorded P p l := by
  rcases who with _ | _ | (_ | _ | _) <;> cases o <;> try rfl
  next p' r' replace =>
    cases replace
    · rfl
    · cases h p' r' rfl
      rfl

theorem recorded_calm {who : Caller sha256} {o : Op} {r : Reply o} {P : Update → Record → Prop}
    {p : String} {l : History sha256} (still : calm o r = true) :
    Recorded P p (.did who o r :: l) = Recorded P p l := by
  refine recorded_other fun p' r' ho => ?_
  subst ho
  simpa [calm] using still

theorem recorded_update {u : Update} {q : Request sha256} {fresh : u = .arm → q.Fresh}
    {P : Update → Record → Prop} {p p' : String} {r : Record} {l : History sha256} :
    Recorded P p (.did (.failover (.update u q fresh)) (.writeConsumed p' r true) true :: l)
      ↔ (p' = p ∧ P u r) ∨ Recorded P p l := Iff.rfl

theorem entry_put {s : Store} {d : ConsumedDir} (hd : s.consumed = some d) (p : String)
    (c : Content) (a : Option ActiveDir) (p' : String) :
    Store.entry ⟨a, some (d.set p c)⟩ p' = if p' = p then some c else s.entry p' := by
  simp only [Store.entry, hd, Option.bind_some, ConsumedDir.set, Function.update_apply]

/-- A step that leaves the entries and writes no update keeps the invariant, if it keeps the
exclusion of open records. -/
theorem Retention.frame {s t : Store} {l : History sha256} {who : Caller sha256} {o : Op}
    {r : Reply o} (h : Retention s l) (exclusive : Exclusive t (.did who o r :: l))
    (entries : t.consumed = s.consumed) (other : ∀ p' r', o = .writeConsumed p' r' true → HEq r false)
    (held : ∀ p r plan, s.entry p = some (.record r) → r.phase ≠ .closed → plan.planId = p →
      Held s (ownerOf plan) → Held t (ownerOf plan)) :
    Retention t (.did who o r :: l) := by
  have same : ∀ p, t.entry p = s.entry p := fun p => by simp only [Store.entry, entries]
  refine ⟨exclusive, fun d hd => h.tidy d (entries ▸ hd), fun p r hr => ?_, fun p hp => ?_,
    fun p r hr hc => h.unstopped p r (same p ▸ hr) hc, fun p r hr hl => ?_, fun p r hr hf => ?_,
    fun p r hc hw => ?_, h.once, ?_, h.lawful⟩
  · rw [same] at hr
    obtain ⟨plan, valid, named, open_⟩ := h.valid p r hr
    exact ⟨plan, valid, named, fun hc => held p r plan hr hc named (open_ hc)⟩
  · rw [same] at hp
    refine ⟨(h.unwritten p hp).1, fun P => ?_⟩
    rw [recorded_other other]
    exact (h.unwritten p hp).2 P
  · rw [recorded_other other]
    exact h.live p r (same p ▸ hr) hl
  · rw [recorded_other other]
    exact h.unfailed p r (same p ▸ hr) hf
  · rw [recorded_other other] at hw
    rw [same]
    exact h.settled p r hc hw
  · trivial

/-- A new entry of a plan without one: the claimed record, or an edge owner. -/
theorem Retention.spend {s : Store} {l : History sha256} {who : Caller sha256} {o : Op}
    {r : Reply o} {d : ConsumedDir} {id : Owner} {c : Content} (h : Retention s l)
    (exclusive : Exclusive { s with consumed := some (d.set id.planId c) } (.did who o r :: l))
    (named : o = .createConsumed id.planId id ∧ c = .owner id ∨
      ∃ q fresh, who = .failover (.claim q fresh) ∧
        o = .writeConsumed id.planId (claimed q) false ∧ c = .record (claimed q))
    (identity : who.identity = some id) (owns : Held s id) (hd : s.consumed = some d)
    (unspent : d.file id.planId = none) :
    Retention { s with consumed := some (d.set id.planId c) } (.did who o r :: l) := by
  have other : ∀ p' r', o = .writeConsumed p' r' true → HEq r false := by
    rintro p' r' rfl
    rcases named with ⟨h, -⟩ | ⟨q, fresh, -, h, -⟩ <;> cases h
  have absent : s.entry id.planId = none := by simpa [Store.entry, hd] using unspent
  have record_ : ∀ p r', Store.entry ⟨s.active, some (d.set id.planId c)⟩ p = some (.record r') →
      s.entry p = some (.record r') ∨ ∃ q fresh, who = .failover (.claim q fresh) ∧
        p = id.planId ∧ r' = claimed q := by
    intro p r' hr
    rw [entry_put hd] at hr
    split at hr
    next same =>
      rcases named with ⟨-, rfl⟩ | ⟨q, fresh, who_, -, rfl⟩
      · cases hr
      · cases hr
        exact .inr ⟨q, fresh, who_, same, rfl⟩
    · exact .inl hr
  refine ⟨exclusive, ?_, fun p r' hr => ?_, fun p hp => ?_, fun p r' hr hc => ?_,
    fun p r' hr hl => ?_, fun p r' hr hf => ?_, fun p r' hc hw => ?_, h.once, ?_, h.lawful⟩
  · rintro e ⟨⟩
    exact h.tidy d hd
  · rcases record_ p r' hr with old | ⟨q, fresh, rfl, rfl, rfl⟩
    · exact h.valid p r' old
    · cases identity
      exact ⟨q.plan, claimed_record q, rfl, fun _ => owns⟩
  · rw [entry_put hd] at hp
    split at hp
    · cases hp
    · refine ⟨(h.unwritten p hp).1, fun P => ?_⟩
      rw [recorded_other other]
      exact (h.unwritten p hp).2 P
  · rcases record_ p r' hr with old | ⟨q, fresh, -, rfl, rfl⟩
    · exact h.unstopped p r' old hc
    · exact (h.unwritten _ absent).1
  · rw [recorded_other other]
    rcases record_ p r' hr with old | ⟨q, fresh, -, rfl, rfl⟩
    · exact h.live p r' old hl
    · exact (h.unwritten _ absent).2 _
  · rw [recorded_other other]
    rcases record_ p r' hr with old | ⟨q, fresh, -, rfl, rfl⟩
    · exact h.unfailed p r' old hf
    · exact (h.unwritten _ absent).2 _
  · rw [recorded_other other] at hw
    rw [entry_put hd, if_neg]
    · exact h.settled p r' hc hw
    · rintro rfl
      exact (h.unwritten _ absent).2 _ hw
  · trivial

theorem step_live {u : Update} {p : Plan} {old next : Record} (h : step u p old = .ok next)
    (live : Live next) : Live old ∧ ¬Ending u next := by
  obtain ⟨phase, outcome⟩ := live
  cases u with
  | arm =>
    simp only [step] at h
    split at h
    · next armable =>
      exact ⟨⟨.inl armable.1, armable.2.1⟩, by simp [Ending]⟩
    · cases h
  | prove =>
    simp only [step] at h
    split at h
    · cases h; simp at outcome
    · cases h
  | fail => cases h; simp at outcome
  | restore => cases h; simp at phase
  | finish =>
    simp only [step] at h
    split at h
    · cases h; simp at phase
    · cases h

theorem step_unclaimed {u : Update} {p : Plan} {old next : Record} (h : step u p old = .ok next)
    (claimed : next.phase = .claimed) : old.phase = .claimed := by
  cases u <;> simp only [step] at h
  case fail =>
    cases h
    simp only at claimed
    split at claimed
    · cases claimed
    · exact claimed
  case restore => cases h; cases claimed
  all_goals
    split at h
    · cases h; cases claimed
    · cases h

theorem step_unfailed {u : Update} {p : Plan} {old next : Record} (h : step u p old = .ok next)
    (unfailed : next.outcome ≠ .failed) : old.outcome ≠ .failed := by
  cases u <;> simp only [step] at h
  case fail => cases h; exact absurd rfl unfailed
  case restore =>
    cases h
    rintro failed
    simp [failed] at unfailed
  case prove =>
    split at h
    · next proof => rw [proof.2]; rintro ⟨⟩
    · cases h
  all_goals
    split at h
    · cases h; exact unfailed
    · cases h

/-- An update of an open record. -/
theorem Retention.replace {s : Store} {l : History sha256} {u : Update} {q : Request sha256}
    {fresh : u = .arm → q.Fresh} {d : ConsumedDir} {old next : Record} (h : Retention s l)
    (exclusive : Exclusive { s with consumed := some (d.set q.plan.planId (.record next)) }
      (.did (.failover (.update u q fresh)) (.writeConsumed q.plan.planId next true) true :: l))
    (owns : Held s (ownerOf q.plan)) (hd : s.consumed = some d)
    (entry : d.file q.plan.planId = some (.record old)) (valid : record sha256 old = some q.plan)
    (opened : old.phase ≠ .closed) (moves : step u q.plan old = .ok next) :
    Retention { s with consumed := some (d.set q.plan.planId (.record next)) }
      (.did (.failover (.update u q fresh)) (.writeConsumed q.plan.planId next true) true :: l) := by
  have was : s.entry q.plan.planId = some (.record old) := by simpa [Store.entry, hd] using entry
  have record_ : ∀ p r, Store.entry ⟨s.active, some (d.set q.plan.planId (.record next))⟩ p
      = some (.record r) → (p = q.plan.planId ∧ r = next) ∨
        (p ≠ q.plan.planId ∧ s.entry p = some (.record r)) := by
    intro p r hr
    rw [entry_put hd] at hr
    split at hr
    next same => cases hr; exact .inl ⟨same, rfl⟩
    next differs => exact .inr ⟨differs, hr⟩
  have apart : ∀ {P : Update → Record → Prop} {p : String}, p ≠ q.plan.planId →
      (Recorded P p (.did (.failover (.update u q fresh))
        (.writeConsumed q.plan.planId next true) true :: l) ↔ Recorded P p l) := by
    intro P p differs
    rw [recorded_update]
    exact ⟨fun hw => hw.resolve_left fun here => differs here.1.symm, .inr⟩
  refine ⟨exclusive, ?_, fun p r hr => ?_, fun p hp => ?_, fun p r hr hc => ?_,
    fun p r hr hl => ?_, fun p r hr hf => ?_, fun p r hc hw => ?_, h.once, ?_, h.lawful⟩
  · rintro e ⟨⟩
    exact h.tidy d hd
  · rcases record_ p r hr with ⟨rfl, rfl⟩ | ⟨-, same⟩
    · exact ⟨q.plan, step_record valid opened moves, rfl, fun _ => owns⟩
    · exact h.valid p r same
  · rw [entry_put hd] at hp
    split at hp
    · cases hp
    next differs =>
      exact ⟨(h.unwritten p hp).1, fun P hw => (h.unwritten p hp).2 P ((apart differs).mp hw)⟩
  · rcases record_ p r hr with ⟨rfl, rfl⟩ | ⟨-, same⟩
    · exact h.unstopped _ old was (step_unclaimed moves hc)
    · exact h.unstopped p r same hc
  · rcases record_ p r hr with ⟨rfl, rfl⟩ | ⟨differs, same⟩
    · obtain ⟨before, harmless⟩ := step_live moves hl
      rintro (⟨-, ends⟩ | earlier)
      · exact harmless ends
      · exact h.live _ old was before earlier
    · exact fun hw => h.live p r same hl ((apart differs).mp hw)
  · rcases record_ p r hr with ⟨rfl, rfl⟩ | ⟨differs, same⟩
    · rintro (⟨-, fails⟩ | earlier)
      · exact hf fails
      · exact h.unfailed _ old was (step_unfailed moves hf) earlier
    · exact fun hw => h.unfailed p r same hf ((apart differs).mp hw)
  · rw [entry_put hd]
    split
    next same =>
      subst same
      rcases hw with ⟨-, rfl⟩ | earlier
      · rfl
      · have kept := h.settled _ r hc earlier
        rw [was] at kept
        cases kept
        exact absurd hc opened
    next differs => exact h.settled p r hc ((apart differs).mp hw)
  · trivial

theorem change_retention {who : Caller sha256} {start : Store × History sha256} {o : Op}
    {s t : Store} {l l' : History sha256} (began : Exclusive start.1 start.2) (h : Retention s l)
    (change : Change (fun _ _ _ => False) who start o (s, l) (t, l')) : Retention t l' := by
  have exclusive := change_exclusive (fun _ _ _ h => h.elim) began h.exclusive change
  have owner_of : ∀ {p : String} {r : Record} {plan : Plan} {id : Owner} {n : ℕ},
      plan.planId = p → Held s (ownerOf plan) → s.active = some ⟨some (.owner id), n⟩ →
      id.planId = p := by
    rintro p r plan id n rfl held owns
    rw [Held, owns] at held
    cases held
    rfl
  cases change with
  | quiet still =>
    refine h.frame exclusive rfl (fun p' r' ho => ?_) fun _ _ _ _ _ _ held => held
    subst ho
    simpa [calm] using still
  | interrupted halt => exact halt.elim
  | prepared absent =>
    have none_ : ∀ p, s.entry p = none := fun p => by simp [Store.entry, absent]
    refine ⟨exclusive, by rintro d ⟨⟩; rfl, by rintro p r ⟨⟩, fun p _ => ⟨(h.unwritten p (none_ p)).1,
      fun P => ?_⟩, by rintro p r ⟨⟩, by rintro p r ⟨⟩, by rintro p r ⟨⟩, fun p r hc hw => ?_, h.once,
      trivial, h.lawful⟩
    · rw [recorded_other fun _ _ ho => by cases ho]
      exact (h.unwritten p (none_ p)).2 P
    · rw [recorded_other fun _ _ ho => by cases ho] at hw
      exact ((h.unwritten p (none_ p)).2 _ hw).elim
  | reserved acquires identity free unspent held =>
    refine h.frame exclusive rfl (by rintro p r ⟨⟩) fun p r plan _ _ _ held => ?_
    rw [Held, free] at held
    cases held
  | owned named acquires identity bare unspent held =>
    refine h.frame exclusive rfl (fun p' r' ho => ?_) fun p r plan _ _ _ held => ?_
    · rcases named with rfl | rfl <;> cases ho
    · rw [Held, bare] at held
      cases held
  | spent named acquires identity owns at_ unspent held =>
    exact h.spend exclusive named identity owns at_ unspent
  | replaced by_ owns at_ entry valid host opened moves =>
    subst by_
    exact h.replace exclusive owns at_ entry valid opened moves
  | unlinked releases identity owns settled =>
    refine h.frame exclusive rfl (by rintro p r ⟨⟩) fun p r plan hr hc named held => ?_
    -- the only open record would be the one whose identity is given up
    have same := owner_of (r := r) named held owns
    cases settled with
    | owner entry => rw [same, hr] at entry; cases entry
    | closed entry closed => rw [same, hr] at entry; cases entry; exact absurd closed hc
  | removed releases identity owned bare settled held =>
    refine h.frame exclusive rfl (by rintro p r ⟨⟩) fun p r plan _ _ _ held => ?_
    rw [Held, bare] at held
    cases held

theorem answer_retention {who : Caller sha256} {start : Store × History sha256} {a : Answer}
    {t : Store} {l : History sha256} (began : Retention start.1 start.2) (h : Retention t l)
    (same : answers l = answers start.2) (done : Answered who start (.ok a) (t, l)) :
    Retention t (.answered who a :: l) := by
  have exclusive := answer_exclusive began.exclusive h.exclusive same done
  have lawful : LawfulAnswer (.answered who a) l := by
    cases a with
    | complete => trivial
    | response resp =>
      obtain ⟨shown, -, stop⟩ := done.2 resp rfl
      refine ⟨fun authorized => ?_, fun r hr => ?_⟩
      · obtain ⟨q, fresh, old, who_, host, holds, -, claimed, pending, entry⟩ := stop authorized
        exact ⟨q, fresh, who_, host, h.exclusive.holds holds,
          h.live _ _ entry ⟨.inr rfl, pending⟩⟩
      · obtain ⟨p, valid, entry, -⟩ := shown r hr
        exact ⟨p, valid, fun proven => h.unfailed _ _ entry (by rw [proven]; nofun)⟩
  cases ho : stopOf (who, a) with
  | none =>
    have none_ : stopped (.answered who a :: l) = stopped l := by
      simp only [stopped, answers, List.filterMap_cons, ho]
    exact ⟨exclusive, h.tidy, h.valid, by rw [none_]; exact h.unwritten,
      by rw [none_]; exact h.unstopped, h.live, h.unfailed, h.settled, by rw [none_]; exact h.once,
      lawful, h.lawful⟩
  | some p =>
    have more : stopped (.answered who a :: l) = p :: stopped l := by
      simp only [stopped, answers, List.filterMap_cons, ho]
    -- the plan that is stopped now was claimed and pending when the section began
    have authorized : ∃ old, start.1.entry p = some (.record old) ∧ old.phase = .claimed ∧
        t.entry p = some (.record { old with phase := .armed }) := by
      cases a with
      | complete => cases ho
      | response resp =>
        simp only [stopOf] at ho
        split at ho
        next stops =>
          obtain ⟨q, fresh, old, rfl, -, -, before, claimed, -, after⟩ := (done.2 resp rfl).stop stops
          cases ho
          exact ⟨old, before, claimed, after⟩
        · cases ho
    obtain ⟨old, before, claimed, after⟩ := authorized
    have first : p ∉ stopped l := by
      have := began.unstopped p old before claimed
      simpa only [stopped, same] using this
    refine ⟨exclusive, h.tidy, h.valid, fun p' hp => ⟨?_, (h.unwritten p' hp).2⟩,
      fun p' r hr hc => ?_, h.live, h.unfailed, h.settled, ?_, lawful, h.lawful⟩
    · rw [more]
      rintro (_ | ⟨_, again⟩)
      · rw [after] at hp
        cases hp
      · exact (h.unwritten p' hp).1 again
    · rw [more]
      rintro (_ | ⟨_, again⟩)
      · rw [after] at hr
        cases hr
        cases hc
      · exact h.unstopped p' r hr hc again
    · rw [more]
      exact List.nodup_cons.mpr ⟨first, h.once⟩

/-- An open or held record answers an inspection of its host. -/
theorem inspect_answers {s : Store} {p : String} {r : Record} {plan : Plan}
    (tidy : ∀ d, s.consumed = some d → d.pending = 0) (entry : s.entry p = some (.record r))
    (valid : record sha256 r = some plan) (named : plan.planId = p) (held : Held s (ownerOf plan)) :
    run effect (locked (.inspect r.host (some p) : Call sha256)) s
      = (.ok (.response (result r false false false)), s) := by
  subst named
  obtain ⟨d, hd, file⟩ := Option.bind_eq_some_iff.mp entry
  have nonce : matchesHex 32 (ownerOf plan).nonce = true := plan.nonce_hex
  have own : s.active = some ⟨some (.owner (ownerOf plan)), 0⟩ := held
  have operation : (ownerOf plan).operation = .haproxyFailover := rfl
  simp [locked, makeConsumed, checkConsumed, readActive, checkOwner, selectPlan, dispatch, retained,
    checkRetained, ask, Prog.perform, run, effect, hd, tidy d hd, own, plan.planId_hex, nonce, operation, entry, valid,
    callPlan]

/-- Over every run of guard requests on one host, killed between whole-record writes and
directory operations: a stop is authorized at most once for a plan, to its owner, in its
window, under the exclusion and before any restore, fail or finish; a failed plan is never
shown as proven and a closed record is final; and every retained record is admissible. -/
theorem failover_guard_safety {side : Side}
    {c : Config (Caller sha256) Op Reply Refusal Answer Out Seen Store Side}
    (reach : Reach (system sha256 fun _ _ _ => False) (fun _ _ => True) Store.empty side c) :
    (stopped c.history).Nodup ∧
    (∀ newer who resp older, c.history = newer ++ .answered who (.response resp) :: older →
      resp.stopAuthorized = true → ∃ q fresh, who = .failover (.update .arm q fresh) ∧
        q.host = q.plan.owner ∧ q.Fresh ∧ holders older = [ownerOf q.plan] ∧
        ¬Recorded Ending q.plan.planId older) ∧
    (∀ newer who resp older, c.history = newer ++ .answered who (.response resp) :: older →
      ∀ r ∈ resp.record, ∃ p, record sha256 r = some p ∧
        (r.outcome = .proven → ¬Recorded Failed p.planId older)) ∧
    (∀ p r, r.phase = .closed → Recorded (fun _ r' => r' = r) p c.history →
      c.store.entry p = some (.record r)) ∧
    (∀ p r, c.store.entry p = some (.record r) → ∃ plan, record sha256 r = some plan ∧
      plan.planId = p ∧ (r.phase ≠ .closed →
        run effect (locked (.inspect r.host (some p) : Call sha256)) c.store
          = (.ok (.response (result r false false false)), c.store))) := by
  have h : Retention c.store c.history := reach_invariant (fun _ _ _ h => h.elim)
    (fun who start o s l t l' began hs _ => change_retention began.exclusive hs)
    (fun who start a t l began ht same => answer_retention began ht same)
    ⟨⟨fun _ => rfl, nofun, nofun, List.nodup_nil, trivial⟩, nofun, nofun,
      fun _ _ => ⟨nofun, fun _ hw => hw⟩, nofun, nofun, nofun, fun _ _ _ hw => hw.elim,
      List.nodup_nil, trivial⟩ reach
  refine ⟨h.once, fun newer who resp older heq stop => ?_, fun newer who resp older heq => ?_,
    h.settled, fun p r hr => ?_⟩
  · obtain ⟨q, fresh, who_, host, holds, early⟩ :=
      (always_iff.mp h.lawful newer _ older heq).1 stop
    exact ⟨q, fresh, who_, host, fresh rfl, holds, early⟩
  · exact (always_iff.mp h.lawful newer _ older heq).2
  · obtain ⟨plan, valid, named, held⟩ := h.valid p r hr
    exact ⟨plan, valid, named, fun opened => inspect_answers h.tidy hr valid named (held opened)⟩

def sampleId : String := "0123456789abcdef0123456789abcdef"

def sampleCommit : String := "0123456789abcdef0123456789abcdef01234567"

/-- A plan of an operator for three hosts, sealed by a constant digest. -/
def samplePlan : Json := .obj [
  ("context", .obj [("config_sha", .str sampleCommit), ("environment", .str "prod"),
    ("image", .str ""), ("inventory", .str "inventories/prod"), ("lane", .str "operator"),
    ("pipeline", .str ""), ("plan_job", .str ""), ("private_sha", .str sampleCommit),
    ("project", .str "")]),
  ("created", .int 100), ("digest", .str "sealed"), ("evidence", .obj [("peers", .int 3)]),
  ("expires", .int 1900), ("hosts", .arr [.str "bao-1", .str "bao-2", .str "bao-3"]),
  ("nonce", .str sampleId), ("operation", .str "haproxy-failover"), ("owner", .str "bao-1"),
  ("plan_id", .str sampleId), ("schema", .int 1), ("service", .str "haproxy.service")]

def sampleRequest (host : String) : Json :=
  .obj [("host", .str host), ("nonce", .str sampleId), ("plan", samplePlan)]

/-- A claim and an arm on the owner of a plan: one authorized stop. -/
theorem failover_guard_safety_armed :
    ∃ c : Config (Caller fun _ => "sealed") Op Reply Refusal Answer Out Seen Store Side,
      Reach (system _ fun _ _ _ => False) (fun _ _ => True) Store.empty ⟨false, false, false⟩ c ∧
      stopped c.history = [sampleId] ∧ (stopped c.history).Nodup := by
  let claim : GuardProcess fun _ => "sealed" := failoverGuard .claim (sampleRequest "bao-1")
  let arm : GuardProcess fun _ => "sealed" := failoverGuard (.update .arm) (sampleRequest "bao-1")
  have spawned : Reach (system (fun _ => "sealed") fun _ _ _ => False) (fun _ _ => True) Store.empty
      ⟨false, false, false⟩ ⟨Store.empty, [], ⟨false, false, false⟩, none, [claim, arm]⟩ :=
    (Reach.idle.step (.spawn (Starts.failover _ _))).step (.spawn (Starts.failover _ _))
  have claimed := spawned.alone (h := effect) (g := asideAt 100) (fun _ _ => rfl)
    (fun o _ s => aside_asideAt 100 o s) (fun _ _ => trivial) rfl rfl
  have armed := claimed.alone (h := effect) (g := asideAt 100) (fun _ _ => rfl)
    (fun o _ s => aside_asideAt 100 o s) (fun _ _ => trivial) rfl rfl
  exact ⟨_, armed, by decide +kernel, (failover_guard_safety armed).1⟩

end PlatformConfig.FailoverSafety
