import PlatformConfig.SharedGuard

/-!
# Inspection of a host with no transaction

`inspect` of the failover guard, alone on a host. Acquisitions and claims make the parent, the
root, the mutex and `consumed/` one after another before they reserve `active/`, and a kill can
leave any beginning of that sequence.
-/
namespace PlatformConfig.GuardInspect

open CanonicalJson GuardPlan CrashProgram CrashLock GuardStore FailoverGuard GuardChange SharedGuard Prog

variable {sha256 : List Char → String} {host : String} {side : Side} {s : Store}

/-- `guard` for an accepted inspection: a missing parent or root is answered before the lock. -/
def inspectHost (sha256 : List Char → String) (c : Call sha256) (side : Side) (s : Store) :
    Except Refusal Answer :=
  if !side.parent || !side.root then .ok (.response absent)
  else if !side.mutex then .error .os
  else (run effect (locked c) s).1

/-- `guard` for the action inspect. -/
def inspect (sha256 : List Char → String) (request : Json) (side : Side) (s : Store) :
    Except Refusal Answer :=
  match acceptInspect request with
  | none => .error (.value "inspect accepts only host and optional plan_id")
  | some c => inspectHost sha256 c side s

/-- A request that names a host and no plan. -/
def hostRequest (host : String) : Json := .obj [("host", .str host)]

lemma acceptInspect_hostRequest (named : matchesHost host = true) :
    acceptInspect (hostRequest host) = some (.inspect host none : Call sha256) := by
  simp [acceptInspect, hostRequest, Json.get?, Json.str?, Json.keys?, named]

/-- What the locked section answers where nothing holds `active/`. -/
lemma locked_inspect (released : s.active = none) :
    (run effect (locked (.inspect host none : Call sha256)) s).1 =
      match s.consumed with
      | none => .error .os
      | some d => if d.pending = 0 then .ok (.response absent)
        else .error (.value "incomplete or unknown consumption records; retained") := by
  obtain ⟨active, consumed⟩ := s
  subst released
  cases consumed with
  | none => rfl
  | some d =>
    by_cases clean : d.pending = 0
    · simp [locked, makeConsumed, checkConsumed, readActive, dispatch, callPlan, ask, perform, bind_require,
        run, effect, clean, selectPlan, retained]
    · simp [locked, makeConsumed, checkConsumed, ask, perform, bind_require, run, effect, clean]

lemma run_recording (who : Caller sha256) {β : Type} (p : Prog Op Reply Refusal β) (s : Store)
    (l : History sha256) : (run (recording who effect) p (s, l)).1 = (run effect p s).1 := by
  induction p generalizing s l with
  | ret a => rfl
  | fail e => rfl
  | call o k ih => exact ih _ _ _

lemma acceptInspect_inspect {request : Json} {c : Call sha256} (accepted : acceptInspect request = some c) :
    ∃ host planId, c = .inspect host planId := by
  simp only [acceptInspect, Option.bind_eq_bind, Option.bind_eq_some_iff] at accepted
  obtain ⟨host, -, accepted⟩ := accepted
  split_ifs at accepted
  · exact ⟨host, none, (Option.some.inj accepted).symm⟩
  · split at accepted
    · exact ⟨host, none, (Option.some.inj accepted).symm⟩
    · split_ifs at accepted
      exact ⟨host, _, (Option.some.inj accepted).symm⟩
    · cases accepted

/-- Where the mutex is there, inspection answers what the helper's process answers alone. -/
theorem inspect_process {request : Json} {c : Call sha256} {a : Answer} {now : ℤ}
    {l : History sha256} (accepted : acceptInspect request = some c)
    (answered : inspect sha256 request ⟨true, true, true⟩ s = .ok a) :
    ∃ l', (alone effect (asideAt now) (failoverGuard .inspect request) (s, l) ⟨true, true, true⟩).1.2 =
      .answered (.failover c) a :: l' := by
  obtain ⟨host, planId, rfl⟩ := acceptInspect_inspect accepted
  rw [inspect, accepted] at answered
  have same := (run_recording (.failover (.inspect host planId))
    (locked (.inspect host planId)) s l).trans answered
  have process : failoverGuard .inspect request = (.outside .clock fun _ =>
      openRoot false false (.failover (.inspect host planId))
        (locked (.inspect host planId : Call sha256)) :
        GuardProcess sha256) := by
    simp only [failoverGuard, accept, accepted, creates]
  rw [process]
  change ∃ l', (alone effect (asideAt now) (.locked (.failover (.inspect host planId))
    (locked (.inspect host planId)) fun _ => .stop) (s, l) ⟨true, true, true⟩).1.2 = _
  rcases ended : run (recording (.failover (.inspect host planId)) effect)
    (locked (.inspect host planId)) (s, l) with ⟨out, p'⟩
  rw [ended] at same
  obtain rfl : out = .ok a := same
  exact ⟨p'.2, by rw [alone, ended]; rfl⟩

/-- No temporary name stands in `consumed/`. -/
def Tidy (s : Store) : Prop := ∀ d, s.consumed = some d → d.pending = 0

/-- The helpers with kills between two steps only. -/
abbrev stepwise (sha256 : List Char → String) := system sha256 fun _ _ _ => False

lemma change_tidy {who : Caller sha256} {start : Store × History sha256} {o : Op} {s t : Store}
    {l l' : History sha256} (h : Tidy s)
    (change : Change (fun _ _ _ => False) who start o (s, l) (t, l')) : Tidy t := by
  cases change with
  | quiet still => exact h
  | interrupted halt => exact halt.elim
  | prepared absent =>
    rintro d ⟨⟩
    rfl
  | reserved acquires identity free unspent held => exact h
  | owned named acquires identity bare unspent held => exact h
  | spent named acquires identity owns at_ unspent held success =>
    rintro d ⟨⟩
    exact (h _ at_ :)
  | replaced by_ owns at_ entry valid host opened moves =>
    rintro d ⟨⟩
    exact (h _ at_ :)
  | unlinked releases identity owns settled => exact h
  | removed releases identity owned bare settled held => exact h

lemma reach_tidy {c : Config (Caller sha256) Op Reply Refusal Answer Out Seen Store Side}
    (reach : Reach (stepwise sha256) (fun _ _ => True) Store.empty side c) : Tidy c.store :=
  reach_invariant (I := fun s _ => Tidy s) (fun _ _ _ h => h.elim)
    (fun who start o s l t l' _ tidy _ change => change_tidy tidy change)
    (fun _ _ _ _ _ _ tidy _ _ => tidy) (by rintro d ⟨⟩) reach

/-- On a host that edge and failover helpers left without a transaction, killed between any two
steps or ended, inspection answers that there is none if and only if the root was not made yet, or
both the mutex and `consumed/` were. -/
theorem inspect_absent_iff {c : Config (Caller sha256) Op Reply Refusal Answer Out Seen Store Side}
    (reach : Reach (stepwise sha256) (fun _ _ => True) Store.empty side c)
    (released : c.store.active = none) (named : matchesHost host = true) :
    inspect sha256 (hostRequest host) c.side c.store = .ok (.response absent) ↔
      (c.side.parent = true → c.side.root = true →
        c.side.mutex = true ∧ c.store.consumed.isSome = true) := by
  simp only [inspect, acceptInspect_hostRequest named, inspectHost, locked_inspect released]
  have tidy := reach_tidy reach
  cases c.side.parent with
  | false => simp
  | true =>
    cases c.side.root with
    | false => simp
    | true =>
      cases c.side.mutex with
      | false => simp
      | true =>
        cases consumed : c.store.consumed with
        | none => simp
        | some d => simp [tidy d consumed]

/-- An acquisition on a fresh host that is killed once it made the root. -/
def sampleKilled : Config (Caller fun _ => "") Op Reply Refusal Answer Out Seen Store Side :=
  ⟨Store.empty, [], ⟨true, true, false⟩, none, []⟩

lemma sampleKilled_reached : Reach (stepwise fun _ => "") (fun _ _ => True) Store.empty
    ⟨false, false, false⟩ sampleKilled := by
  have allowed : edgeGuard true sampleOwner = (openRoot true true (.acquire sampleOwner)
      (EdgeGuard.acquire sampleOwner) : GuardProcess fun _ => "") :=
    if_pos (by decide)
  have spawned : Reach (stepwise fun _ => "") (fun _ _ => True) Store.empty ⟨false, false, false⟩
      ⟨Store.empty, [], ⟨false, false, false⟩, none, [edgeGuard true sampleOwner]⟩ :=
    Reach.idle.step (.spawn (.edge true sampleOwner))
  rw [allowed] at spawned
  have looked := spawned.step (.outside (l := []) rfl (⟨rfl, rfl⟩ : Aside .parent _ false _))
  have parent := looked.step (.outside (l := []) rfl (⟨rfl, rfl⟩ : Aside .mkdirParent _ true _))
  have root := parent.step (.outside (l := []) rfl (⟨rfl, rfl⟩ : Aside .mkdirRoot _ true _))
  exact root.step (.abandon (l := []) rfl)

/-- After an acquisition that was killed between making the root and making the mutex, inspection
fails. -/
theorem inspect_fails_without_mutex : ¬∀ (side : Side)
    (c : Config (Caller fun _ => "") Op Reply Refusal Answer Out Seen Store Side),
    Reach (stepwise fun _ => "") (fun _ _ => True) Store.empty side c → c.store.active = none →
    inspect (fun _ => "") (hostRequest "bao-1") c.side c.store = .ok (.response absent) := by
  intro answers
  have answered := answers _ _ sampleKilled_reached rfl
  have failed : inspect (fun _ => "") (hostRequest "bao-1") sampleKilled.side sampleKilled.store =
      .error .os := by
    simp only [inspect, acceptInspect_hostRequest (by decide : matchesHost "bao-1" = true)]
    rfl
  rw [failed] at answered
  cases answered

/-- A fresh host answers that there is no transaction. -/
theorem inspect_fresh_host : inspect (fun _ => "") (hostRequest "bao-1") ⟨false, false, false⟩
    Store.empty = .ok (.response absent) :=
  (inspect_absent_iff (c := ⟨Store.empty, [], ⟨false, false, false⟩, none, []⟩) .idle rfl
    (by decide)).mpr (by simp)

end PlatformConfig.GuardInspect
