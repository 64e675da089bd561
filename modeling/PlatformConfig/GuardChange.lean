import PlatformConfig.EdgeGuard
import PlatformConfig.FailoverGuard

/-!
# What one step of a guard helper can do

`Change` lists every effect of one operation of a section that began in `start`,
and `Answered` what a section has established when it answers. Both are read off
the programs once; the invariants of the root follow from them.
-/
namespace PlatformConfig.GuardChange

open CanonicalJson GuardPlan CrashProgram CrashLock GuardStore EdgeGuard FailoverGuard Prog

variable {sha256 : List Char → String}

/-- A reply after which the root is as before and no exclusion was taken or given up. -/
def calm : (o : Op) → Reply o → Bool
  | .mkdirActive, made => !made
  | .writeOwner _, done => !done
  | .writeConsumed _ _ _, done => !done
  | .createOwner _, done => !done
  | .createConsumed _ _, done => !done
  | .unlinkOwner, done => !done
  | .rmdirActive, done => !done
  | _, _ => true

/-- `active/` holds exactly the owner file of `id`. -/
def Held (s : Store) (id : Owner) : Prop := s.active = some ⟨some (.owner id), 0⟩

/-- The entry that lets `id` give up the exclusion. -/
inductive Releasable (s : Store) (id : Owner) : Prop
  | owner (entry : s.entry id.planId = some (.owner id))
  | closed {r} (entry : s.entry id.planId = some (.record r)) (closed : r.phase = .closed)

inductive Change (cut : Op → Store → Store → Prop) (who : Caller sha256)
    (start : Store × History sha256) :
    Op → Store × History sha256 → Store × History sha256 → Prop
  | quiet {o r s l} (still : calm o r = true) : Change cut who start o (s, l) (s, .did who o r :: l)
  | interrupted {o s t l} (halt : cut o s t) : Change cut who start o (s, l) (t, l)
  | prepared {s l} (absent : s.consumed = none) : Change cut who start .mkdirConsumed (s, l)
      ({ s with consumed := some ⟨fun _ => none, 0⟩ }, .did who .mkdirConsumed () :: l)
  | reserved {s l id} (acquires : who.acquires = true) (identity : who.identity = some id)
      (free : s.active = none) (unspent : s.entry id.planId = none)
      (held : holders l = holders start.2) :
      Change cut who start .mkdirActive (s, l)
        ({ s with active := some ⟨none, 0⟩ }, .did who .mkdirActive true :: l)
  | owned {o r s l id} (named : o = .writeOwner id ∨ o = .createOwner id)
      (acquires : who.acquires = true) (identity : who.identity = some id)
      (bare : s.active = some ⟨none, 0⟩) (unspent : s.entry id.planId = none)
      (held : holders l = id :: holders start.2) :
      Change cut who start o (s, l)
        ({ s with active := some ⟨some (.owner id), 0⟩ }, .did who o r :: l)
  | spent {o r s l d id c} (named : o = .createConsumed id.planId id ∧ c = .owner id ∨
        ∃ q fresh, who = .failover (.claim q fresh) ∧
          o = .writeConsumed id.planId (claimed q) false ∧ c = .record (claimed q))
      (acquires : who.acquires = true) (identity : who.identity = some id) (owns : Held s id)
      (at_ : s.consumed = some d) (unspent : d.file id.planId = none)
      (held : holders l = id :: holders start.2) (success : HEq r true) :
      Change cut who start o (s, l)
        ({ s with consumed := some (d.set id.planId c) }, .did who o r :: l)
  | replaced {u q fresh s l d old next} (by_ : who = .failover (.update u q fresh))
      (owns : Held s (ownerOf q.plan)) (at_ : s.consumed = some d)
      (entry : d.file q.plan.planId = some (.record old)) (valid : record sha256 old = some q.plan)
      (host : old.host = q.host) (opened : old.phase ≠ .closed)
      (moves : step u q.plan old = .ok next) :
      Change cut who start (.writeConsumed q.plan.planId next true) (s, l)
        ({ s with consumed := some (d.set q.plan.planId (.record next)) },
          .did who (.writeConsumed q.plan.planId next true) true :: l)
  | unlinked {s l id n} (releases : who.releases = true) (identity : who.identity = some id)
      (owns : s.active = some ⟨some (.owner id), n⟩) (settled : Releasable s id) :
      Change cut who start .unlinkOwner (s, l)
        ({ s with active := some ⟨none, n⟩ }, .did who .unlinkOwner true :: l)
  | removed {s l id} (releases : who.releases = true) (identity : who.identity = some id)
      (owned : Held start.1 id) (bare : s.active = some ⟨none, 0⟩) (settled : Releasable s id)
      (held : holders l = holders start.2) :
      Change cut who start .rmdirActive (s, l)
        ({ s with active := none }, .did who .rmdirActive true :: l)

/-- What the response of a failover section says about the root it was given in. -/
structure Responded (who : Caller sha256) (start : Store) (t : Store) (resp : Response) : Prop where
  shown : ∀ r ∈ resp.record, ∃ p, record sha256 r = some p ∧
    t.entry p.planId = some (.record r) ∧ ∀ id ∈ who.identity, id = ownerOf p
  status : resp.status = resp.record.map Record.phase
  stop : resp.stopAuthorized = true → ∃ q fresh old, who = .failover (.update .arm q fresh) ∧
    q.host = q.plan.owner ∧ Held t (ownerOf q.plan) ∧
    start.entry q.plan.planId = some (.record old) ∧ old.phase = .claimed ∧
    old.outcome = .pending ∧ t.entry q.plan.planId = some (.record { old with phase := .armed })

/-- What a section that began in `start` has established when it answers. -/
def Answered (who : Caller sha256) (start : Store × History sha256) :
    Except Refusal Answer → Store × History sha256 → Prop
  | .error _, _ => True
  | .ok a, t =>
    (who.acquires = true → ∃ id, who.identity = some id ∧ start.1.entry id.planId = none ∧
      (t.1.entry id.planId).isSome) ∧
    (∀ resp, a = .response resp → Responded who start.1 t.1 resp)

section Sections
variable {cut : Op → Store → Store → Prop} {who : Caller sha256} {start : Store × History sha256}

/-- The programs that only read: they end with a value as `R` says and change nothing. -/
def Reads (cut : Op → Store → Store → Prop) (who : Caller sha256) (start : Store × History sha256)
    {β : Type} (s : Store) (p : Prog Op Reply Refusal β) (R : β → Prop) : Prop :=
  ∀ l, wp (logged who (interruptible effect cut)) (Change cut who start) p
    (fun out t => match out with
      | .ok a => R a ∧ t.1 = s ∧ holders t.2 = holders l
      | .error _ => True) (s, l)

theorem Reads.ret {β : Type} {s : Store} {a : β} {R : β → Prop} (h : R a) :
    Reads cut who start s (.ret a) R := fun _ => ⟨h, rfl, rfl⟩

theorem Reads.fail {β : Type} {s : Store} {e : Refusal} {R : β → Prop} :
    Reads cut who start s (.fail e) R := fun _ => trivial

theorem Reads.bind {β γ : Type} {s : Store} {p : Prog Op Reply Refusal β}
    {f : β → Prog Op Reply Refusal γ} {R : β → Prop} {R' : γ → Prop}
    (hp : Reads cut who start s p R) (hf : ∀ a, R a → Reads cut who start s (f a) R') :
    Reads cut who start s (p.bind f) R' := by
  intro l
  refine wp_bind.mpr (wp_mono (hp l) (fun _ _ _ h => h) ?_)
  rintro (e | a) ⟨t, l'⟩ h
  · trivial
  · obtain ⟨ha, rfl, hl⟩ := h
    refine wp_mono (hf a ha l') (fun _ _ _ h => h) ?_
    rintro (e | b) t h
    · trivial
    · exact ⟨h.1, h.2.1, h.2.2.trans hl⟩

/-- A section that reads first goes on in the same root. -/
theorem wp_reads {β γ : Type} {s : Store} {l : History sha256} {p : Prog Op Reply Refusal β}
    {f : β → Prog Op Reply Refusal γ} {R : β → Prop}
    {Q : Except Refusal γ → Store × History sha256 → Prop} (hp : Reads cut who start s p R)
    (error : ∀ e t, Q (.error e) t)
    (hf : ∀ a l', R a → holders l' = holders l →
      wp (logged who (interruptible effect cut)) (Change cut who start) (f a) Q (s, l')) :
    wp (logged who (interruptible effect cut)) (Change cut who start) (p.bind f) Q (s, l) := by
  refine wp_bind.mpr (wp_mono (hp l) (fun _ _ _ h => h) ?_)
  rintro (e | a) ⟨t, l'⟩ h
  · exact error e _
  · obtain ⟨ha, rfl, hl⟩ := h
    exact hf a l' ha hl

theorem holders_calm {o : Op} {r : Reply o} (h : calm o r = true) (l : History sha256) :
    holders (.did who o r :: l) = holders l := by
  cases o <;> simp_all [calm, holders]

/-- An operation that leaves the root as it is. -/
theorem Reads.ask {s : Store} {o : Op} (same : (effect o s).2 = s)
    (still : calm o (effect o s).1 = true) (whole : ∀ t, ¬cut o s t) :
    Reads cut who start s (ask o) fun a => a = (effect o s).1 := by
  intro l
  refine wp_logged.mpr ⟨fun t h => (whole t h).elim, ?_, rfl, same, holders_calm still l⟩
  rw [same]
  exact .quiet still

theorem Reads.require {s : Store} {b : Bool} {e : Refusal} :
    Reads cut who start s (require b e) fun _ => b = true := by
  intro l
  cases b
  · trivial
  · exact ⟨rfl, rfl, rfl⟩

section Writes
variable {β : Type} {s : Store} {l : History sha256}
  {Q : Except Refusal β → Store × History sha256 → Prop}

/-- One operation with its reply `r` and the root `t` after it. -/
theorem wp_did {o : Op} {r : Reply o} {t : Store} {k : Reply o → Prog Op Reply Refusal β}
    (answer : effect o s = (r, t)) (step : Change cut who start o (s, l) (t, .did who o r :: l))
    (rest : wp (logged who (interruptible effect cut)) (Change cut who start) (k r) Q
      (t, .did who o r :: l)) :
    wp (logged who (interruptible effect cut)) (Change cut who start) (.call o k) Q (s, l) := by
  refine wp_logged.mpr ⟨fun u h => .interrupted h, ?_, ?_⟩
  · rw [answer]; exact step
  · rw [answer]; exact rest

/-- An operation without effect. -/
theorem wp_calm {o : Op} {r : Reply o} {k : Reply o → Prog Op Reply Refusal β}
    (answer : effect o s = (r, s)) (still : calm o r = true)
    (rest : wp (logged who (interruptible effect cut)) (Change cut who start) (k r) Q
      (s, .did who o r :: l)) :
    wp (logged who (interruptible effect cut)) (Change cut who start) (.call o k) Q (s, l) :=
  wp_did answer (.quiet still) rest

theorem wp_writeRecord {p : String} {r : Record} {replace : Bool} {t : Store}
    {f : Unit → Prog Op Reply Refusal β} (error : ∀ e t, Q (.error e) t)
    (put : s.putEntry p (.record r) replace = some t)
    (step : Change cut who start (.writeConsumed p r replace) (s, l)
      (t, .did who (.writeConsumed p r replace) true :: l))
    (rest : wp (logged who (interruptible effect cut)) (Change cut who start) (f ()) Q
      (t, .did who (.writeConsumed p r replace) true :: l)) :
    wp (logged who (interruptible effect cut)) (Change cut who start)
      ((writeRecord p r replace).bind f) Q (s, l) := by
  simp only [writeRecord, bind_eq]
  rw [bind_assoc, bind_require]
  refine wp_check (fun _ => error _ _) fun _ => ?_
  exact wp_did (by simp [effect, attempt, put]) step rest

theorem wp_prepare {k : Unit → Prog Op Reply Refusal β}
    (next : ∀ t l', t.active = s.active → (∀ p, t.entry p = s.entry p) →
      (∃ d, t.consumed = some d) → holders l' = holders l →
      wp (logged who (interruptible effect cut)) (Change cut who start) (k ()) Q (t, l')) :
    wp (logged who (interruptible effect cut)) (Change cut who start)
      (.call .mkdirConsumed k) Q (s, l) := by
  cases hs : s.consumed with
  | none =>
    refine wp_did (by simp [effect, hs]) (.prepared hs) (next _ _ rfl (fun p => ?_) ⟨_, rfl⟩ rfl)
    simp [Store.entry, hs]
  | some d =>
    exact wp_calm (by simp [effect, hs]) rfl (next _ _ rfl (fun _ => rfl) ⟨d, hs⟩ rfl)

theorem wp_reserve {k : Bool → Prog Op Reply Refusal β} {id : Owner}
    (acquires : who.acquires = true) (identity : who.identity = some id)
    (unspent : s.entry id.planId = none) (held : holders l = holders start.2)
    (refused : ∀ l', wp (logged who (interruptible effect cut)) (Change cut who start)
      (k false) Q (s, l'))
    (next : ∀ l', s.active = none → holders l' = id :: holders start.2 →
      wp (logged who (interruptible effect cut)) (Change cut who start) (k true) Q
        ({ s with active := some ⟨none, 0⟩ }, l')) :
    wp (logged who (interruptible effect cut)) (Change cut who start)
      (.call .mkdirActive k) Q (s, l) := by
  cases hs : s.active with
  | some a => exact wp_calm (by simp [effect, attempt, hs]) rfl (refused _)
  | none =>
    refine wp_did (by simp [effect, attempt, hs]) (.reserved acquires identity hs unspent held)
      (next _ hs ?_)
    simp [holders, identity, held]

/-- Giving up an exclusion that the section found in place when it began. -/
theorem wp_release {k : Bool → Prog Op Reply Refusal β} {id : Owner} {e : Refusal} {n : ℕ}
    (releases : who.releases = true) (identity : who.identity = some id)
    (same : start.1.active = s.active) (owns : s.active = some ⟨some (.owner id), n⟩)
    (settled : Releasable s id) (held : holders l = holders start.2)
    (refused : ∀ t l', wp (logged who (interruptible effect cut)) (Change cut who start)
      (k false) Q (t, l'))
    (next : ∀ l', wp (logged who (interruptible effect cut)) (Change cut who start) (k true) Q
      ({ s with active := none }, l')) :
    wp (logged who (interruptible effect cut)) (Change cut who start)
      (.call .unlinkOwner fun unlinked =>
        if unlinked = true then .call .rmdirActive k else .fail e) Q (s, l) := by
  have settled' : Releasable { s with active := some ⟨none, n⟩ } id := by
    cases settled with
    | owner entry => exact .owner entry
    | closed entry closed => exact .closed entry closed
  refine wp_did (r := true) (by simp [effect, attempt, owns])
    (.unlinked releases identity owns settled) ?_
  cases n with
  | zero =>
    exact wp_did (r := true) (by simp [effect, attempt])
      (.removed releases identity (same.trans owns) rfl settled' (by simpa [holders] using held))
      (next _)
  | succ n => exact wp_calm (r := false) (by simp [effect, attempt]) rfl (refused _ _)

end Writes

theorem acquire_wp (o : Owner) :
    wp (logged (.acquire o) (interruptible effect cut)) (Change cut (.acquire o) start)
      (acquire o) (Answered (.acquire o) start) start := by
  obtain ⟨s, l⟩ := start
  simp only [acquire, ask, perform, bind_eq, bind_call, bind_ret, bind_require, pure_eq]
  refine wp_prepare fun t l₁ active entry ⟨d, hd⟩ held => ?_
  cases found : t.entry o.planId with
  | some c =>
    refine wp_calm (r := some c) (by simp [effect, found]) rfl ?_
    trivial
  | none =>
    refine wp_calm (r := none) (by simp [effect, found]) rfl ?_
    refine wp_reserve rfl rfl found held (fun _ => trivial) fun l₂ free owns => ?_
    refine wp_did (r := true) (by simp [effect, attempt, Store.putOwner])
      (.owned (.inr rfl) rfl rfl rfl found owns) ?_
    have absent : d.file o.planId = none := by simpa [Store.entry, hd] using found
    refine wp_did (r := true) (by simp [effect, attempt, Store.putEntry, hd, absent])
      (.spent (.inl ⟨rfl, rfl⟩) rfl rfl rfl hd absent owns .rfl) ?_
    refine ⟨fun _ => ⟨o, rfl, by rw [← entry, found], ?_⟩, fun resp h => nomatch h⟩
    simp [Store.entry, ConsumedDir.set]

theorem isOwner_iff {o : Owner} {c : Option Content} :
    isOwner o c = true ↔ c = some (.owner o) := by
  rcases c with _ | ⟨o' | r | _⟩ <;> simp [isOwner]

theorem release_wp (o : Owner) :
    wp (logged (.release o) (interruptible effect cut)) (Change cut (.release o) start)
      (release o) (Answered (.release o) start) start := by
  obtain ⟨s, l⟩ := start
  simp only [release, ask, perform, bind_eq, bind_call, bind_ret, bind_require, pure_eq]
  refine wp_calm (r := s.active.map fun a => (a.owner.isSome, a.pending)) rfl rfl ?_
  refine wp_check (fun _ => trivial) fun _ => ?_
  refine wp_calm (r := s.consumed.map (·.pending)) rfl rfl ?_
  refine wp_check (fun _ => trivial) fun _ => ?_
  refine wp_calm (r := s.active.bind (·.owner)) rfl rfl ?_
  refine wp_check (fun _ => trivial) fun owner => ?_
  refine wp_calm (r := s.entry o.planId) rfl rfl ?_
  refine wp_check (fun _ => trivial) fun entry => ?_
  rw [isOwner_iff] at owner entry
  obtain ⟨⟨_, n⟩, active, rfl⟩ := Option.bind_eq_some_iff.mp owner
  refine wp_release rfl rfl rfl active (.owner entry) rfl (fun _ _ => trivial) fun _ => ?_
  rw [if_pos rfl]
  exact ⟨nofun, nofun⟩

/-- The whole entry: the directory is there and holds no temporary names. -/
theorem reads_checkConsumed (whole : ∀ s t, ¬cut .listConsumed s t) (s : Store) :
    Reads cut who start s checkConsumed fun _ => ∃ d, s.consumed = some d ∧ d.pending = 0 := by
  refine (Reads.ask rfl rfl (whole s)).bind fun names hn => ?_
  refine Reads.require.bind fun _ _ => ?_
  intro l
  refine wp_mono (Reads.require l) (fun _ _ _ h => h) ?_
  rintro (e | a) t ⟨clean, same⟩
  · trivial
  refine ⟨?_, same⟩
  subst hn
  obtain ⟨d, hd, hp⟩ := Option.map_eq_some_iff.mp (of_decide_eq_true clean)
  exact ⟨d, hd, hp⟩

/-- What `active/` says: nothing, or a failover owner in a complete directory. -/
def OwnerIs (s : Store) : Option Owner → Prop
  | none => s.active = none
  | some o => Held s o ∧ o.operation = .haproxyFailover

theorem reads_readActive (whole : ∀ s t, ¬cut .listActive s t ∧ ¬cut .readOwner s t) (s : Store) :
    Reads cut who start s readActive (OwnerIs s) := by
  refine (Reads.ask rfl rfl fun t => (whole s t).1).bind fun names hn => ?_
  cases active : s.active with
  | none =>
    obtain rfl : names = none := by simpa [effect, active] using hn
    exact .ret active
  | some a =>
    obtain rfl : names = some (a.owner.isSome, a.pending) := by simpa [effect, active] using hn
    refine Reads.require.bind fun _ full => ?_
    obtain ⟨present, empty⟩ := Prod.mk.inj (of_decide_eq_true full)
    obtain ⟨c, hc⟩ := Option.isSome_iff_exists.mp present
    refine (Reads.ask rfl rfl fun t => (whole s t).2).bind fun content found => ?_
    obtain rfl : content = some c := by simpa [effect, active, hc] using found
    refine Reads.bind (R := fun o => Held s o ∧ o.operation = .haproxyFailover) ?_
      fun o ho => .ret ho
    rcases c with o | r | _
    · refine Reads.require.bind fun _ own => .ret ⟨?_, ?_⟩
      · rw [Held, active, ← hc, ← empty]
      · simp only [Bool.and_eq_true, decide_eq_true_eq] at own
        exact own.1.1
    · exact .fail
    · exact .fail

theorem reads_selectPlan (s : Store) (planId : Option String) (owner : Option Owner) :
    Reads cut who start s (selectPlan planId owner) fun p =>
      (owner = none ∧ p = planId) ∨ ∃ o, owner = some o ∧ p = some o.planId ∧
        (planId = none ∨ planId = some o.planId) := by
  cases owner with
  | none => exact .ret (.inl ⟨rfl, rfl⟩)
  | some o =>
    refine Reads.require.bind fun _ same => .ret (.inr ⟨o, rfl, ?_⟩)
    have chosen := of_decide_eq_true same
    refine ⟨by rw [chosen], ?_⟩
    cases planId with
    | none => exact .inl rfl
    | some p => exact .inr (congrArg some chosen)

/-- The entry of plan `p` is the admissible record `r`, owned or closed. -/
structure Retained (sha256 : List Char → String) (s : Store) (host : String)
    (owner : Option Owner) (r : Record) (p : Plan) : Prop where
  valid : record sha256 r = some p
  entry : s.entry p.planId = some (.record r)
  host : r.host = host
  owned : owner = some (ownerOf p) ∨ owner = none ∧ r.phase = .closed

theorem reads_retained (whole : ∀ s p t, ¬cut (.readConsumed p) s t) (s : Store)
    (inspecting : Bool) (host : String) (planId : Option String) (owner : Option Owner) :
    Reads cut who start s (retained sha256 inspecting host planId owner) fun found =>
      ∀ r p, found = some (r, p) →
        planId = some p.planId ∧ Retained sha256 s host owner r p := by
  have absent : Reads cut who start s
      (if inspecting && owner.isNone then .ret none else .fail missing)
      (fun found : Option (Record × Plan) => ∀ r p, found = some (r, p) →
        planId = some p.planId ∧ Retained sha256 s host owner r p) := by
    split
    · exact .ret nofun
    · exact .fail
  cases planId with
  | none => exact absent
  | some p =>
    refine (Reads.ask rfl rfl (whole s p)).bind fun content found => ?_
    rcases content with _ | ⟨o | r | _⟩
    · exact absent
    · exact .fail
    · refine Reads.bind (R := fun rp => rp.1 = r ∧ p = rp.2.planId ∧
        Retained sha256 s host owner rp.1 rp.2) ?_ ?_
      · unfold checkRetained
        split
        · exact .fail
        next plan valid =>
        refine Reads.require.bind fun _ identity => Reads.require.bind fun _ owned => .ret ?_
        simp only [Bool.and_eq_true, Bool.or_eq_true, decide_eq_true_eq,
          Option.isNone_iff_eq_none] at identity owned
        exact ⟨rfl, identity.1.symm, valid, by rw [identity.1]; exact found.symm, identity.2, owned⟩
      · rintro ⟨r', plan⟩ ⟨-, hp, kept⟩
        refine .ret fun r'' p' h => ?_
        obtain ⟨rfl, rfl⟩ := Prod.mk.inj (Option.some.inj h)
        exact ⟨congrArg some hp, kept⟩
    · exact .fail

theorem claim_wp {q : Request sha256} {fresh : q.Fresh} {s : Store} {l : History sha256}
    {owner : Option Owner} (who_ : who = .failover (.claim q fresh))
    (consumed : ∃ d, s.consumed = some d) (entries : ∀ p, s.entry p = start.1.entry p)
    (held : holders l = holders start.2) :
    wp (logged who (interruptible effect cut)) (Change cut who start) (claim q owner)
      (Answered who start) (s, l) := by
  have acquires : who.acquires = true := by rw [who_]; rfl
  have identity : who.identity = some (ownerOf q.plan) := by rw [who_]; rfl
  obtain ⟨d, hd⟩ := consumed
  simp only [claim, ask, perform, bind_eq, bind_call, bind_ret, bind_require, pure_eq]
  refine wp_calm (r := s.entry q.plan.planId) rfl rfl ?_
  refine wp_check (fun _ => trivial) fun clear => ?_
  simp only [Bool.and_eq_true, Option.isNone_iff_eq_none] at clear
  refine wp_reserve acquires identity clear.2 held (fun _ => trivial) fun l₁ free owns => ?_
  rw [if_pos rfl]
  refine wp_did (r := true) (by simp [effect, attempt, Store.putOwner])
    (.owned (.inl rfl) acquires identity rfl clear.2 owns) ?_
  have absent : d.file q.plan.planId = none := by simpa [Store.entry, hd] using clear.2
  rw [if_pos rfl]
  refine wp_writeRecord (fun _ _ => trivial) (by simp [Store.putEntry, hd, absent])
    (.spent (.inr ⟨q, fresh, who_, rfl, rfl⟩) acquires identity rfl hd absent owns .rfl) ?_
  have written : Store.entry ⟨some ⟨some (.owner (ownerOf q.plan)), 0⟩,
      some (d.set q.plan.planId (.record (claimed q)))⟩ q.plan.planId
      = some (.record (claimed q)) := by simp [Store.entry, ConsumedDir.set]
  refine ⟨fun _ => ⟨_, identity, by rw [← entries]; exact clear.2, ?_⟩, ?_⟩
  · exact Option.isSome_iff_exists.mpr ⟨_, written⟩
  · rintro resp ⟨⟩
    refine ⟨?_, rfl, nofun⟩
    rintro r ⟨⟩
    refine ⟨q.plan, claimed_record q, written, ?_⟩
    rw [identity]
    rintro id ⟨⟩
    rfl

theorem conclude_wp {u : Update} {q : Request sha256} {fresh : u = .arm → q.Fresh} {s : Store}
    {l : History sha256} {owner : Option Owner} {r : Record} {changed : Bool}
    (who_ : who = .failover (.update u q fresh)) (valid : record sha256 r = some q.plan)
    (entry : s.entry q.plan.planId = some (.record r)) (same : start.1.active = s.active)
    (owned : ∀ o, owner = some o → o = ownerOf q.plan ∧ Held s o)
    (done : u = .finish → r.phase = .closed) (held : holders l = holders start.2)
    (armed : u = .arm → ∃ old, q.host = q.plan.owner ∧ Held s (ownerOf q.plan) ∧
      start.1.entry q.plan.planId = some (.record old) ∧ old.phase = .claimed ∧
      old.outcome = .pending ∧ r = { old with phase := .armed }) :
    wp (logged who (interruptible effect cut)) (Change cut who start) (conclude u owner r changed)
      (Answered who start) (s, l) := by
  have shown : ∀ r' ∈ some r, ∃ p, record sha256 r' = some p ∧
      s.entry p.planId = some (.record r') ∧ ∀ id ∈ who.identity, id = ownerOf p := by
    rintro r' ⟨⟩
    refine ⟨q.plan, valid, entry, ?_⟩
    rw [who_]
    rintro id ⟨⟩
    rfl
  unfold conclude
  split_ifs with finishing
  · obtain ⟨rfl, present⟩ := finishing
    obtain ⟨o, rfl⟩ := Option.isSome_iff_exists.mp present
    obtain ⟨rfl, holds⟩ := owned o rfl
    simp only [ask, perform, bind_eq, bind_call, bind_ret, bind_require, pure_eq]
    refine wp_release (by rw [who_]; rfl) (by rw [who_]; rfl) same holds
      (.closed entry (done rfl)) held (fun _ _ => trivial) fun _ => ?_
    rw [if_pos rfl]
    refine ⟨by rw [who_]; nofun, ?_⟩
    rintro resp ⟨⟩
    exact ⟨shown, rfl, nofun⟩
  · refine ⟨by rw [who_]; nofun, ?_⟩
    rintro resp ⟨⟩
    refine ⟨shown, rfl, fun stop => ?_⟩
    obtain rfl : u = .arm := of_decide_eq_true stop
    obtain ⟨old, host, holds, before, phase, outcome, rfl⟩ := armed rfl
    exact ⟨q, fresh, old, who_, host, holds, before, phase, outcome, entry⟩

theorem update_wp {u : Update} {q : Request sha256} {fresh : u = .arm → q.Fresh}
    {l : History sha256} {owner : Option Owner} {r : Record} {p : Plan}
    (who_ : who = .failover (.update u q fresh)) (consumed : ∃ d, start.1.consumed = some d)
    (owner_ : OwnerIs start.1 owner) (kept : Retained sha256 start.1 q.host owner r p)
    (held : holders l = holders start.2) :
    wp (logged who (interruptible effect cut)) (Change cut who start) (update u q owner r p)
      (Answered who start) (start.1, l) := by
  obtain ⟨d, hd⟩ := consumed
  obtain ⟨valid, entry, host, owned⟩ := kept
  simp only [update, bind_eq, bind_require]
  refine wp_check (fun _ => trivial) fun exact_ => ?_
  have same := (Bool.and_eq_true_iff.mp exact_).1
  obtain rfl : q.plan = p :=
    validatePlan_canonical q.valid (record_iff.mp valid).1 (of_decide_eq_true same)
  have owner_is : ∀ o, owner = some o → o = ownerOf q.plan ∧ Held start.1 o := by
    rintro o rfl
    refine ⟨?_, owner_.1⟩
    rcases owned with h | ⟨h, -⟩
    · exact Option.some.inj h
    · cases h
  split
  next closed =>
    -- a closed record is only verified, and released where a finish was interrupted
    refine wp_check (fun _ => trivial) fun known => ?_
    refine conclude_wp who_ valid entry rfl owner_is (fun _ => closed) held fun arm => ?_
    subst arm
    simp at known
  next closed =>
    obtain rfl : owner = some (ownerOf q.plan) := by
      rcases owned with h | ⟨-, h⟩
      · exact h
      · exact absurd h closed
    cases moves : step u q.plan r with
    | error e => trivial
    | ok next =>
      refine wp_check (fun _ => trivial) fun _ => ?_
      have found : d.file q.plan.planId = some (.record r) := by
        simpa [Store.entry, hd] using entry
      refine wp_writeRecord (fun _ _ => trivial) (by simp [Store.putEntry, hd, found])
        (.replaced who_ owner_.1 hd found valid host closed moves) ?_
      refine conclude_wp who_ (step_record valid closed moves)
        (by simp [Store.entry, ConsumedDir.set]) rfl owner_is ?_ held ?_
      · rintro rfl
        simp only [step] at moves
        split at moves
        · cases moves; rfl
        · cases moves
      · rintro rfl
        simp only [step] at moves
        split at moves
        · next armable =>
          cases moves
          exact ⟨r, host ▸ armable.2.2, owner_.1, entry, armable.1, armable.2.1, rfl⟩
        · cases moves

/-- Every step of a failover section is a `Change`, and it ends as `Answered` says. -/
theorem locked_wp (hcut : ∀ o s t, cut o s t → Residue o s t) (c : Call sha256) :
    wp (logged (.failover c) (interruptible effect cut)) (Change cut (.failover c) start)
      (locked c) (Answered (.failover c) start) start := by
  obtain ⟨s, l⟩ := start
  have error : ∀ e t, Answered (.failover c) (s, l) (.error e) t := fun _ _ => trivial
  have after : ∀ t l', t.active = s.active → (∀ p, t.entry p = s.entry p) →
      (¬(∃ q fresh, c = .claim q fresh) → t = s) → holders l' = holders l →
      wp (logged (.failover c) (interruptible effect cut)) (Change cut (.failover c) (s, l))
        (checkConsumed.bind fun _ => readActive.bind fun owner =>
          (selectPlan (callPlan c) owner).bind fun planId => dispatch owner planId c)
        (Answered (.failover c) (s, l)) (t, l') := by
    intro t l' active entries same held
    refine wp_reads (reads_checkConsumed (fun s t h => nomatch hcut _ _ _ h) t) error
      fun _ l₁ ⟨d, hd, _⟩ held₁ => ?_
    refine wp_reads (reads_readActive (fun s t => ⟨fun h => (nomatch hcut _ _ _ h),
      fun h => (nomatch hcut _ _ _ h)⟩) t) error fun owner l₂ owner_ held₂ => ?_
    refine wp_reads (reads_selectPlan t _ _) error fun planId l₃ chosen held₃ => ?_
    have hold : holders l₃ = holders l := held₃.trans (held₂.trans (held₁.trans held))
    have reads := fun inspecting host => @reads_retained _ cut (.failover c) (s, l)
      (fun s p t h => nomatch hcut _ _ _ h) t inspecting host planId owner
    cases c with
    | claim q fresh => exact claim_wp rfl ⟨d, hd⟩ entries hold
    | inspect host wanted =>
      refine wp_reads (reads true host) error fun found l₄ kept held₄ => ?_
      refine ⟨nofun, ?_⟩
      rintro resp ⟨⟩
      cases found with
      | none => exact ⟨nofun, rfl, nofun⟩
      | some rp =>
        obtain ⟨r, p⟩ := rp
        obtain ⟨-, valid, entry, -, -⟩ := kept r p rfl
        exact ⟨by rintro r' ⟨⟩; exact ⟨p, valid, entry, nofun⟩, rfl, nofun⟩
    | update u q fresh =>
      refine wp_reads (reads false q.host) error fun found l₄ kept held₄ => ?_
      cases found with
      | none => trivial
      | some rp =>
        obtain ⟨r, p⟩ := rp
        obtain rfl : t = s := same nofun
        exact @update_wp _ _ _ (t, l) _ _ _ _ _ _ _ rfl ⟨d, hd⟩ owner_ (kept r p rfl).2 (held₄.trans hold)
  unfold locked
  cases c with
  | claim q fresh =>
    exact wp_prepare fun t l' active entries _ held =>
      after t l' active entries (fun h => (h ⟨q, fresh, rfl⟩).elim) held
  | inspect host wanted => exact after s l rfl (fun _ => rfl) (fun _ => rfl) rfl
  | update u q fresh => exact after s l rfl (fun _ => rfl) (fun _ => rfl) rfl

end Sections

end PlatformConfig.GuardChange
