import PlatformConfig.GuardChange

/-!
# Two guard helpers over one root

Any number of edge and failover helpers run on one host. Outside the mutex they
prepare the parent, the root and the mutex file; the sections under it are those
of the two helpers. At most one identity holds the exclusion, and a plan is
acquired at most once.
-/
namespace PlatformConfig.SharedGuard

open CanonicalJson GuardPlan CrashProgram CrashLock GuardStore EdgeGuard FailoverGuard GuardChange

variable {sha256 : List Char → String}

/-- The entries that exist before the mutex is held. -/
structure Side where
  parent : Bool
  root : Bool
  mutex : Bool

inductive Out
  | clock
  | parent
  | mkdirParent
  | root
  | mkdirRoot
  | openMutex (create : Bool)

abbrev Seen : Out → Type
  | .clock => ℤ
  | _ => Bool

/-- What an action outside the mutex sees and leaves. -/
def Aside : (o : Out) → Side → Seen o → Side → Prop
  | .clock, s, _, t => t = s
  | .parent, s, a, t => a = s.parent ∧ t = s
  | .mkdirParent, s, a, t => a = !s.parent ∧ t = { s with parent := true }
  | .root, s, a, t => a = s.root ∧ t = s
  | .mkdirRoot, s, a, t => a = s.parent ∧ t = { s with root := s.root || s.parent }
  | .openMutex create, s, a, t =>
    a = (s.root && (s.mutex || create)) ∧ t = { s with mutex := s.mutex || (s.root && create) }

abbrev GuardProcess (sha256 : List Char → String) :=
  Process (Caller sha256) Op Reply Refusal Answer Out Seen

/-- Open the mutex, wait for the lock and run the section. -/
def underMutex (create : Bool) (who : Caller sha256) (body : Section) : GuardProcess sha256 :=
  .outside (.openMutex create) fun opened =>
    if opened then .locked who body fun _ => .stop else .stop

/-- The ancestors and the root: made by a helper that creates them, else required. -/
def openRoot (create createMutex : Bool) (who : Caller sha256) (body : Section) :
    GuardProcess sha256 :=
  let below : GuardProcess sha256 :=
    if create then
      .outside .mkdirRoot fun made => if made then underMutex createMutex who body else .stop
    else .outside .root fun present => if present then underMutex createMutex who body else .stop
  .outside .parent fun present =>
    if present then below
    else if create then .outside .mkdirParent fun made => if made then below else .stop
    else .stop

/-- One invocation of the edge helper. -/
def edgeGuard (acquiring : Bool) (o : Owner) : GuardProcess sha256 :=
  if o.operation ≠ .haproxyFailover ∧ matchesHex 32 o.planId ∧ matchesHex 32 o.nonce then
    if acquiring then openRoot true true (.acquire o) (acquire o)
    else openRoot false true (.release o) (release o)
  else .stop

def creates : Call sha256 → Bool
  | .claim _ _ => true
  | _ => false

/-- One invocation of the failover helper. -/
def failoverGuard (action : Action) (request : Json) : GuardProcess sha256 :=
  .outside .clock fun now =>
    match accept sha256 action request now with
    | none => .stop
    | some c => openRoot (creates c) (creates c) (.failover c) (locked c)

inductive Starts : GuardProcess sha256 → Prop
  | edge (acquiring o) : Starts (edgeGuard acquiring o)
  | failover (action request) : Starts (failoverGuard action request)

/-- Both helpers on one host, with the kills inside a write that `cut` allows. -/
def system (sha256 : List Char → String) (cut : Op → Store → Store → Prop) :
    System (Caller sha256) Op Reply Refusal Answer Out Seen Store Side where
  inside := interruptible effect cut
  aside o _ := Aside o
  start := Starts

/-- The section of a caller. -/
def body : Caller sha256 → Section
  | .acquire o => acquire o
  | .release o => release o
  | .failover c => locked c

/-- What one action outside the mutex does on a host whose clock reads `now`. -/
def asideAt (now : ℤ) : (o : Out) → Side → Seen o × Side
  | .clock, s => (now, s)
  | .parent, s => (s.parent, s)
  | .mkdirParent, s => (!s.parent, { s with parent := true })
  | .root, s => (s.root, s)
  | .mkdirRoot, s => (s.parent, { s with root := s.root || s.parent })
  | .openMutex create, s =>
    (s.root && (s.mutex || create), { s with mutex := s.mutex || (s.root && create) })

theorem aside_asideAt (now : ℤ) (o : Out) (s : Side) : Aside o s (asideAt now o s).1
    (asideAt now o s).2 := by
  cases o <;> first | rfl | exact ⟨rfl, rfl⟩

theorem sections_openRoot {P : Caller sha256 → Section → Prop} {create createMutex : Bool}
    {who : Caller sha256} {p : Section} (h : P who p) :
    (openRoot create createMutex who p).Sections P := by
  have mutex : (underMutex createMutex who p).Sections P := by
    intro opened
    cases opened
    · trivial
    · exact ⟨h, fun _ => trivial⟩
  have below : (if create then (.outside .mkdirRoot fun made =>
        if made then underMutex createMutex who p else .stop : GuardProcess sha256)
      else .outside .root fun present =>
        if present then underMutex createMutex who p else .stop).Sections P := by
    cases create <;> intro present <;> cases present
    · trivial
    · exact mutex
    · trivial
    · exact mutex
  intro present
  cases present with
  | true => exact below
  | false =>
    cases create with
    | false => trivial
    | true =>
      intro made
      cases made
      · trivial
      · exact below

/-- Every section of every invocation is the body of its caller. -/
theorem sections_starts {P : Caller sha256 → Section → Prop} (h : ∀ who, P who (body who))
    {p : GuardProcess sha256} (start : Starts p) : p.Sections P := by
  cases start with
  | edge acquiring o =>
    unfold edgeGuard
    split_ifs
    · exact sections_openRoot (h (.acquire o))
    · exact sections_openRoot (h (.release o))
    · trivial
  | failover action request =>
    intro now
    show Process.Sections P (match accept sha256 action request now with
      | none => .stop
      | some c => openRoot (creates c) (creates c) (.failover c) (locked c))
    cases accept sha256 action request now with
    | none => trivial
    | some c => exact sections_openRoot (h (.failover c))

theorem body_wp {cut : Op → Store → Store → Prop} (hcut : ∀ o s t, cut o s t → Residue o s t)
    (who : Caller sha256) (start : Store × History sha256) :
    wp (logged who (interruptible effect cut)) (Change cut who start) (body who)
      (Answered who start) start := by
  cases who with
  | acquire o => exact acquire_wp o
  | release o => exact release_wp o
  | failover c => exact locked_wp hcut c

/-- An invariant that each `Change` keeps and each answer restores holds in every
interleaving of both helpers. -/
theorem reach_invariant {cut : Op → Store → Store → Prop}
    (hcut : ∀ o s t, cut o s t → Residue o s t) {I : Store → History sha256 → Prop}
    (change : ∀ who start o s l t l', I start.1 start.2 → I s l →
      answers l = answers start.2 → Change cut who start o (s, l) (t, l') → I t l')
    (answer : ∀ who start a t l, I start.1 start.2 → I t l → answers l = answers start.2 →
      Answered who start (.ok a) (t, l) → I t (.answered who a :: l))
    (initial : I Store.empty []) {side : Side}
    {c : Config (Caller sha256) Op Reply Refusal Answer Out Seen Store Side}
    (reach : Reach (system sha256 cut) (fun _ _ => True) Store.empty side c) :
    I c.store c.history := by
  refine reach.invariant (fun p start => sections_starts (fun who s l hI _ => ?_) start) initial
  have safe := wp_invariant (I := fun p => I p.1 p.2 ∧ answers p.2 = answers l)
    (fun o p p' hp hstep => ?_) ⟨hI, rfl⟩ (body_wp hcut who (s, l))
  · refine wp_mono safe (fun _ _ _ h => h.1) ?_
    rintro (e | a) ⟨t, l'⟩ ⟨hans, hI', same⟩
    · exact hI'
    · exact answer who (s, l) a t l' hI hI' same hans
  · obtain ⟨p, l₁⟩ := p
    obtain ⟨p', l₂⟩ := p'
    refine ⟨change who (s, l) o p l₁ p' l₂ hI hp.1 hp.2 hstep, ?_⟩
    rw [← hp.2]
    cases hstep <;> rfl

/-- What the root, seen after an event, must say about it. -/
def Lawful : Event (Caller sha256) Op Reply Answer → History sha256 → Prop
  | .did who .rmdirActive true, l =>
    who.releases = true ∧ ∃ id, who.identity = some id ∧ holders l = [id]
  | .answered who (.response resp), l => resp.stopAuthorized = true →
    ∃ q fresh, who = .failover (.update .arm q fresh) ∧ holders l = [ownerOf q.plan]
  | _, _ => True

/-- The exclusion belongs to one identity, and acquired plans stay consumed. -/
structure Exclusive (s : Store) (l : History sha256) : Prop where
  free : s.active = none → holders l = []
  held : ∀ a, s.active = some a → ∃ id, holders l = [id] ∧
    ∀ c, a.owner = some c → c = .owner id ∨ c = .torn
  spent : ∀ p ∈ acquired l, (s.entry p).isSome = true
  once : (acquired l).Nodup
  lawful : Always Lawful l

theorem Exclusive.holds {s : Store} {l : History sha256} {id : Owner} {n : ℕ}
    (h : Exclusive s l) (owns : s.active = some ⟨some (.owner id), n⟩) : holders l = [id] := by
  obtain ⟨id', hl, named⟩ := h.held _ owns
  rcases named _ rfl with same | torn
  · cases same; exact hl
  · cases torn

theorem acquired_did {who : Caller sha256} {o : Op} {r : Reply o} (l : History sha256) :
    acquired (.did who o r :: l) = acquired l := rfl

theorem acquired_answered (who : Caller sha256) (a : Answer) (l : History sha256) :
    acquired (.answered who a :: l) = (if who.acquires then who.identity.map Owner.planId
      else none).toList ++ acquired l := by
  simp only [acquired, answers, List.filterMap_cons]
  cases (if who.acquires then who.identity.map Owner.planId else none) <;> rfl

/-- A written entry is added to the others. -/
theorem entry_set {s : Store} {d : ConsumedDir} (hd : s.consumed = some d) (p : String)
    (c : Content) (a : Option ActiveDir) {p' : String} (h : (s.entry p').isSome = true) :
    (Store.entry ⟨a, some (d.set p c)⟩ p').isSome = true := by
  simp only [Store.entry, hd, Option.bind_some, ConsumedDir.set] at h ⊢
  by_cases same : p' = p
  · subst same; simp
  · simpa [Function.update_of_ne same] using h

theorem change_exclusive {cut : Op → Store → Store → Prop}
    (hcut : ∀ o s t, cut o s t → Residue o s t) {who : Caller sha256}
    {start : Store × History sha256} {o : Op} {s t : Store} {l l' : History sha256}
    (began : Exclusive start.1 start.2) (h : Exclusive s l)
    (change : Change cut who start o (s, l) (t, l')) : Exclusive t l' := by
  cases change with
  | @quiet _ r _ _ still =>
    have same : holders (.did who o r :: l) = holders l := holders_calm still l
    refine ⟨fun free => same.trans (h.free free), fun a ha => ?_, h.spent, h.once, ?_, h.lawful⟩
    · rw [same]; exact h.held a ha
    · cases o <;> simp_all [Lawful, calm]
  | interrupted halt =>
    cases hcut _ _ _ halt with
    | owner at_ =>
      obtain ⟨id, hl, named⟩ := h.held _ at_
      exact ⟨by rintro ⟨⟩, by rintro a ⟨⟩; exact ⟨id, hl, named⟩, h.spent, h.once, h.lawful⟩
    | entry at_ =>
      refine ⟨h.free, h.held, fun p hp => ?_, h.once, h.lawful⟩
      simpa [Store.entry, at_] using h.spent p hp
    | tornOwner put =>
      unfold Store.putOwner at put
      split at put
      next n active =>
        cases put
        obtain ⟨id, hl, -⟩ := h.held _ active
        refine ⟨by rintro ⟨⟩, ?_, h.spent, h.once, h.lawful⟩
        rintro a ⟨⟩
        exact ⟨id, hl, by rintro c ⟨⟩; exact .inr rfl⟩
      · cases put
    | tornEntry put =>
      unfold Store.putEntry at put
      split at put
      next d hd =>
        split at put
        · cases put
          exact ⟨h.free, h.held, fun p hp => entry_set hd _ _ _ (h.spent p hp), h.once, h.lawful⟩
        · cases put
      · cases put
  | prepared absent =>
    refine ⟨h.free, h.held, fun p hp => ?_, h.once, trivial, h.lawful⟩
    have := h.spent p hp
    simp [Store.entry, absent] at this
  | @reserved _ _ id acquires identity free unspent held =>
    have taken : holders (.did who .mkdirActive true :: l) = [id] := by
      simp [holders, identity, h.free free]
    refine ⟨by rintro ⟨⟩, ?_, h.spent, h.once, trivial, h.lawful⟩
    rintro a ⟨⟩
    exact ⟨id, taken, by rintro c ⟨⟩⟩
  | @owned _ r _ _ id named acquires identity bare unspent held =>
    obtain ⟨id', hl, -⟩ := h.held _ bare
    obtain ⟨rfl, -⟩ := List.cons.inj (held.symm.trans hl)
    have same : holders (.did who o r :: l) = [id] := by
      rcases named with rfl | rfl <;> exact hl
    refine ⟨by rintro ⟨⟩, ?_, h.spent, h.once, ?_, h.lawful⟩
    · rintro a ⟨⟩
      exact ⟨id, same, by rintro c ⟨⟩; exact .inl rfl⟩
    · rcases named with rfl | rfl <;> trivial
  | @spent _ r _ _ d id c named acquires identity owns at_ unspent held =>
    have same : holders (.did who o r :: l) = holders l := by
      rcases named with ⟨rfl, -⟩ | ⟨q, fresh, -, rfl, -⟩ <;> rfl
    refine ⟨fun free => same.trans (h.free free), fun a ha => ?_,
      fun p hp => entry_set at_ _ _ _ (h.spent p hp), h.once, ?_, h.lawful⟩
    · rw [same]; exact h.held a ha
    · rcases named with ⟨rfl, -⟩ | ⟨q, fresh, -, rfl, -⟩ <;> trivial
  | replaced by_ owns at_ entry valid host opened moves =>
    exact ⟨h.free, h.held, fun p hp => entry_set at_ _ _ _ (h.spent p hp), h.once, trivial,
      h.lawful⟩
  | unlinked releases identity owns settled =>
    refine ⟨by rintro ⟨⟩, ?_, h.spent, h.once, trivial, h.lawful⟩
    rintro a ⟨⟩
    exact ⟨_, h.holds owns, by rintro c ⟨⟩⟩
  | @removed _ _ id releases identity owned bare settled held =>
    have own : holders l = [id] := held.trans (began.holds owned)
    refine ⟨fun _ => ?_, by rintro a ⟨⟩, h.spent, h.once, ⟨releases, id, identity, own⟩, h.lawful⟩
    simp [holders, own, identity]

theorem answer_exclusive {who : Caller sha256} {start : Store × History sha256} {a : Answer}
    {t : Store} {l : History sha256} (began : Exclusive start.1 start.2) (h : Exclusive t l)
    (same : answers l = answers start.2) (done : Answered who start (.ok a) (t, l)) :
    Exclusive t (.answered who a :: l) := by
  obtain ⟨taken, responded⟩ := done
  have before : acquired l = acquired start.2 := by simp only [acquired, same]
  have lawful : Always Lawful (.answered who a :: l) := by
    refine ⟨?_, h.lawful⟩
    cases a with
    | complete => trivial
    | response resp =>
      intro stop
      obtain ⟨q, fresh, old, who_, -, holds, -⟩ := (responded resp rfl).stop stop
      exact ⟨q, fresh, who_, h.holds holds⟩
  cases acquires : who.acquires with
  | false =>
    have none_ : acquired (.answered who a :: l) = acquired l := by
      rw [acquired_answered]; simp [acquires]
    exact ⟨h.free, h.held, none_ ▸ h.spent, none_ ▸ h.once, lawful⟩
  | true =>
    obtain ⟨id, identity, unspent, entry⟩ := taken acquires
    have more : acquired (.answered who a :: l) = id.planId :: acquired l := by
      rw [acquired_answered]; simp [acquires, identity]
    have fresh : id.planId ∉ acquired l := by
      intro again
      have := began.spent _ (before ▸ again)
      rw [unspent] at this
      cases this
    refine ⟨h.free, h.held, ?_, more ▸ List.nodup_cons.mpr ⟨fresh, h.once⟩, lawful⟩
    rw [more]
    rintro p (_ | ⟨_, hp⟩)
    · exact entry
    · exact h.spent p hp

/-- In every interleaving of edge and failover helpers, killed between any two file-system
steps, one identity holds the exclusion, no plan is acquired twice, only the holder removes
`active/`, and only the holder is authorized to stop the service. -/
theorem shared_root_exclusive {side : Side}
    {c : Config (Caller sha256) Op Reply Refusal Answer Out Seen Store Side}
    (reach : Reach (system sha256 Residue) (fun _ _ => True) Store.empty side c) :
    (holders c.history).length ≤ 1 ∧ (c.store.active = none ↔ holders c.history = []) ∧
    (∀ id n, c.store.active = some ⟨some (.owner id), n⟩ → holders c.history = [id]) ∧
    (acquired c.history).Nodup ∧
    (∀ newer who older, c.history = newer ++ .did who .rmdirActive true :: older →
      who.releases = true ∧ ∃ id, who.identity = some id ∧ holders older = [id]) ∧
    (∀ newer who resp older, c.history = newer ++ .answered who (.response resp) :: older →
      resp.stopAuthorized = true → ∃ q fresh, who = .failover (.update .arm q fresh) ∧
        holders older = [ownerOf q.plan]) := by
  have h : Exclusive c.store c.history := reach_invariant (fun _ _ _ h => h)
    (fun who start o s l t l' began hs _ => change_exclusive (fun _ _ _ h => h) began hs)
    (fun who start a t l began ht same => answer_exclusive began ht same)
    ⟨fun _ => rfl, nofun, nofun, List.nodup_nil, trivial⟩ reach
  refine ⟨?_, ⟨h.free, fun none_ => ?_⟩, fun id n owns => h.holds owns, h.once,
    fun newer who older heq => ?_, fun newer who resp older heq => ?_⟩
  · cases active : c.store.active with
    | none => simp [h.free active]
    | some a =>
      obtain ⟨id, hl, -⟩ := h.held a active
      simp [hl]
  · cases active : c.store.active with
    | none => rfl
    | some a =>
      obtain ⟨id, hl, -⟩ := h.held a active
      simp [hl] at none_
  · exact always_iff.mp h.lawful _ _ _ heq
  · exact always_iff.mp h.lawful _ _ _ heq

def sampleOwner : Owner :=
  ⟨.haproxy, "0123456789abcdef0123456789abcdef", "fedcba9876543210fedcba9876543210"⟩

/-- One acquisition on a fresh host. -/
theorem shared_root_exclusive_acquire :
    ∃ c : Config (Caller fun _ => "") Op Reply Refusal Answer Out Seen Store Side,
      Reach (system _ Residue) (fun _ _ => True) Store.empty ⟨false, false, false⟩ c ∧
      holders c.history = [sampleOwner] ∧ acquired c.history = [sampleOwner.planId] ∧
      (acquired c.history).Nodup := by
  have spawned : Reach (system (fun _ => "") Residue) (fun _ _ => True) Store.empty
      ⟨false, false, false⟩
      ⟨Store.empty, [], ⟨false, false, false⟩, none, [edgeGuard true sampleOwner]⟩ :=
    Reach.idle.step (.spawn (.edge true sampleOwner))
  have reach := spawned.alone (h := effect) (g := asideAt 0) (fun _ _ => rfl)
    (fun o _ s => aside_asideAt 0 o s) (fun _ _ => trivial) rfl rfl
  exact ⟨_, reach, by decide, by decide, (shared_root_exclusive reach).2.2.2.1⟩

end PlatformConfig.SharedGuard
