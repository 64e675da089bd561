import PlatformConfig.LifecyclePair

/-!
# Custody of the service's certificate

What the helper tells the roles that configure the service: whether its TLS paths are the dormant ones
of its own configuration or those of the activated version. The answers are checked over whole runs of
the lifecycle commands.
-/
namespace PlatformConfig.Lifecycle

open CrashProgram CrashDisk Prog

/-- The arguments of `zot-custody` beside those of the target. -/
structure Managed where
  operation : Operation
  cert : String
  key : String
  configSha256 : String

inductive Custody
  | dormant
  | hostLocal (a : Active)
  deriving DecidableEq

variable (c : Target)

/-- The entries of a state root without an unresolved transaction. -/
def settledEntries (e : String) : Run State := do
  requireServerAdapter c
  inspect "another lifecycle operation holds the state lock"
  let s ← stateEntries
  require (s.journal.isNone && !s.requestJournal && !s.trustJournal) e
  pure s

/-- `require_active_rollback` -/
def requireActiveRollback (a : Active) : Run Unit := do
  inspect "cannot read rollback record"
  let s ← look
  let b ← ofOption s.rollback "authenticated active state lacks its rollback record"
  require (b.binds a) "active and rollback records do not bind one activation"

/-- `active_paths`: the active record with the paths below its version. -/
def activePaths : Run Active := do
  let _ ← settledEntries c "unresolved lifecycle state blocks active path selection"
  let a ← authenticateActive c
  ofOption a "authenticated active host-local version is absent"

/-- The branch of `zot_custody` without an active version. -/
def managedCustody (m : Managed) : Run Custody := do
  inspect "cannot read managed Zot configuration"
  let s ← look
  require (c.parseConfig s.config = some (m.cert, m.key) && c.sha256 s.config = m.configSha256)
    "current Zot configuration is not the exact managed configuration"
  require (m.operation = .issue) "renew requires an authenticated active version"
  let absent : Bool ← ask Ask.dormant
  require absent "dormant Zot TLS destination material must be absent"
  pure .dormant

/-- `zot_custody` -/
def zotCustody (m : Managed) : Run Custody := do
  let s ← settledEntries c "unresolved lifecycle state blocks Zot TLS custody selection"
  match ← authenticateActive c with
  | none => do
    require s.rollback.isNone "rollback state exists without an authenticated active version"
    managedCustody c m
  | some a => do
    requireActiveRollback a
    pure (.hostLocal a)

/-- `require_openbao_inactive_custody_state` of a unit that is there -/
def requireOpenbaoCustody : Run Unit := do
  inspect "OpenBao service-state query failed"
  let s ← look
  require (!s.running && (s.masked || s.enablement = .disabled))
    "OpenBao custody requires an inactive, disabled or masked service"

/-- The branch of `openbao_custody` without an active version. -/
def dormantCustody : Run Custody := do
  inspect "cannot read OpenBao dormant listener"
  let s ← look
  require (c.parseConfig s.config = some c.baseTlsPaths)
    "dormant OpenBao listener does not select the exact base TLS paths"
  requireOpenbaoCustody
  let absent : Bool ← ask Ask.dormant
  require absent "dormant OpenBao custody requires an absent bootstrap marker"
  inspect "OpenBao pristine activation requires an empty Raft data directory"
  pure .dormant

/-- `openbao_custody` -/
def openbaoCustody : Run Custody := do
  let s ← settledEntries c "unresolved lifecycle state blocks OpenBao TLS custody selection"
  match ← authenticateActive c with
  | none => do
    require s.rollback.isNone "rollback state exists without an authenticated active version"
    dormantCustody c
  | some a => do
    requireActiveRollback a
    requireOpenbaoCustody
    pure (.hostLocal a)

variable {c : Target} {k : Conditions} {s t u : State} {d : Data} {m : Managed} {j : Journal}

/-! ## Targets without an active version -/

/-- Where no version is active, the configuration is the one from before the first activation, and the
state root holds no temporary names. -/
structure Based (d : Data) (s : State) : Prop where
  clean : s.leftovers = 0
  config : s.journal = none → s.active = none → s.config = d
  prior : ∀ j, s.holds j → j.priorActive = none → j.priorConfig = d

/-- A change outside of the records. -/
lemma Based.still (h : Based d s) (clean : t.leftovers = s.leftovers) (triple : t.triple = s.triple)
    (journal : t.journal = s.journal) : Based d t := by
  simp only [State.triple, Prod.mk.injEq] at triple
  obtain ⟨active, -, config⟩ := triple
  refine ⟨clean.trans h.clean, fun free none_ => ?_, fun j held => ?_⟩
  · exact config.trans (h.config (journal ▸ free) (active ▸ none_))
  · exact h.prior j (journal.symm.trans held)

/-- A change beside a journal that keeps what it says about the time before. -/
lemma Based.beside (h : Based d s) (held : s.holds j) {j' : Journal} (held' : t.holds j')
    (clean : t.leftovers = s.leftovers) (active : j'.priorActive = j.priorActive)
    (config : j'.priorConfig = j.priorConfig) : Based d t := by
  refine ⟨clean.trans h.clean, fun free => ?_, fun i at_ none_ => ?_⟩
  · rw [held'] at free
    cases free
  · obtain rfl := held'.unique at_
    exact config.trans (h.prior j held (active ▸ none_))

/-- The journal is removed in one of the phases of its activation. -/
lemma Based.freed (h : Based d s) (held : Held c s j) : Based d { s with journal := none } := by
  refine ⟨h.clean, fun _ none_ => ?_, fun i at_ => by cases at_⟩
  have none_ : s.active = none := none_
  obtain ⟨p, at_, -⟩ := held.phase
  have active : s.active = (j.at p).1 := congrArg Prod.fst at_
  have config : s.config = (j.at p).2.2 := congrArg (·.2.2) at_
  rw [none_] at active
  cases p with
  | prior | restoring => exact config.trans (h.prior j held.held active.symm)
  | active | records | config => cases active

lemma move_based {l : Label} (move : Move c l s t) (coherent : Coherent c s) (h : Based d s) :
    Based d t := by
  cases move with
  | begins begins =>
    refine ⟨h.clean, fun free => (by cases free), fun i at_ none_ => ?_⟩
    obtain rfl : _ = i := by simpa [State.holds] using at_
    have active : s.active = _ := congrArg Prod.fst begins.prior
    have config : s.config = _ := congrArg (·.2.2) begins.prior
    exact config.symm.trans (h.config begins.free (active.trans none_))
  | @advance _ j p q held => exact h.beside held (show State.holds _ j from held) rfl rfl rfl
  | checkpoint held => exact h.beside held rfl rfl rfl rfl
  | @restoreConfig _ j held => exact h.beside held (show State.holds _ j from held) rfl rfl rfl
  | @restoreActive _ j held => exact h.beside held (show State.holds _ j from held) rfl rfl rfl
  | @restoreRollback _ j held => exact h.beside held (show State.holds _ j from held) rfl rfl rfl
  | restored held => exact h.beside held rfl rfl rfl rfl
  | close held => exact h.freed (coherent.of_journal held)
  | resume held => exact h.freed (coherent.of_journal held)
  | service o => cases o <;> exact h.still rfl rfl rfl
  | fail | complete | history | archive | retire | listener | root | files | publish =>
    exact h.still rfl rfl rfl

theorem reaches_based (whole : ¬k.tears) (coherent : Coherent c s) (start : Based d s)
    (run : Reaches c k Always s t) : Coherent c t ∧ Based d t := by
  induction run with
  | refl => exact ⟨coherent, start⟩
  | elsewhere _ other ih =>
    obtain ⟨p, q, r, m, n, e, rfl⟩ := other
    exact ⟨ih.1.quiet rfl rfl ⟨rfl, rfl⟩ fun _ _ there => there, ih.2.still rfl rfl rfl⟩
  | command _ _ run ih =>
    refine wp_killed (C := fun t => Coherent c t ∧ Based d t)
      (wp_invariant (fun _ s t hs step => ?_) ih (does_sequential ih.1)) ih run
    rcases step with rfl | ⟨l, may, move⟩ | ⟨tears, -⟩
    · exact hs
    · exact ⟨move_coherent move may hs.1, move_based move hs.1 hs.2⟩
    · exact absurd tears whole

/-! ## What the readers report -/

/-- No transaction is unresolved. -/
def State.free (s : State) : Prop := s.journal = none ∧ s.requestJournal = false ∧ s.trustJournal = false

lemma reads_settledEntries {e : String} : Reads (disk k) s (settledEntries c e)
    (fun r => r = s ∧ s.free) (k.faults ∨ c.adapter = .client ∨ s.leftovers ≠ 0 ∨ ¬s.free) := by
  have meaning : (s.journal.isNone && !s.requestJournal && !s.trustJournal) = true ↔ s.free := by
    simp [State.free, and_assoc]
  refine (reads_requireServerAdapter fun client => .inr (.inl client)).bind id fun _ _ => ?_
  refine reads_inspect.bind .inl fun _ _ => ?_
  refine reads_stateEntries.bind (fun fails => fails.imp_right fun dirty => .inr (.inl dirty)) ?_
  rintro r ⟨rfl, -⟩
  refine reads_check (fun refused => .inr (.inr (.inr fun free => ?_))) fun free => ?_
  · rw [meaning.mpr free] at refused
    cases refused
  · exact reads_ret ⟨rfl, meaning.mp free⟩

lemma reads_requireActiveRollback {a : Active} (paired : Paired c s) (active : s.active = some a) :
    Reads (disk k) s (requireActiveRollback a) (fun _ => True) k.faults := by
  refine reads_inspect.bind id fun _ _ => reads_look ?_
  cases paired with
  | absent none_ =>
    rw [active] at none_
    cases none_
  | present active' rollback binds =>
    rw [active] at active'
    cases active'
    rw [rollback]
    exact (reads_require fun refused => by rw [binds] at refused; cases refused).mono (fun _ _ => trivial) id

/-- The active paths are those of the active record. -/
lemma reads_activePaths (server : c.adapter ≠ .client) (clean : s.leftovers = 0) (paired : s.journal = none → Paired c s) :
    Reads (disk k) s (activePaths c) (fun a => s.free ∧ s.active = some a)
      (k.faults ∨ ¬(s.free ∧ ∃ a, s.active = some a)) := by
  refine reads_settledEntries.bind (fun fails => ?_) ?_
  · rcases fails with faults | client | dirty | unresolved
    · exact .inl faults
    · exact absurd client server
    · exact absurd clean dirty
    · exact .inr fun both => unresolved both.1
  rintro r ⟨rfl, free⟩
  refine reads_authenticateActive.bind (fun fails => fails.imp_right fun invalid => ?_) ?_
  · exact absurd (paired free.1).activeValid invalid
  rintro o ⟨rfl, -⟩
  refine (reads_ofOption fun none_ => .inr ?_).mono (fun a at_ => ⟨free, at_⟩) id
  rintro ⟨-, a, at_⟩
  rw [none_] at at_
  cases at_

/-- What a custody command finds before it looks at the service. -/
structure Quiescent (c : Target) (d : Data) (s : State) : Prop where
  server : c.adapter ≠ .client
  based : Based d s
  paired : s.journal = none → Paired c s

/-- The common part of both custody commands. -/
lemma wp_custody {e : String} {f : Active → Run Custody} {g : Run Custody} {Q : Except String Custody → State → Prop}
    {G : CrashDisk.Op Write Ask → State → State → Prop} (still : ∀ o, G o s s) (found : Quiescent c d s)
    (fails : ∀ e, k.faults ∨ ¬s.free → Q (.error e) s)
    (active : ∀ a, s.free → s.active = some a → wp (disk k).semantics G (f a) Q s)
    (dormant : s.free → s.active = none → s.config = d → wp (disk k).semantics G g Q s) :
    wp (disk k).semantics G ((settledEntries c e).bind fun r => (authenticateActive c).bind fun o => match o with
      | none => (require r.rollback.isNone "rollback state exists without an authenticated active version").bind
          fun _ => g
      | some a => (requireActiveRollback a).bind fun _ => f a) Q s := by
  refine wp_reads still reads_settledEntries (fun e failed => ?_) ?_
  · rcases failed with fault | client | dirty | open_
    · exact fails e (.inl fault)
    · exact absurd client found.server
    · exact absurd found.based.clean dirty
    · exact fails e (.inr open_)
  rintro r ⟨rfl, free⟩
  have paired := found.paired free.1
  refine wp_reads still reads_authenticateActive (fun e failed => ?_) ?_
  · rcases failed with fault | invalid
    · exact fails e (.inl fault)
    · exact absurd paired.activeValid invalid
  rintro o ⟨rfl, -⟩
  cases at_ : r.active with
  | some a =>
    exact wp_reads still (reads_requireActiveRollback paired at_) (fun e fault => fails e (.inl fault))
      fun _ _ => active a free at_
  | none =>
    have rollback : r.rollback = none := by
      cases paired with
      | absent _ none_ => exact none_
      | present active' =>
        rw [at_] at active'
        cases active'
    rw [rollback]
    exact dormant free at_ (found.based.config free.1 at_)

/-- What a custody answer says about the state. -/
def Custody.fits (d : Data) (s : State) : Custody → Prop
  | .dormant => s.free ∧ s.active = none ∧ s.config = d
  | .hostLocal a => s.free ∧ s.active = some a

/-- How `zot_custody` ends: without an active version it is refused to a renewal, and where there is
already material below the managed paths. -/
def Tells (k : Conditions) (d : Data) (m : Managed) (s : State) : Except String Custody → State → Prop
  | .ok o, t => t = s ∧ o.fits d s ∧ (o = .dormant → m.operation = .issue)
  | .error e, t => t = s ∧ (k.faults ∨ ¬s.free ∨ s.active = none ∧
      (m.operation = .renew ∨ e = "dormant Zot TLS destination material must be absent"))

lemma tells_managedCustody (free : s.free) (none_ : s.active = none) (config : s.config = d)
    (paths : c.parseConfig d = some (m.cert, m.key)) (digest : c.sha256 d = m.configSha256) :
    wp (disk k).semantics (fun _ t u => t = s ∧ u = s) (managedCustody c m) (Tells k d m s) s := by
  refine wp_reads (fun _ => ⟨rfl, rfl⟩) reads_inspect (fun _ fault => ⟨rfl, .inl fault⟩) fun _ _ => ?_
  refine wp_reads (R := (· = s)) (F := False) (fun _ => ⟨rfl, rfl⟩) (reads_look (f := .ret) (reads_ret rfl))
    (fun _ false_ => false_.elim) ?_
  rintro _ rfl
  refine wp_require (fun refused => ?_) fun _ => ?_
  · simp [config, paths, digest] at refused
  refine wp_require (fun other => ⟨rfl, .inr (.inr ⟨none_, .inl ?_⟩)⟩) fun issue => ?_
  · cases operation : m.operation with
    | issue => simp [operation] at other
    | renew => rfl
  refine wp_reads (R := fun _ => True) (F := False) (fun _ => ⟨rfl, rfl⟩) (reads_ask (f := .ret) fun _ _ => reads_ret trivial)
    (fun _ false_ => false_.elim) fun absent _ => ?_
  refine wp_require (fun _ => ⟨rfl, .inr (.inr ⟨none_, .inr rfl⟩)⟩) fun _ => ?_
  exact ⟨rfl, ⟨free, none_, config⟩, fun _ => of_decide_eq_true issue⟩

lemma tells_zotCustody (found : Quiescent c d s) (paths : c.parseConfig d = some (m.cert, m.key))
    (digest : c.sha256 d = m.configSha256) :
    wp (disk k).semantics (fun _ t u => t = s ∧ u = s) (zotCustody c m) (Tells k d m s) s := by
  refine wp_custody (fun _ => ⟨rfl, rfl⟩) found (fun e failed => ⟨rfl, ?_⟩) (fun a free active => ?_)
    fun free none_ config => tells_managedCustody free none_ config paths digest
  · exact failed.imp_right .inl
  · exact ⟨rfl, ⟨free, active⟩, by rintro ⟨⟩⟩

lemma reads_openbaoCustody (found : Quiescent c d s) : Reads (disk k) s (openbaoCustody c)
    (fun o => o.fits d s ∧ s.running = false)
    (k.faults ∨ ¬s.free ∨ s.active = none ∨ s.running = true ∨ s.masked = false ∧ s.enablement ≠ .disabled) := by
  have stopped {F : Prop} (faults : k.faults → F)
      (refused : s.running = true ∨ s.masked = false ∧ s.enablement ≠ .disabled → F) :
      Reads (disk k) s requireOpenbaoCustody (fun _ => s.running = false) F := by
    refine reads_inspect.bind faults fun _ _ => reads_look ?_
    refine (reads_require fun other => refused ?_).mono (fun _ fine => ?_) id
    · cases running : s.running with
      | true => exact .inl rfl
      | false => exact .inr (by simpa [running] using other)
    · simp only [Bool.and_eq_true, Bool.not_eq_true'] at fine
      exact fine.1
  refine wp_custody (fun _ => ⟨rfl, rfl⟩) found (fun e failed => ⟨rfl, failed.imp_right .inl⟩)
    (fun a free active => ?_) fun free none_ config => ?_
  · exact (stopped .inl fun busy => .inr (.inr (.inr busy))).bind id fun _ idle => reads_ret ⟨⟨free, active⟩, idle⟩
  have other : k.faults ∨ ¬s.free ∨ s.active = none ∨ s.running = true ∨
      s.masked = false ∧ s.enablement ≠ .disabled := .inr (.inr (.inl none_))
  refine reads_inspect.bind .inl fun _ _ => reads_look (reads_check (fun _ => other) fun _ => ?_)
  refine (stopped .inl fun _ => other).bind id fun _ idle => reads_ask fun absent _ => ?_
  refine reads_check (fun _ => other) fun _ => reads_inspect.bind .inl fun _ _ => ?_
  exact reads_ret ⟨⟨free, none_, config⟩, idle⟩

/-! ## Custody over whole runs -/

/-- A target without records, with the configuration that is managed for it. -/
structure Unissued (c : Target) (m : Managed) (s : State) : Prop extends Fresh s where
  clean : s.leftovers = 0
  paths : c.parseConfig s.config = some (m.cert, m.key)
  digest : c.sha256 s.config = m.configSha256

/-- After any runs of the lifecycle commands, each ended by itself or killed between two writes, on a
server that had no records and its managed configuration, custody can be told except in the middle of a
transaction or where the dormant material is not that of a first issue. It names the active version
if there is one, which is that of the active paths and has its terminal record, and otherwise the
configuration is still the managed one. -/
theorem custody_follows {k' : Conditions} {out : Except String Custody} {out' : Except String Active} {u' : State}
    (whole : ¬k.tears) (server : c.adapter ≠ .client) (start : Unissued c m s) (calm : ¬k'.faults)
    (run : Reaches c k Always s t) (custody : Exec (disk k').semantics (zotCustody c m) t out u)
    (paths : Exec (disk k').semantics (activePaths c) t out' u') :
    u = t ∧ (∀ a, out = .ok (.hostLocal a) ↔ t.free ∧ t.active = some a) ∧
      (∀ a, out' = .ok a ↔ out = .ok (.hostLocal a)) ∧ (∀ a, out = .ok (.hostLocal a) → t.recorded a.requestId) ∧
      (out = .ok .dormant → t.free ∧ t.active = none ∧ t.config = s.config ∧ m.operation = .issue) ∧
      ∀ e, out = .error e → ¬t.free ∨ t.active = none ∧
        (m.operation = .renew ∨ e = "dormant Zot TLS destination material must be absent") := by
  have based : Based s.config s := ⟨start.clean, fun _ _ => rfl, fun j held => by
    rw [State.holds, start.journal] at held
    cases held⟩
  obtain ⟨coherent, based⟩ := reaches_based whole start.toFresh.coherent based run
  have found : Quiescent c s.config t := ⟨server, based, coherent.paired⟩
  have told := wp_exec (tells_zotCustody found start.paths start.digest) custody
  have named := wp_exec (reads_activePaths server based.clean coherent.paired) paths
  have active : ∀ a, out = .ok (.hostLocal a) ↔ t.free ∧ t.active = some a := by
    intro a
    constructor
    · rintro rfl
      exact told.2.1
    · rintro ⟨free, at_⟩
      rcases out with e | (_ | b)
      · rcases told.2 with faults | open_ | ⟨none_, -⟩
        · exact absurd faults calm
        · exact absurd free open_
        · rw [at_] at none_
          cases none_
      · have none_ : t.active = none := told.2.1.2.1
        rw [at_] at none_
        cases none_
      · have there : t.active = some b := told.2.1.2
        rw [at_] at there
        cases there
        rfl
  refine ⟨?_, active, fun a => ?_, fun a ended => ?_, ?_, ?_⟩
  · rcases out with e | o <;> exact told.1
  · rw [active]
    constructor
    · rintro rfl
      exact named.2
    · rintro ⟨free, at_⟩
      cases out' with
      | error e => exact absurd ⟨free, a, at_⟩ (named.2.resolve_left calm)
      | ok b =>
        have there : t.active = some b := named.2.2
        rw [at_] at there
        cases there
        rfl
  · obtain ⟨free, at_⟩ := (active a).mp ended
    exact coherent.known free.1 a at_
  · rintro rfl
    exact ⟨told.2.1.1, told.2.1.2.1, told.2.1.2.2, told.2.2 rfl⟩
  · rintro e rfl
    exact told.2.resolve_left calm

theorem custody_follows_completed : ∃ a, (run (undisturbed 1000 none)
    (zotCustody registry ⟨.renew, "c", "k", registry.sha256 [0]⟩) (ran (.activateComplete false) validated)).1 =
      .ok (.hostLocal a) := by
  have reached : Reaches registry untorn Always unissued (ran (.activateComplete false) validated) :=
    .ran trivial (validated_reached fun _ _ _ => trivial) trivial
  have issued : (ran (.activateComplete false) validated).active.isSome = true ∧
      (ran (.activateComplete false) validated).journal = none ∧
      (ran (.activateComplete false) validated).requestJournal = false ∧
      (ran (.activateComplete false) validated).trustJournal = false := by decide +kernel
  obtain ⟨a, active⟩ := Option.isSome_iff_exists.mp issued.1
  have within := @undisturbed_within ⟨False, False, fun _ => True⟩ 1000 none trivial
  have told := custody_follows (fun h => h) (by decide) ⟨⟨rfl, rfl, rfl⟩, rfl, by decide, rfl⟩ id reached
    (within.exec (zotCustody registry ⟨.renew, "c", "k", registry.sha256 [0]⟩) _) (within.exec (activePaths registry) _)
  exact ⟨a, (told.2.1 a).mpr ⟨issued.2, active⟩⟩

/-- The same of OpenBao, whose custody is told only while the service is stopped. -/
theorem openbaoCustody_follows {k' : Conditions} {out : Except String Custody} (whole : ¬k.tears)
    (server : c.adapter ≠ .client) (start : Fresh s) (clean : s.leftovers = 0) (calm : ¬k'.faults)
    (run : Reaches c k Always s t) (custody : Exec (disk k').semantics (openbaoCustody c) t out u) :
    u = t ∧ (∀ o, out = .ok o → o.fits s.config t ∧ t.running = false) ∧
      ∀ a, t.free → t.active = some a → t.running = false → t.masked = true ∨ t.enablement = .disabled →
        out = .ok (.hostLocal a) := by
  have based : Based s.config s := ⟨clean, fun _ _ => rfl, fun j held => by
    rw [State.holds, start.journal] at held
    cases held⟩
  obtain ⟨coherent, based⟩ := reaches_based whole start.coherent based run
  have told := wp_exec (reads_openbaoCustody ⟨server, based, coherent.paired⟩) custody
  refine ⟨?_, ?_, fun a free active idle off => ?_⟩
  · rcases out with e | o <;> exact told.1
  · rintro o rfl
    exact told.2
  · rcases out with e | (_ | b)
    · rcases told.2 with faults | open_ | none_ | busy | ⟨unmasked, enabled⟩
      · exact absurd faults calm
      · exact absurd free open_
      · rw [active] at none_
        cases none_
      · rw [idle] at busy
        cases busy
      · rcases off with masked | disabled
        · rw [unmasked] at masked
          cases masked
        · exact absurd disabled enabled
    · have none_ : t.active = none := told.2.1.2.1
      rw [active] at none_
      cases none_
    · have there : t.active = some b := told.2.1.2
      rw [active] at there
      cases there
      rfl

end PlatformConfig.Lifecycle
