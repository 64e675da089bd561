import PlatformConfig.CrashParts
import PlatformConfig.LifecycleOffer

/-!
# Preparation and installation of one response

How the commands that bring a known response below the versions root end, for any target and any state
that interrupted commands have left there: which states they refuse, and what a success leaves. Every
state in between is one from which they can be run again.
-/
namespace PlatformConfig.Lifecycle

open CrashProgram CrashDisk CrashParts Prog

/-- The disk on which the name of a stage is drawn that is not there. -/
def freshDisk (k : Conditions) : Disk State Write Ask Answer where
  apply := Write.apply
  answers
    | .transaction, s, tx => ∀ r, .stage r tx ∉ s.versions
    | x, s, y => (disk k).answers x s y
  fails := (disk k).fails
  torn := (disk k).torn

section Narrow
variable {k : Conditions} {α : Type} {p : Run α}

lemma wp_fresh {G : CrashDisk.Op Write Ask → State → State → Prop} {Q : Except String α → State → Prop} {s : State}
    (h : wp (disk k).semantics G p Q s) : wp (freshDisk k).semantics G p Q s := by
  refine wp_narrow (D := disk k) (E := freshDisk k) rfl (fun x t y answer => ?_) (fun _ fails => fails) (fun _ _ _ torn => torn) h
  cases x with
  | transaction => trivial
  | now | inspect | dormant | identity | validate | listener | source => exact answer

lemma reads_fresh {s : State} {R : α → Prop} {F : Prop} (h : Reads (disk k) s p R F) : Reads (freshDisk k) s p R F :=
  wp_fresh h

end Narrow

variable {c : Target} {k : Conditions} {r : String} {p : Pending} {offer : Contents} {s t : State} {α β : Type}

/-! ## The pending request -/

/-- One request is pending, and nothing of an activation is open. -/
structure Awaits (c : Target) (r : String) (p : Pending) (s : State) : Prop where
  one : Selectable c s r
  clean : s.leftovers = 0
  journal : s.journal = none
  requestJournal : s.requestJournal = false
  trustJournal : s.trustJournal = false
  pending : ∃ n, s.pendingAt c r n = some p
  allowed : c.adapterAllows p.record = true
  names : p.record.service = c.service ∧ p.record.target = c.target
  trustOnly : c.adapter = .client →
    s.active = none ∧ s.rollback = none ∧ s.terminal = none ∧ s.history = none

/-- Whenever the clock is read, the request has not expired and the response is valid for it. -/
def Timely (c : Target) (k : Conditions) (r : String) (p : Pending) (offer : Contents) (s : State) : Prop :=
  ∀ n, k.clock n → s.pendingAt c r n = some p ∧ p.expired = false ∧
    (c.validateResponseFiles offer p n).isSome = true

/-- The record and the files of a pending request do not depend on the time. -/
lemma pendingAt_same {n m : ℕ} {q : Pending} (h : s.pendingAt c r n = some p) (h' : s.pendingAt c r m = some q) :
    q.record = p.record ∧ q.files = p.files := by
  obtain ⟨d, there, valid⟩ := Option.bind_eq_some_iff.mp h
  obtain ⟨d', there', valid'⟩ := Option.bind_eq_some_iff.mp h'
  obtain rfl := Option.some.inj (there.symm.trans there')
  unfold Target.validatePending at valid valid'
  split at valid
  · rename_i exact_
    rw [if_pos exact_] at valid'
    obtain ⟨record, read, rfl⟩ := Option.map_eq_some_iff.mp valid
    obtain ⟨record', read', rfl⟩ := Option.map_eq_some_iff.mp valid'
    have same := Option.some.inj ((Option.filter_eq_some_iff.mp read).1.symm.trans (Option.filter_eq_some_iff.mp read').1)
    exact ⟨same.symm, rfl⟩
  · cases valid

/-- The same request: its record and its files. -/
def Pending.is (q p : Pending) : Prop := q.record = p.record ∧ q.files = p.files

lemma validateResponseFiles_is {q : Pending} (same : q.is p) (files : Contents) (n : ℕ) :
    c.validateResponseFiles files q n = c.validateResponseFiles files p n := by
  simp only [Target.validateResponseFiles, same.1, same.2]

section Pending
variable (awaits : Awaits c r p s)
include awaits

lemma Awaits.reads_validatePending (offer : Contents) : Reads (disk k) s (validatePending c r) (fun q => q.is p)
    (k.faults ∨ ¬Timely c k r p offer s) := by
  obtain ⟨m, there⟩ := awaits.pending
  refine Lifecycle.reads_validatePending.mono (fun q read => ?_) fun fails => fails.imp_right ?_
  · obtain ⟨n, -, at_⟩ := read
    exact pendingAt_same there at_
  · rintro ⟨n, clock, none_⟩ timely
    rw [(timely n clock).1] at none_
    cases none_

lemma Awaits.reads_receivable (offer : Contents) : Reads (disk k) s (receivable c r) (fun q => q.is p)
    (k.faults ∨ ¬Timely c k r p offer s) := by
  obtain ⟨m, there⟩ := awaits.pending
  refine Lifecycle.reads_validatePending.bind (fun fails => fails.imp_right ?_) fun q read => ?_
  · rintro ⟨n, clock, none_⟩ timely
    rw [(timely n clock).1] at none_
    cases none_
  obtain ⟨n, clock, at_⟩ := read
  have same := pendingAt_same there at_
  refine reads_check (fun expired => .inr fun timely => ?_) fun _ => ?_
  · rw [(timely n clock).1] at at_
    rw [← Option.some.inj at_, (timely n clock).2.1] at expired
    cases expired
  refine reads_check (fun other => ?_) fun _ => reads_check (fun other => ?_) fun _ => reads_ret same
  · rw [same.1, awaits.allowed] at other
    cases other
  · simp [same.1, awaits.names] at other

omit awaits in
lemma reads_response {q : Pending} (same : q.is p) : Reads (disk k) s (validateResponseFiles c offer q)
    (fun _ => True) (k.faults ∨ ¬Timely c k r p offer s) := by
  refine reads_validateResponseFiles.mono (fun _ _ => trivial) ?_
  rintro ⟨n, clock, none_⟩
  refine .inr fun timely => ?_
  have valid := (timely n clock).2.2
  rw [← validateResponseFiles_is same, none_] at valid
  cases valid

lemma Awaits.reads_pendingRequestId : Reads (disk k) s (pendingRequestId c) (· = r) k.faults := by
  refine Lifecycle.reads_pendingRequestId.mono (fun r' one => ?_) fun fails => ?_
  · exact one.unique awaits.one
  · exact fails.resolve_right fun none_ => none_ ⟨r, awaits.one⟩

end Pending

/-! ## States between the commands -/

/-- The version that is published from the pending request and the response. -/
def PublishedFrom (p : Pending) (offer : Contents) (d : Dir) : Prop :=
  d.exact versionNames = true ∧ agreeOn versionNames (d.contents versionNames) (publication p.files offer) = true

/-- A part of the response; a kill can have torn a file of it. -/
def PartOf (tears : Prop) (offer : Contents) (d : Dir) : Prop := ∀ f x, d.files.lookup f = some x →
  f ∈ responseNames ∧ ∃ y, offer f = some y ∧ (x = y ∨ tears ∧ x <+: y)

/-- The entries of the versions root that these commands make. -/
def VersionEntry.concerns (r : String) (e : VersionEntry) : Prop :=
  e = .version r ∨ e = .ingress r ∨ ∃ tx, e = .stage r tx

/-- Every command between `s` and `t` was one that brings the response `offer` of `r` below the versions
root. -/
structure Going (c : Target) (tears : Prop) (r : String) (p : Pending) (offer : Contents) (s t : State) : Prop where
  rest : t = { s with root := t.root, versions := t.versions }
  bare : t.root = .absent → t.versions = ∅
  version : ∀ d, t.versions.lookup (.version r) = some d → PublishedFrom p offer d
  ingress : ∀ d, t.versions.lookup (.ingress r) = some d → PartOf tears offer d
  only : c.adapter = .client → ∀ e ∈ t.versions, e.concerns r

variable {tears : Prop}

lemma Going.timely (h : Going c tears r p offer s t) : Timely c k r p offer t ↔ Timely c k r p offer s := by
  have pending : t.pending = s.pending := by rw [h.rest]
  simp only [Timely, State.pendingAt, pending]

lemma Going.makeRoot (h : Going c tears r p offer s t) {made : VersionsRoot} (there : made ≠ .absent) :
    Going c tears r p offer s { t with root := made } := by
  obtain ⟨rest, bare, version, ingress, only⟩ := h
  refine ⟨?_, fun absent => absurd absent there, version, ingress, only⟩
  conv_lhs => rw [rest]

lemma Going.insert (h : Going c tears r p offer s t) (there : t.root ≠ .absent) {e : VersionEntry} {d : Dir}
    (concerns : e.concerns r) (version : e = .version r → PublishedFrom p offer d)
    (ingress : e = .ingress r → PartOf tears offer d) :
    Going c tears r p offer s { t with versions := t.versions.insert e d } := by
  refine ⟨?_, fun absent => absurd absent there, fun d' found => ?_, fun d' found => ?_, fun client e' mem => ?_⟩
  · conv_lhs => rw [h.rest]
  · by_cases same : .version r = e
    · subst same
      rw [AList.lookup_insert] at found
      exact Option.some.inj found ▸ version rfl
    · rw [AList.lookup_insert_ne same] at found
      exact h.version d' found
  · by_cases same : .ingress r = e
    · subst same
      rw [AList.lookup_insert] at found
      exact Option.some.inj found ▸ ingress rfl
    · rw [AList.lookup_insert_ne same] at found
      exact h.ingress d' found
  · rcases AList.mem_insert _ |>.mp mem with rfl | mem
    · exact concerns
    · exact h.only client e' mem

lemma Going.erase (h : Going c tears r p offer s t) (e : VersionEntry) :
    Going c tears r p offer s { t with versions := t.versions.erase e } := by
  refine ⟨?_, fun absent => ?_, fun d found => ?_, fun d found => ?_, fun client e' mem => ?_⟩
  · conv_lhs => rw [h.rest]
  · have none_ := h.bare absent
    change t.versions.erase e = ∅
    rw [none_]
    rfl
  · by_cases same : .version r = e
    · subst same
      rw [AList.lookup_erase] at found
      cases found
    · exact h.version d (by rwa [AList.lookup_erase_ne same] at found)
  · by_cases same : .ingress r = e
    · subst same
      rw [AList.lookup_erase] at found
      cases found
    · exact h.ingress d (by rwa [AList.lookup_erase_ne same] at found)
  · exact h.only client e' (AList.mem_erase.mp mem).2

/-- A client's versions root in which a command can go on. -/
def ClientFit (r : String) (p : Pending) (s : State) : Prop :=
  s.root = .absent ∨ s.root = .ready ∧ clientVersions r p s = true

lemma Awaits.reads_clientStagingPreflight (awaits : Awaits c r p s) (client : c.adapter = .client) (offer : Contents) :
    Reads (disk k) s (clientStagingPreflight c) (fun _ => ClientFit r p s)
      (k.faults ∨ ¬Timely c k r p offer s ∨ ¬ClientFit r p s) := by
  obtain ⟨active, rollback, terminal, history⟩ := awaits.trustOnly client
  refine reads_stateEntries.bind (fun fails => .inl (fails.resolve_right fun dirty => dirty awaits.clean)) ?_
  rintro s ⟨rfl, -⟩
  refine reads_check (fun refused => ?_) fun _ => ?_
  · simp [active, rollback, terminal, history, awaits.journal, awaits.requestJournal, awaits.trustJournal] at refused
  refine awaits.reads_pendingRequestId.bind .inl ?_
  rintro r rfl
  refine reads_inspect.bind .inl fun _ _ => ?_
  refine (awaits.reads_validatePending offer).bind (fun fails => fails.imp_right .inl) fun q same => ?_
  refine reads_check (fun other => ?_) fun _ => reads_check (fun other => ?_) fun _ => reads_look ?_
  · rw [same.1, awaits.allowed] at other
    cases other
  · simp [same.1, awaits.names] at other
  by_cases absent : s.root = .absent
  · rw [if_pos absent]
    exact reads_inspect.mono (fun _ _ => .inl absent) .inl
  · rw [if_neg absent]
    refine reads_openVersionsRoot.bind (fun fails => fails.imp_right fun unready => .inr ?_) fun _ ready => ?_
    · rintro (none_ | ⟨ready, -⟩)
      · exact absent none_
      · exact unready ready
    refine reads_inspect.bind .inl fun _ _ => ?_
    have fits : clientVersions r q s = clientVersions r p s := by simp only [clientVersions, same.2]
    rw [fits]
    refine (reads_require fun refused => .inr (.inr ?_)).mono (fun _ passed => .inr ⟨ready, passed⟩) id
    rintro (none_ | ⟨-, passed⟩)
    · exact absent none_
    · rw [passed] at refused
      cases refused

lemma Awaits.reads_commonOpen (awaits : Awaits c r p s) (offer : Contents) : Reads (disk k) s (commonOpen c)
    (fun _ => c.adapter = .client → ClientFit r p s)
    (k.faults ∨ ¬Timely c k r p offer s ∨ c.adapter = .client ∧ ¬ClientFit r p s) := by
  refine reads_inspect.bind .inl fun _ _ => ?_
  by_cases client : c.adapter = .client
  · rw [if_pos client]
    exact (awaits.reads_clientStagingPreflight client offer).mono (fun _ fit _ => fit)
      fun fails => fails.imp_right fun fails => fails.imp_right fun unfit => ⟨client, unfit⟩
  · rw [if_neg client]
    exact reads_ret fun there => absurd there client

/-- What is awaited is not below the versions root. -/
lemma Awaits.elsewhere (h : Awaits c r p s) (root : VersionsRoot) (versions : AList fun _ : VersionEntry => Dir) :
    Awaits c r p { s with root := root, versions := versions } := by
  obtain ⟨one, clean, journal, requestJournal, trustJournal, pending, allowed, names, trustOnly⟩ := h
  exact ⟨⟨one.legible, one.only, one.pending, one.fresh⟩, clean, journal, requestJournal, trustJournal, pending,
    allowed, names, trustOnly⟩

lemma Going.awaits (h : Going c tears r p offer s t) (start : Awaits c r p s) : Awaits c r p t := by
  rw [h.rest]
  exact start.elsewhere _ _

/-! ## Preparation -/

/-- The states in which an ingress can be prepared, or a server's version is there already. -/
structure Preparable (c : Target) (r : String) (p : Pending) (s : State) : Prop where
  root : s.root ≠ .unowned
  client : c.adapter = .client → ClientFit r p s ∧ (.version r ∈ s.versions → .ingress r ∈ s.versions)
  ingress : (.version r ∈ s.versions → c.adapter = .client) →
    ∀ d, s.versions.lookup (.ingress r) = some d → d.partialResponse = true

/-- The versions root is ready and holds the ingress. -/
structure Opened (r : String) (s t : State) (d : Dir) : Prop where
  root : t.root = .ready
  ingress : t.versions.lookup (.ingress r) = some d
  kept : ∀ d', s.versions.lookup (.ingress r) = some d' → d = d'
  new : s.versions.lookup (.ingress r) = none → d.files = ∅
  others : ∀ e, e ≠ .ingress r → t.versions.lookup e = s.versions.lookup e

/-- How a preparation ends. -/
inductive Prepares (c : Target) (k : Conditions) (r : String) (p : Pending) (offer : Contents) (s : State) :
    Except String Report → State → Prop
  | installed (fit : Preparable c r p s) (server : c.adapter ≠ .client) (there : .version r ∈ s.versions) :
      Prepares c k r p offer s (.ok .installed) { s with root := .ready }
  | ready {o : Report} {t : State} {d : Dir} (fit : Preparable c r p s) (status : o = .prepared ∨ o = .existing)
      (version : .version r ∈ s.versions → c.adapter = .client) (opened : Opened r s t d) :
      Prepares c k r p offer s (.ok o) t
  | refused {e : String} {t : State} (unfit : k.faults ∨ ¬Timely c k r p offer s ∨ ¬Preparable c r p s) :
      Prepares c k r p offer s (.error e) t

variable {s₀ : State} {f : Unit → Run β} {Q : Except String β → State → Prop}

/-- A write below the versions root. -/
lemma Going.tree {w : TreeWrite} {e : String} (h : Going c tears r p offer s₀ s) {t : State}
    (torn : ∀ u, Torn (.tree w) s u → Going c tears r p offer s₀ u) (applied : w.apply s = some t)
    (next : Going c tears r p offer s₀ t) (failed : ∀ e, k.faults → Q (.error e) s)
    (rest : Holds (freshDisk k) (Going c tears r p offer s₀) (f ()) Q t) :
    Holds (freshDisk k) (Going c tears r p offer s₀) ((write (.tree w) e).bind f) Q s := by
  refine holds_write (fun u cut => torn u cut.2) (fun refused => ⟨h, failed _ ?_⟩) fun u made => ?_
  · have some_ : (freshDisk k).apply (.tree w) s = some t := applied
    exact fails_of_refused some_ refused
  · obtain rfl := Option.some.inj (applied.symm.trans made)
    exact ⟨next, rest⟩

lemma Going.openVersionsRoot (h : Going c tears r p offer s₀ s)
    (failed : ∀ e, k.faults ∨ s.root ≠ .ready → Q (.error e) s)
    (rest : s.root = .ready → Holds (freshDisk k) (Going c tears r p offer s₀) (f ()) Q s) :
    Holds (freshDisk k) (Going c tears r p offer s₀) (Lifecycle.openVersionsRoot.bind f) Q s :=
  wp_reads (fun _ => h) (reads_fresh reads_openVersionsRoot) failed fun _ => rest

lemma Going.preparedRoot (h : Going c tears r p offer s₀ s)
    (failed : ∀ e t, Going c tears r p offer s₀ t → k.faults ∨ s.root = .unowned → Q (.error e) t)
    (rest : s.root ≠ .unowned → Going c tears r p offer s₀ { s with root := .ready } →
      Holds (freshDisk k) (Going c tears r p offer s₀) (f ()) Q { s with root := .ready }) :
    Holds (freshDisk k) (Going c tears r p offer s₀) ((Lifecycle.preparedRoot c false s).bind f) Q s := by
  have ready : Going c tears r p offer s₀ { s with root := .ready } := h.makeRoot (by decide)
  have opened (g : Unit → Run β) (rest' : Holds (freshDisk k) (Going c tears r p offer s₀) (g ()) Q { s with root := .ready }) :
      Holds (freshDisk k) (Going c tears r p offer s₀) (Lifecycle.openVersionsRoot.bind g) Q { s with root := .ready } :=
    ready.openVersionsRoot (fun e fails => failed e _ ready (.inl (fails.resolve_right fun other => other rfl)))
      fun _ => rest'
  simp only [Lifecycle.preparedRoot, bind_eq]
  cases root : s.root with
  | absent =>
    have made : s.root ≠ .unowned := by rw [root]; decide
    have go := opened (fun _ => Lifecycle.openVersionsRoot.bind f) (opened f (rest made ready))
    simp only [if_true, Prog.bind_assoc, createVersionsRoot, bind_eq, require, bind_ret, Bool.not_false]
    by_cases openbao : c.adapter = .openbao
    · simp only [if_pos openbao, Prog.bind_assoc]
      have half : Going c tears r p offer s₀ { s with root := .unowned } := h.makeRoot (by decide)
      refine h.tree (fun u torn => by cases torn) rfl half (fun e fault => failed e _ h (.inl fault)) ?_
      exact half.tree (fun u torn => by cases torn) rfl ready (fun e fault => failed e _ half (.inl fault)) go
    · simp only [if_neg openbao, Prog.bind_assoc]
      exact h.tree (fun u torn => by cases torn) rfl ready (fun e fault => failed e _ h (.inl fault)) go
  | unowned =>
    simp only [reduceCtorEq, if_false]
    refine h.openVersionsRoot (fun e _ => failed e _ h (.inr root)) fun ready => ?_
    rw [root] at ready
    cases ready
  | ready =>
    have same : { s with root := .ready } = s := by rw [← root]
    rw [same] at opened rest ready
    simp only [reduceCtorEq, if_false]
    exact opened f (rest (by rw [root]; decide) ready)

lemma reads_ingress : Reads (disk k) s (readIngress r)
    (fun _ => ∃ d, s.versions.lookup (.ingress r) = some d ∧ d.partialResponse = true)
    (k.faults ∨ ¬∃ d, s.versions.lookup (.ingress r) = some d ∧ d.partialResponse = true) := by
  refine reads_inspect.bind .inl fun _ _ => reads_look ?_
  refine (reads_ofOption (F := k.faults ∨ _) fun absent => .inr ?_).bind id fun d there => ?_
  · rintro ⟨d, there, -⟩
    rw [there] at absent
    cases absent
  refine (reads_require fun refused => .inr ?_).mono (fun _ partial_ => ⟨d, there, partial_⟩) id
  rintro ⟨d', there', partial_⟩
  obtain rfl := Option.some.inj (there.symm.trans there')
  rw [partial_] at refused
  cases refused

/-- The preparation of a state with its versions root, for a client or without a version. -/
lemma Going.prepareIngress (h : Going c tears r p offer s₀ { s with root := .ready }) (root : s.root ≠ .unowned)
    (client : c.adapter = .client → ClientFit r p s) (fresh : .version r ∈ s.versions → c.adapter = .client) :
    Holds (freshDisk k) (Going c tears r p offer s₀) (Lifecycle.prepareIngress c false r { s with root := .ready })
      (Prepares c k r p offer s) { s with root := .ready } := by
  simp only [Lifecycle.prepareIngress]
  by_cases there : .ingress r ∈ s.versions
  · rw [if_pos there]
    have fit : (∃ d, s.versions.lookup (.ingress r) = some d ∧ d.partialResponse = true) → Preparable c r p s := by
      rintro ⟨d, found, partial_⟩
      refine ⟨root, fun is => ⟨client is, fun _ => there⟩, fun _ d' found' => ?_⟩
      rw [found] at found'
      exact Option.some.inj found' ▸ partial_
    refine wp_reads (fun _ => h) (reads_fresh reads_ingress) (fun e fails => .refused ?_) fun _ read => ?_
    · refine fails.imp_right fun none_ => .inr fun fit => none_ ?_
      obtain ⟨d, found⟩ := Option.isSome_iff_exists.mp (AList.lookup_isSome.mpr there)
      exact ⟨d, found, fit.ingress fresh d found⟩
    · obtain ⟨d, found, partial_⟩ := read
      refine .ready (fit ⟨d, found, partial_⟩) (.inr rfl) fresh
        ⟨rfl, found, fun d' found' => Option.some.inj (found.symm.trans found'), fun none_ => ?_, fun _ _ => rfl⟩
      have there' : s.versions.lookup (.ingress r) = some d := found
      rw [there'] at none_
      cases none_
  · rw [if_neg there]
    refine holds_check (fun refused => .refused (.inr (.inr fun fit => ?_))) fun passed => ?_
    · simp only [ne_eq, Bool.or_eq_false_iff, decide_eq_false_iff_not, Decidable.not_not] at refused
      exact there ((fit.client refused.1).2 (by simpa using refused.2))
    · have none_ : s.versions.lookup (.ingress r) = none := AList.lookup_eq_none.mpr there
      have fit : Preparable c r p s := by
        refine ⟨root, fun is => ⟨client is, fun version => ?_⟩, fun _ d found => ?_⟩
        · simp [is, version] at passed
        · rw [none_] at found
          cases found
      refine holds_ask h fun id _ => ?_
      have made : Going c tears r p offer s₀
          { s with root := .ready, versions := s.versions.insert (.ingress r) ⟨id, ∅⟩ } :=
        h.insert (fun absent => by cases absent) (.inr (.inl rfl)) (by rintro ⟨⟩) fun _ f x found => by cases found
      refine h.tree (fun u torn => by cases torn) (if_neg there) made (fun e fault => .refused (.inl fault)) ?_
      have found : ({ s with root := .ready, versions := s.versions.insert (.ingress r) ⟨id, ∅⟩ } : State).versions.lookup
          (.ingress r) = some ⟨id, ∅⟩ := AList.lookup_insert s.versions
      refine wp_reads (fun _ => made) (reads_fresh reads_ingress) (fun e fails => .refused (.inl ?_)) fun _ _ => ?_
      · exact fails.resolve_right fun none_ => none_ ⟨_, found, rfl⟩
      · refine .ready fit (.inl rfl) fresh ⟨rfl, found, fun d' found' => ?_, fun _ => rfl, fun e other => ?_⟩
        · rw [none_] at found'
          cases found'
        · exact AList.lookup_insert_ne other

theorem Going.responsePrepare (h : Going c tears r p offer s₀ s) (awaits : Awaits c r p s) :
    Holds (freshDisk k) (Going c tears r p offer s₀) (Lifecycle.responsePrepare c false r)
      (Prepares c k r p offer s) s := by
  refine wp_reads (fun _ => h) (reads_fresh (awaits.reads_commonOpen offer)) (fun e fails => .refused ?_) fun _ client => ?_
  · exact fails.imp_right fun fails => fails.imp_right fun unfit fit => unfit.2 (fit.client unfit.1).1
  refine wp_reads (fun _ => h) (reads_fresh reads_stateEntries) (fun e fails => .refused (.inl ?_)) ?_
  · exact fails.resolve_right fun dirty => dirty awaits.clean
  rintro s ⟨rfl, -⟩
  refine holds_check (fun open_ => ?_) fun _ => ?_
  · rw [awaits.journal] at open_
    cases open_
  refine h.preparedRoot (fun e t _ fails => .refused ?_) fun root ready => holds_look ready ?_
  · exact fails.imp_right fun unowned => .inr fun fit => fit.root unowned
  have awaits' := awaits.elsewhere .ready s.versions
  by_cases installed : .version r ∈ s.versions ∧ c.adapter ≠ .client
  · rw [if_pos installed]
    obtain ⟨d, found⟩ := Option.isSome_iff_exists.mp (AList.lookup_isSome.mpr installed.1)
    have fit : Preparable c r p s :=
      ⟨root, fun is => absurd is installed.2, fun is => absurd (is installed.1) installed.2⟩
    refine wp_reads (fun _ => ready) (reads_fresh reads_validateVersion) (fun e fails => .refused (.inl ?_))
      fun _ _ => .installed fit installed.2 installed.1
    refine fails.resolve_right fun none_ => ?_
    have there : ({ s with root := .ready } : State).versions.lookup (.version r) = some d := found
    simp [State.versionAt, there, (h.version d found).1] at none_
  · rw [if_neg installed]
    refine wp_reads (fun _ => ready) (reads_fresh reads_inspect) (fun e fault => .refused (.inl fault)) fun _ _ => ?_
    refine wp_reads (fun _ => ready) (reads_fresh (awaits'.reads_receivable offer)) (fun e fails => .refused ?_)
      fun _ _ => ?_
    · exact fails.imp_right .inl
    · refine ready.prepareIngress root client fun version => ?_
      by_contra server
      exact installed ⟨version, server⟩

/-! ## Changes of one directory -/

/-- Two states with the same versions root but for one entry. -/
structure Beside (e : VersionEntry) (s t : State) : Prop where
  root : t.root = s.root
  others : ∀ e', e' ≠ e → t.versions.lookup e' = s.versions.lookup e'

lemma Beside.refl (e : VersionEntry) (s : State) : Beside e s s := ⟨rfl, fun _ _ => rfl⟩

lemma Beside.trans {e : VersionEntry} {s t u : State} (h : Beside e s t) (h' : Beside e t u) : Beside e s u :=
  ⟨h'.root.trans h.root, fun e' other => (h'.others e' other).trans (h.others e' other)⟩

lemma beside_insert (e : VersionEntry) (d : Dir) (s : State) :
    Beside e s { s with versions := s.versions.insert e d } :=
  ⟨rfl, fun _ other => AList.lookup_insert_ne other⟩

lemma beside_erase (e : VersionEntry) (s : State) : Beside e s { s with versions := s.versions.erase e } :=
  ⟨rfl, fun _ other => AList.lookup_erase_ne other⟩

/-- The removal of files of the ingress. -/
lemma Going.unlinkAll {l : List FileName} {d : Dir} (h : Going c tears r p offer s₀ s) (root : s.root ≠ .absent)
    (found : s.versions.lookup (.ingress r) = some d) (distinct : l.Nodup) (all : ∀ f ∈ l, f ∈ d.files)
    (failed : ∀ e t, Going c tears r p offer s₀ t → k.faults → Q (.error e) t)
    (rest : ∀ t d', Going c tears r p offer s₀ t → Beside (.ingress r) s t →
      t.versions.lookup (.ingress r) = some d' → (∀ x, x ∈ d'.files ↔ x ∈ d.files ∧ x ∉ l) →
      Holds (freshDisk k) (Going c tears r p offer s₀) (f ()) Q t) :
    Holds (freshDisk k) (Going c tears r p offer s₀) ((Lifecycle.unlinkAll (.ingress r) l).bind f) Q s := by
  induction l generalizing s d with
  | nil => exact rest s d h (.refl _ _) found (by simp)
  | cons x l ih =>
    simp only [Lifecycle.unlinkAll, bind_eq, Prog.bind_assoc]
    refine wp_reads (fun _ => h) (reads_fresh reads_inspect) (fun e fault => failed e s h fault) fun _ _ => ?_
    have applied : (TreeWrite.unlinkFile (.ingress r) x).apply s =
        some { s with versions := s.versions.insert (.ingress r) { d with files := d.files.erase x } } := by
      simp [TreeWrite.apply, State.change, found, all x List.mem_cons_self]
    have next : Going c tears r p offer s₀
        { s with versions := s.versions.insert (.ingress r) { d with files := d.files.erase x } } := by
      refine h.insert root (.inr (.inl rfl)) (by rintro ⟨⟩) fun _ y z at_ => ?_
      by_cases same : y = x
      · subst same
        rw [AList.lookup_erase] at at_
        cases at_
      · exact h.ingress d found y z (by rwa [AList.lookup_erase_ne same] at at_)
    rw [List.nodup_cons] at distinct
    refine h.tree (fun u torn => by cases torn) applied next (fun e fault => failed e s h fault) ?_
    refine ih next root (AList.lookup_insert _) distinct.2 (fun y mem => ?_) fun t d' going beside at_ left => ?_
    · refine AList.mem_erase.mpr ⟨?_, all y (List.mem_cons_of_mem x mem)⟩
      rintro rfl
      exact distinct.1 mem
    · refine rest t d' going ((beside_insert _ _ s).trans beside) at_ fun y => ?_
      rw [left, AList.mem_erase, List.mem_cons]
      tauto

lemma responseNames_nodup : responseNames.Nodup := by decide

/-- The removal of a whole ingress. -/
lemma Going.removeExactTree {d : Dir} (h : Going c tears r p offer s₀ s) (root : s.root ≠ .absent)
    (found : s.versions.lookup (.ingress r) = some d) (full : d.exact responseNames = true)
    (failed : ∀ e t, Going c tears r p offer s₀ t → k.faults → Q (.error e) t)
    (rest : ∀ t, Going c tears r p offer s₀ t → Beside (.ingress r) s t → t.versions.lookup (.ingress r) = none →
      Holds (freshDisk k) (Going c tears r p offer s₀) (f ()) Q t) :
    Holds (freshDisk k) (Going c tears r p offer s₀) ((Lifecycle.removeExactTree r).bind f) Q s := by
  simp only [Dir.exact, Bool.and_eq_true, decide_eq_true_eq, List.all_eq_true] at full
  simp only [Lifecycle.removeExactTree, bind_eq, Prog.bind_assoc]
  refine h.unlinkAll root found responseNames_nodup (fun x mem => ?_) failed fun t d' going beside at_ left => ?_
  · have there := full.2 x mem
    rw [Option.any_eq_true] at there
    obtain ⟨y, at_, -⟩ := there
    exact AList.lookup_isSome.mp (by rw [at_]; rfl)
  refine wp_reads (fun _ => going) (reads_fresh reads_inspect) (fun e fault => failed e t going fault) fun _ _ => ?_
  have empty : d'.files.keys = [] := by
    refine List.eq_nil_iff_forall_not_mem.mpr fun x mem => ?_
    obtain ⟨in_, out⟩ := (left x).mp mem
    exact out (full.1 x in_)
  have applied : (TreeWrite.rmdir (.ingress r)).apply t = some { t with versions := t.versions.erase (.ingress r) } := by
    simp [TreeWrite.apply, at_, empty]
  refine going.tree (fun u torn => by cases torn) applied (going.erase _) (fun e fault => failed e t going fault) ?_
  exact rest _ (going.erase _) (beside.trans (beside_erase _ t)) (AList.lookup_erase _ _)

/-! ## Publication -/

/-- The writing of the files of a stage. -/
lemma Going.writeStage {tx : String} {files : Contents} {l : List FileName} {d : Dir}
    (h : Going c tears r p offer s₀ s) (root : s.root ≠ .absent)
    (found : s.versions.lookup (.stage r tx) = some d) (distinct : l.Nodup) (new : ∀ x ∈ l, x ∉ d.files)
    (failed : ∀ e t, Going c tears r p offer s₀ t → k.faults → Q (.error e) t)
    (rest : ∀ t d', Going c tears r p offer s₀ t → Beside (.stage r tx) s t →
      t.versions.lookup (.stage r tx) = some d' →
      (∀ x, d'.files.lookup x = if x ∈ l then some ((files x).getD []) else d.files.lookup x) →
      Holds (freshDisk k) (Going c tears r p offer s₀) (f ()) Q t) :
    Holds (freshDisk k) (Going c tears r p offer s₀) ((Lifecycle.writeStage (.stage r tx) files l).bind f) Q s := by
  induction l generalizing s d with
  | nil => exact rest s d h (.refl _ _) found (by simp)
  | cons x l ih =>
    have applied : ∀ y, (TreeWrite.writeFile (.stage r tx) x y).apply s =
        some { s with versions := s.versions.insert (.stage r tx) { d with files := d.files.insert x y } } := by
      intro y
      simp [TreeWrite.apply, State.change, found, new x List.mem_cons_self]
    have next : ∀ y, Going c tears r p offer s₀
        { s with versions := s.versions.insert (.stage r tx) { d with files := d.files.insert x y } } := fun y =>
      h.insert root (.inr (.inr ⟨tx, rfl⟩)) (by rintro ⟨⟩) (by rintro ⟨⟩)
    rw [List.nodup_cons] at distinct
    simp only [Lifecycle.writeStage, bind_eq, Prog.bind_assoc]
    refine h.tree (fun u torn => ?_) (applied _) (next _) (fun e fault => failed e s h fault) ?_
    · cases torn with
      | file _ _ made =>
        obtain rfl := Option.some.inj ((applied _).symm.trans made)
        exact next _
    · refine ih (next _) root (AList.lookup_insert _) distinct.2 (fun y mem in_ => ?_)
        fun t d' going beside at_ files_ => rest t d' going ((beside_insert _ _ s).trans beside) at_ fun y => ?_
      · rcases AList.mem_insert _ |>.mp in_ with rfl | there
        · exact distinct.1 mem
        · exact new y (List.mem_cons_of_mem x mem) there
      · rw [files_]
        by_cases same : y = x
        · subst same
          rw [if_neg distinct.1, if_pos List.mem_cons_self]
          exact AList.lookup_insert _
        · simp only [List.mem_cons, same, false_or]
          rw [show (AList.insert x ((files x).getD []) d.files).lookup y = d.files.lookup y from
            AList.lookup_insert_ne same]

/-- What an installation leaves: the version in the place of the ingress. -/
structure Installed (r : String) (s t : State) : Prop where
  root : t.root = .ready
  version : .version r ∈ t.versions
  ingress : .ingress r ∉ t.versions
  others : ∀ e, e ≠ .version r → e ≠ .ingress r → t.versions.lookup e = s.versions.lookup e

lemma versionNames_nodup : versionNames.Nodup := by decide

/-- A directory with the files of the publication is one that is published. -/
lemma publishedFrom_of_files {d : Dir} (readables : ∀ f ∈ versionNames, (publication p.files offer f).any readable = true)
    (files : ∀ x, d.files.lookup x = if x ∈ versionNames then some ((publication p.files offer x).getD []) else none) :
    PublishedFrom p offer d := by
  have value : ∀ x ∈ versionNames, d.files.lookup x = publication p.files offer x := by
    intro x mem
    obtain ⟨y, there, -⟩ := (Option.any_eq_true _ _).mp (readables x mem)
    rw [files, if_pos mem, there, Option.getD_some]
  constructor
  · simp only [Dir.exact, Bool.and_eq_true, decide_eq_true_eq, List.all_eq_true]
    refine ⟨fun x mem => ?_, fun x mem => by rw [value x mem]; exact readables x mem⟩
    by_contra out
    have none_ := files x
    rw [if_neg out, AList.lookup_eq_none] at none_
    exact none_ mem
  · simp only [agreeOn, List.all_eq_true, decide_eq_true_eq]
    intro x mem
    rw [Dir.contents, if_pos mem, value x mem]

/-- The publication of a version that is not there. -/
lemma Going.publishVersion {d : Dir} (h : Going c tears r p offer s₀ s) (start : Awaits c r p s₀) (root : s.root = .ready)
    (readables : ∀ f ∈ versionNames, (publication p.files offer f).any readable = true)
    (absent : .version r ∉ s.versions) (found : s.versions.lookup (.ingress r) = some d)
    (full : d.exact responseNames = true)
    (failed : ∀ e t, Going c tears r p offer s₀ t → k.faults ∨ ¬Timely c k r p offer s₀ → Q (.error e) t)
    (rest : ∀ t, Going c tears r p offer s₀ t → Installed r s t →
      Holds (freshDisk k) (Going c tears r p offer s₀) (f ()) Q t) :
    Holds (freshDisk k) (Going c tears r p offer s₀)
      ((Lifecycle.publishVersion c r (publication p.files offer)).bind f) Q s := by
  have made : s.root ≠ .absent := by rw [root]; decide
  simp only [Lifecycle.publishVersion, bind_eq, Prog.bind_assoc]
  refine holds_ask h fun tx fresh => holds_ask h fun id _ => ?_
  have new : .stage r tx ∉ s.versions := fresh r
  have staged : Going c tears r p offer s₀ { s with versions := s.versions.insert (.stage r tx) ⟨id, ∅⟩ } :=
    h.insert made (.inr (.inr ⟨tx, rfl⟩)) (by rintro ⟨⟩) (by rintro ⟨⟩)
  refine h.tree (fun u torn => by cases torn) (if_neg new) staged (fun e fault => failed e s h (.inl fault)) ?_
  refine staged.writeStage made (AList.lookup_insert _) versionNames_nodup (fun x _ => AList.notMem_empty x)
    (fun e t going fault => failed e t going (.inl fault)) fun t v going beside at_ files => ?_
  have beside : Beside (.stage r tx) s t := (beside_insert _ _ s).trans beside
  have published : PublishedFrom p offer v := publishedFrom_of_files readables files
  have fault (e : String) (fault : k.faults) : Q (.error e) t := failed e t going (.inl fault)
  refine wp_reads (fun _ => going) (reads_fresh reads_inspect) fault fun _ _ => holds_look going ?_
  rw [at_]
  refine holds_checked (by rw [published.1, published.2]; rfl) ?_
  refine wp_reads (fun _ => going) (reads_fresh ((going.awaits start).reads_validatePending offer))
    (fun e fails => failed e t going (fails.imp_right (mt going.timely.mpr))) fun _ _ => ?_
  refine wp_reads (fun _ => going) (reads_fresh reads_inspect) fault fun _ _ => ?_
  -- the version in place of the stage
  have free : .version r ∉ t.versions := by
    rwa [← AList.lookup_eq_none, beside.others _ (by rintro ⟨⟩), AList.lookup_eq_none]
  have root' : t.root ≠ .absent := by rw [beside.root]; exact made
  have renamed : Going c tears r p offer s₀
      { t with versions := (t.versions.erase (.stage r tx)).insert (.version r) v } :=
    (going.erase (.stage r tx)).insert root' (.inl rfl) (fun _ => published) (by rintro ⟨⟩)
  have applied : (TreeWrite.publish r tx).apply t =
      some { t with versions := (t.versions.erase (.stage r tx)).insert (.version r) v } := by
    simp [TreeWrite.apply, at_, free]
  refine going.tree (fun u torn => by cases torn) applied renamed fault ?_
  have fault' (e : String) (fault : k.faults) := failed e _ renamed (.inl fault)
  refine wp_reads (fun _ => renamed) (reads_fresh reads_inspect) fault' fun _ _ => ?_
  refine wp_reads (fun _ => renamed) (reads_fresh reads_validateVersion) (fun e fails => fault' e ?_) fun _ _ => ?_
  · refine fails.resolve_right fun none_ => ?_
    simp [State.versionAt, published.1] at none_
  have ingress : ((t.versions.erase (.stage r tx)).insert (.version r) v).lookup (.ingress r) = some d := by
    rw [AList.lookup_insert_ne (by rintro ⟨⟩), AList.lookup_erase_ne (by rintro ⟨⟩),
      beside.others _ (by rintro ⟨⟩), found]
  refine renamed.removeExactTree root' ingress full (fun e u going fault => failed e u going (.inl fault))
    fun u going' beside' gone => rest u going' ⟨beside'.root.trans (beside.root.trans root), ?_, ?_, fun e v_ i_ => ?_⟩
  · rw [← AList.lookup_isSome, beside'.others _ (by rintro ⟨⟩), AList.lookup_insert]
    rfl
  · rwa [← AList.lookup_eq_none]
  · rw [beside'.others e i_]
    change ((t.versions.erase (.stage r tx)).insert (.version r) v).lookup e = _
    rw [AList.lookup_insert_ne v_]
    by_cases same : e = .stage r tx
    · subst same
      rw [AList.lookup_erase, AList.lookup_eq_none.mpr new]
    · rw [AList.lookup_erase_ne same, beside.others e same]

/-! ## Installation -/

/-- How an installation of a whole ingress ends. -/
inductive Installs (c : Target) (k : Conditions) (r : String) (p : Pending) (offer : Contents) (s₀ s : State) :
    Except String Report → State → Prop
  | done {o : Report} {t : State} (client : c.adapter = .client → ClientFit r p s)
      (status : o = installReport c (if .version r ∈ s.versions then .existing else .installed))
      (installed : Installed r s t) : Installs c k r p offer s₀ s (.ok o) t
  | refused {e : String} {t : State}
      (unfit : k.faults ∨ ¬Timely c k r p offer s₀ ∨ c.adapter = .client ∧ ¬ClientFit r p s) :
      Installs c k r p offer s₀ s (.error e) t

/-- The files of a pending request and of a whole ingress are readable. -/
lemma publication_readable {d : Dir} (awaits : Awaits c r p s) (full : d.exact responseNames = true)
    (same : d.contents responseNames = offer) :
    ∀ f ∈ versionNames, (publication p.files offer f).any readable = true := by
  intro f mem
  obtain ⟨n, there⟩ := awaits.pending
  obtain ⟨dir, -, valid⟩ := Option.bind_eq_some_iff.mp there
  unfold Target.validatePending at valid
  split at valid
  · rename_i pending
    obtain ⟨record, -, rfl⟩ := Option.map_eq_some_iff.mp valid
    simp only [Dir.exact, Bool.and_eq_true, List.all_eq_true] at pending full
    by_cases own : f = .key ∨ f = .csr
    · have named : f ∈ pendingNames := by rcases own with rfl | rfl <;> decide
      simp only [publication, if_pos own, Dir.contents, if_pos named]
      exact pending.2 f named
    · have named : f ∈ responseNames :=
        (by decide : ∀ f ∈ versionNames, ¬(f = .key ∨ f = .csr) → f ∈ responseNames) f mem own
      simp only [publication, if_neg own, ← same, Dir.contents, if_pos named]
      exact full.2 f named
  · cases valid

theorem Going.install {d : Dir} (h : Going c tears r p offer s₀ s) (start : Awaits c r p s₀) (root : s.root = .ready)
    (found : s.versions.lookup (.ingress r) = some d) (full : d.exact responseNames = true)
    (same : d.contents responseNames = offer) :
    Holds (freshDisk k) (Going c tears r p offer s₀) (targetResponseInstall c false) (Installs c k r p offer s₀ s) s := by
  have awaits := h.awaits start
  have made : s.root ≠ .absent := by rw [root]; decide
  have fault {e : String} {t : State} (fault : k.faults) : Installs c k r p offer s₀ s (.error e) t := .refused (.inl fault)
  have late {e : String} {t : State} (fails : k.faults ∨ ¬Timely c k r p offer s) :
      Installs c k r p offer s₀ s (.error e) t :=
    .refused (fails.imp_right fun late => .inl (mt h.timely.mpr late))
  have legible : s.artifactLegible (.ingress r) := by
    simp only [Dir.exact, Bool.and_eq_true, List.all_eq_true] at full
    obtain ⟨a, at_, fine⟩ := (Option.any_eq_true _ _).mp (full.2 .artifact (by decide))
    exact ⟨d, a, found, at_, fine⟩
  simp only [targetResponseInstall, bind_eq]
  refine wp_reads (fun _ => h) (reads_fresh awaits.reads_pendingRequestId) (fun e => fault) ?_
  rintro r rfl
  refine holds_look h ?_
  rw [if_neg fun absent => absent.2 (AList.lookup_isSome.mp (by rw [found]; rfl))]
  refine wp_reads (fun _ => h) (reads_fresh reads_artifactDigest) (fun e fails => fault ?_) fun _ _ => ?_
  · exact fails.resolve_right fun illegible => illegible legible
  simp only [responseInstall, bind_eq]
  refine wp_reads (fun _ => h) (reads_fresh (awaits.reads_commonOpen offer)) (fun e fails => ?_)
    fun _ client => ?_
  · exact .refused (fails.imp_right fun fails => fails.imp_left (mt h.timely.mpr))
  refine wp_reads (fun _ => h) (reads_fresh reads_stateEntries) (fun e fails => fault ?_) ?_
  · exact fails.resolve_right fun dirty => dirty awaits.clean
  rintro s ⟨rfl, -⟩
  refine holds_check (fun open_ => ?_) fun _ => ?_
  · simp [awaits.journal, awaits.requestJournal, awaits.trustJournal] at open_
  refine wp_reads (fun _ => h) (reads_fresh reads_inspect) (fun e => fault) fun _ _ => ?_
  refine wp_reads (fun _ => h) (reads_fresh (awaits.reads_receivable offer)) (fun e => late) fun q is => ?_
  refine h.openVersionsRoot (fun e fails => fault (fails.resolve_right fun other => other root)) fun _ => ?_
  refine wp_reads (fun _ => h) (reads_fresh reads_inspect) (fun e => fault) fun _ _ => holds_look h ?_
  rw [found]
  refine holds_checked full ?_
  rw [same]
  refine wp_reads (fun _ => h) (reads_fresh (reads_response is)) (fun e => late) fun _ _ => ?_
  rw [is.2]
  by_cases there : .version r ∈ s.versions
  · obtain ⟨v, version⟩ := Option.isSome_iff_exists.mp (AList.lookup_isSome.mpr there)
    have exact_ := h.version v version
    rw [if_pos there]
    refine wp_reads (fun _ => h) (reads_fresh reads_validateVersion) (fun e fails => fault ?_) fun v' read => ?_
    · refine fails.resolve_right fun none_ => ?_
      simp [State.versionAt, version, exact_.1] at none_
    obtain ⟨rfl, -⟩ : v = v' ∧ v'.exact versionNames = true := by simpa [State.versionAt, version] using read
    refine holds_checked exact_.2 ?_
    refine h.removeExactTree made found full (fun e t _ => fault) fun t _ beside gone => ?_
    refine .done client (by rw [if_pos there]) ⟨beside.root.trans root, ?_, AList.lookup_eq_none.mp gone,
      fun e _ other => beside.others e other⟩
    rw [← AList.lookup_isSome, beside.others _ (by rintro ⟨⟩), version]
    rfl
  · rw [if_neg there]
    refine h.publishVersion start root (publication_readable awaits full same) there found full (fun e t _ fails => ?_)
      fun t _ installed => .done client (by rw [if_neg there]) installed
    exact .refused (fails.imp_right .inl)

/-! ## The status of a client -/

/-- The response files of a version, of which the contents are known. -/
lemma PublishedFrom.contents {d : Dir} (h : PublishedFrom p offer d) (narrow : ∀ f, f ∉ responseNames → offer f = none) :
    d.contents responseNames = offer := by
  funext f
  by_cases mem : f ∈ responseNames
  · have named : f ∈ versionNames := (by decide : ∀ f ∈ responseNames, f ∈ versionNames) f mem
    have other : ¬(f = .key ∨ f = .csr) := (by decide : ∀ f ∈ responseNames, ¬(f = .key ∨ f = .csr)) f mem
    have agree := h.2
    simp only [agreeOn, List.all_eq_true, decide_eq_true_eq] at agree
    have here := agree f named
    rw [Dir.contents, if_pos named, publication, if_neg other] at here
    rw [Dir.contents, if_pos mem, here]
  · rw [Dir.contents, if_neg mem, narrow f mem]

/-- What `client_staging_preflight` asks of a versions root that only these commands have changed. -/
lemma Going.clientVersions_iff (h : Going c tears r p offer s₀ s) (client : c.adapter = .client) :
    clientVersions r p s = true ↔ (∀ tx, .stage r tx ∉ s.versions) ∧
      ∀ d, s.versions.lookup (.ingress r) = some d → d.partialResponse = true ∧
        (.version r ∈ s.versions → responseNames.all (· ∈ d.files) = true ∧
          agreeOn responseNames (d.contents responseNames) offer = true) := by
  have keys : (∀ e ∈ s.versions.keys, e = .version r ∨ e = .ingress r) ↔ ∀ tx, .stage r tx ∉ s.versions := by
    constructor
    · intro only tx there
      rcases only _ there with same | same <;> cases same
    · intro none_ e mem
      rcases h.only client e mem with same | same | ⟨tx, rfl⟩
      · exact .inl same
      · exact .inr same
      · exact absurd mem (none_ tx)
  have own {v : Dir} (version : s.versions.lookup (.version r) = some v) :
      v.exact versionNames = true ∧ agreeOn [.key, .csr] (v.contents versionNames) p.files = true := by
    have agree := (h.version v version).2
    simp only [agreeOn, List.all_eq_true, decide_eq_true_eq] at agree ⊢
    refine ⟨(h.version v version).1, fun f mem => ?_⟩
    have named : f ∈ versionNames := (by decide : ∀ f ∈ [FileName.key, FileName.csr], f ∈ versionNames) f mem
    have key : f = .key ∨ f = .csr := by simpa using mem
    rw [agree f named, publication, if_pos key]
  have response {v : Dir} (version : s.versions.lookup (.version r) = some v) (a : Contents) :
      agreeOn responseNames a (v.contents versionNames) = agreeOn responseNames a offer := by
    have agree := (h.version v version).2
    simp only [agreeOn, List.all_eq_true, decide_eq_true_eq] at agree
    rw [Bool.eq_iff_iff]
    simp only [agreeOn, List.all_eq_true, decide_eq_true_eq]
    refine forall₂_congr fun f mem => ?_
    have named : f ∈ versionNames := (by decide : ∀ f ∈ responseNames, f ∈ versionNames) f mem
    have other : ¬(f = .key ∨ f = .csr) := (by decide : ∀ f ∈ responseNames, ¬(f = .key ∨ f = .csr)) f mem
    rw [agree f named, publication, if_neg other]
  simp only [clientVersions, Bool.and_eq_true, decide_eq_true_eq, keys, and_assoc]
  refine and_congr_right fun _ => ?_
  cases version : s.versions.lookup (.version r) with
  | none =>
    have absent : .version r ∉ s.versions := AList.lookup_eq_none.mp version
    cases s.versions.lookup (.ingress r) <;> simp [absent]
  | some v =>
    have there : .version r ∈ s.versions := AList.lookup_isSome.mp (by rw [version]; rfl)
    obtain ⟨exact_, keys_⟩ := own version
    cases s.versions.lookup (.ingress r) <;> simp [there, exact_, keys_, response version]

/-- A whole ingress can be completed, with nothing left to do. -/
lemma exact_partial {d : Dir} (full : d.exact responseNames = true) :
    d.partialResponse = true ∧ responseNames.all (· ∈ d.files) = true := by
  simp only [Dir.exact, Dir.partialResponse, Bool.and_eq_true, decide_eq_true_eq, List.all_eq_true] at full ⊢
  refine ⟨⟨full.1, fun f mem => full.2 f (full.1 f mem)⟩, fun f mem => ?_⟩
  obtain ⟨y, at_, -⟩ := (Option.any_eq_true _ _).mp (full.2 f mem)
  exact AList.lookup_isSome.mp (by rw [at_]; rfl)

/-- The status of a client with a version. -/
def stagedStatus (r : String) (s : State) : Status :=
  if .ingress r ∈ s.versions then ⟨.stagedPending, some r, .installResponse⟩ else ⟨.staged, some r, .none⟩

/-- A retained ingress beside a version in which a client can go on. -/
lemma ClientFit.retained {v d : Dir} (h : ClientFit r p s) (made : s.root ≠ .absent)
    (version : s.versions.lookup (.version r) = some v) (found : s.versions.lookup (.ingress r) = some d) :
    d.partialResponse = true ∧ responseNames.all (· ∈ d.files) = true ∧
      agreeOn responseNames (d.contents responseNames) (v.contents versionNames) = true := by
  have fit := (h.resolve_left made).2
  simp only [clientVersions, version, found, Option.all_some, Bool.and_eq_true] at fit
  exact ⟨fit.2.1, fit.2.2.1, fit.2.2.2⟩

lemma Going.reads_clientStageStatus {v : Dir} (h : Going c tears r p offer s₀ s) (start : Awaits c r p s₀)
    (client : c.adapter = .client) (version : s.versions.lookup (.version r) = some v)
    (narrow : ∀ f, f ∉ responseNames → offer f = none) : Reads (disk k) s (clientStageStatus c false)
      (fun o => ClientFit r p s ∧ o = stagedStatus r s) (k.faults ∨ ¬Timely c k r p offer s₀ ∨ ¬ClientFit r p s) := by
  have awaits := h.awaits start
  have there : .version r ∈ s.versions := AList.lookup_isSome.mp (by rw [version]; rfl)
  have made : s.root ≠ .absent := fun absent => by
    rw [h.bare absent] at there
    exact AList.notMem_empty _ there
  have exact_ := h.version v version
  have late {q : Prop} (fails : k.faults ∨ ¬Timely c k r p offer s) : k.faults ∨ ¬Timely c k r p offer s₀ ∨ q :=
    fails.imp_right fun late => .inl (mt h.timely.mpr late)
  simp only [clientStageStatus, bind_eq]
  refine reads_check (fun other => by simp [client] at other) fun _ => ?_
  refine (awaits.reads_commonOpen offer).bind (fun fails => ?_) fun _ fit => ?_
  · exact fails.imp_right fun fails => fails.imp (mt h.timely.mpr) And.right
  refine awaits.reads_pendingRequestId.bind .inl ?_
  rintro r rfl
  refine reads_inspect.bind .inl fun _ _ => ?_
  refine (awaits.reads_validatePending offer).bind late fun q is => reads_look ?_
  have fit := fit client
  have selected : Reads (disk k) s (clientVersionStatus c r q s) (fun o => o = stagedStatus r s)
      (k.faults ∨ ¬Timely c k r p offer s₀ ∨ ¬ClientFit r p s) := by
    simp only [clientVersionStatus, if_pos there, bind_eq]
    refine reads_validateVersion.bind (fun fails => .inl (fails.resolve_right fun none_ => ?_)) fun v' read => ?_
    · simp [State.versionAt, version, exact_.1] at none_
    obtain ⟨rfl, -⟩ : v = v' ∧ v'.exact versionNames = true := by simpa [State.versionAt, version] using read
    rw [exact_.contents narrow]
    exact (reads_response is).bind late fun _ _ => reads_ret rfl
  refine selected.bind id ?_
  rintro o rfl
  cases found : s.versions.lookup (.ingress r) with
  | none => exact reads_check (fun refused => by simp at refused) fun _ => reads_ret ⟨fit, rfl⟩
  | some d =>
    obtain ⟨part, full, agree⟩ := fit.retained made version found
    have same : d.contents responseNames = offer := by
      rw [← exact_.contents narrow]
      funext f
      by_cases mem : f ∈ responseNames
      · simp only [agreeOn, List.all_eq_true, decide_eq_true_eq] at agree
        have named : f ∈ versionNames := (by decide : ∀ f ∈ responseNames, f ∈ versionNames) f mem
        have here := agree f mem
        rw [here, Dir.contents, Dir.contents, if_pos named, if_pos mem]
      · rw [Dir.contents, Dir.contents, if_neg mem, if_neg mem]
    have status : Reads (disk k) s (clientIngressStatus c r q (.version r ∈ s.versions) d (stagedStatus r s))
        (fun o => o = stagedStatus r s) (k.faults ∨ ¬Timely c k r p offer s₀ ∨ ¬ClientFit r p s) := by
      simp only [clientIngressStatus, bind_eq, there, decide_true, if_true]
      refine reads_inspect.bind .inl fun _ _ => reads_check (fun refused => ?_) fun _ => ?_
      · rw [part] at refused
        cases refused
      rw [if_pos full, same]
      exact (reads_response is).bind late fun _ _ => reads_ret rfl
    refine status.bind id ?_
    rintro o rfl
    exact reads_check (fun refused => by simp at refused) fun _ => reads_ret ⟨fit, rfl⟩

end PlatformConfig.Lifecycle
