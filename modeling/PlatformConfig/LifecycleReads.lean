import PlatformConfig.LifecycleStatus

/-!
# What the readers of the lifecycle find

For every reader: what its value says about the state it was run in, and the reasons for which
it can fail. The readers change nothing, so one statement about a fixed state is enough.
-/
namespace PlatformConfig.Lifecycle

open CrashProgram CrashDisk Prog

variable {c : Target} {k : Conditions} {s : State} {α β : Type}

lemma reads_inspect {e : String} : Reads (disk k) s (inspect e) (fun _ => True) k.faults := by
  refine reads_ask fun passed answer => ?_
  have answer : passed = true ∨ k.faults := answer
  refine (reads_require fun refused => ?_).mono (fun _ _ => trivial) id
  rcases answer with rfl | faults
  · cases refused
  · exact faults

lemma reads_now {F : Prop} : Reads (disk k) s now k.clock F := by
  have asked : Reads (disk k) s (Prog.bind now .ret) k.clock F := reads_ask fun _ at_ => reads_ret at_
  rwa [bind_ret_right] at asked

lemma reads_ofOption {a : Option α} {e : String} {F : Prop} (absent : a = none → F) :
    Reads (disk k) s (ofOption a e) (fun x => a = some x) F := by
  cases a with
  | none => exact reads_fail (absent rfl)
  | some x => exact reads_ret rfl

lemma reads_requireServerAdapter {F : Prop} (client : c.adapter = .client → F) :
    Reads (disk k) s (requireServerAdapter c) (fun _ => c.adapter ≠ .client) F :=
  (reads_require fun refused => client (by simpa using refused)).mono
    (fun _ server => of_decide_eq_true server) id

lemma reads_stateEntries : Reads (disk k) s stateEntries (fun r => r = s ∧ s.leftovers = 0)
    (k.faults ∨ s.leftovers ≠ 0) := by
  refine reads_inspect.bind .inl fun _ _ => reads_look ?_
  refine reads_check (fun refused => .inr (of_decide_eq_false refused)) fun clean => ?_
  exact reads_ret ⟨rfl, of_decide_eq_true clean⟩

/-- The state holds a whole journal. -/
def State.holds (s : State) (j : Journal) : Prop := s.journal = some (.whole j)

lemma reads_readJournalFile : Reads (disk k) s (readJournalFile c)
    (fun j => s.holds j ∧ c.fits j = true) (k.faults ∨ ¬∃ j, s.holds j ∧ c.fits j = true) := by
  refine reads_inspect.bind .inl fun _ _ => reads_look ?_
  have whole : ∀ j, s.journal.bind Content.value = some j ↔ s.holds j := by
    intro j
    cases at_ : s.journal with
    | none => simp [State.holds, at_]
    | some x => cases x <;> simp [State.holds, at_, Content.value]
  refine (reads_ofOption (F := k.faults ∨ ¬∃ j, s.holds j ∧ c.fits j = true)
    fun absent => .inr ?_).bind id fun j there => ?_
  · rintro ⟨j, held, -⟩
    rw [(whole j).mpr held] at absent
    cases absent
  · have held := (whole j).mp there
    refine reads_check (fun refused => .inr ?_) fun fits => reads_ret ⟨held, fits⟩
    rintro ⟨j', held', fits⟩
    obtain rfl : j = j' := by
      have same := held.symm.trans held'
      simpa using same
    rw [fits] at refused
    cases refused

/-- A journal that the helper accepts. -/
structure Accepted (c : Target) (s : State) (j : Journal) : Prop where
  held : s.holds j
  fits : c.fits j = true
  bound : c.journalBound j = true

lemma State.holds.unique {j j' : Journal} (h : s.holds j) (h' : s.holds j') : j = j' := by
  have same := h.symm.trans h'
  simpa using same

lemma reads_readJournal : Reads (disk k) s (readJournal c) (Accepted c s)
    (k.faults ∨ ¬∃ j, Accepted c s j) := by
  refine reads_readJournalFile.bind (fun fails => fails.imp_right ?_) ?_
  · rintro none_ ⟨j, held, fits, -⟩
    exact none_ ⟨j, held, fits⟩
  · rintro j ⟨held, fits⟩
    refine reads_check (fun refused => .inr ?_) fun bound => reads_ret ⟨held, fits, bound⟩
    rintro ⟨j', held', -, bound⟩
    obtain rfl := held.unique held'
    rw [bound] at refused
    cases refused

lemma parseTerminal_eq {x : Content Terminal} {t : Terminal} :
    parseTerminal x = some t ↔ x = .whole t ∧ t.wellFormed = true := by
  cases x with
  | torn => simp [parseTerminal, Content.value]
  | whole u =>
    simp only [parseTerminal, Content.value, Option.filter_eq_some_iff, Option.some.injEq,
      Content.whole.injEq]

/-- The terminal record can be read. -/
def State.terminalLegible (s : State) : Prop :=
  ∀ x, s.terminal = some x → ∃ t, x = .whole t ∧ t.wellFormed = true

/-- The terminal record of the state, as a reader finds it. -/
structure Finds (s : State) (t : Option Terminal) : Prop where
  at_ : s.terminal = t.map .whole
  wellFormed : ∀ u, t = some u → u.wellFormed = true

lemma reads_readTerminal : Reads (disk k) s readTerminal (Finds s)
    (k.faults ∨ ¬s.terminalLegible) := by
  refine reads_inspect.bind .inl fun _ _ => reads_look ?_
  cases at_ : s.terminal with
  | none => exact reads_ret ⟨at_, by rintro u ⟨⟩⟩
  | some x =>
    refine (reads_ofOption (F := k.faults ∨ ¬s.terminalLegible)
      fun absent => .inr fun legible => ?_).bind id fun t parsed => ?_
    · obtain ⟨t, rfl, wellFormed⟩ := legible x at_
      rw [parseTerminal_eq.mpr ⟨rfl, wellFormed⟩] at absent
      cases absent
    · obtain ⟨rfl, wellFormed⟩ := parseTerminal_eq.mp parsed
      refine reads_ret ⟨at_, ?_⟩
      rintro u ⟨⟩
      exact wellFormed

/-- The history record of a request. -/
def State.archived (s : State) (r : String) : Option (Content Terminal) :=
  s.history.bind fun h => h.lookup r

/-- Every history record can be read. -/
def State.historyLegible (s : State) : Prop :=
  ∀ r x, s.archived r = some x → ∃ t, x = .whole t ∧ t.wellFormed = true ∧ t.requestId = r

lemma historyEntry_eq {e : Sigma fun _ : String => Content Terminal} {t : Terminal} :
    historyEntry e = some t ↔ e.2 = .whole t ∧ t.wellFormed = true ∧ t.requestId = e.1 := by
  simp [historyEntry, Option.filter_eq_some_iff, parseTerminal_eq, and_assoc]

/-- What the history is read as. -/
structure Archive (s : State) (h : List Terminal) : Prop where
  legible : s.historyLegible
  mem : ∀ t, t ∈ h ↔ s.archived t.requestId = some (.whole t)

lemma archived_iff {h : AList fun _ : String => Content Terminal} (at_ : s.history = some h)
    {r : String} {x : Content Terminal} : s.archived r = some x ↔ ⟨r, x⟩ ∈ h.entries := by
  simp [State.archived, at_, AList.mem_lookup_iff.symm]

lemma reads_readHistory : Reads (disk k) s readHistory (Archive s)
    (k.faults ∨ ¬s.historyLegible) := by
  refine reads_inspect.bind .inl fun _ _ => reads_look ?_
  cases at_ : s.history with
  | none =>
    have none_ : ∀ r, s.archived r = none := fun r => by simp [State.archived, at_]
    exact reads_ret ⟨fun r x there => by simp [none_] at there, fun t => by simp [none_]⟩
  | some h =>
    have entry := fun r x => archived_iff (r := r) (x := x) at_
    refine reads_check (fun refused => .inr fun legible => ?_) fun legible => reads_ret ⟨?_, ?_⟩
    · obtain ⟨e, mem, invalid⟩ := List.all_eq_false.mp refused
      obtain ⟨t, whole, wellFormed, same⟩ := legible e.1 e.2 ((entry _ _).mpr mem)
      rw [historyEntry_eq.mpr ⟨whole, wellFormed, same⟩] at invalid
      exact invalid rfl
    · intro r x there
      have isSome := List.all_eq_true.mp legible _ ((entry _ _).mp there)
      obtain ⟨t, read⟩ := Option.isSome_iff_exists.mp isSome
      exact ⟨t, (historyEntry_eq.mp read).1, (historyEntry_eq.mp read).2⟩
    · intro t
      rw [entry, List.mem_filterMap]
      constructor
      · rintro ⟨⟨r, x⟩, mem, read⟩
        obtain ⟨rfl, -, rfl⟩ := historyEntry_eq.mp read
        exact mem
      · intro mem
        have isSome := List.all_eq_true.mp legible _ mem
        obtain ⟨u, read⟩ := Option.isSome_iff_exists.mp isSome
        obtain ⟨whole, rest⟩ := historyEntry_eq.mp read
        cases whole
        exact ⟨_, mem, read⟩

/-- A request that has a terminal record, in its slot or in the history. -/
def State.recorded (s : State) (r : String) : Prop :=
  (∃ t, s.terminal = some (.whole t) ∧ t.requestId = r) ∨ (s.archived r).isSome

/-- Every terminal record can be read. -/
def State.legible (s : State) : Prop := s.terminalLegible ∧ s.historyLegible

/-- The requests of the records that were read are the recorded ones. -/
lemma excluded_iff {t : Option Terminal} {h : List Terminal} (found : Finds s t) (archive : Archive s h)
    (r : String) : r ∈ t.toList.map (·.requestId) ++ h.map (·.requestId) ↔ s.recorded r := by
  rw [List.mem_append, List.mem_map, List.mem_map]
  refine or_congr ⟨?_, ?_⟩ ⟨?_, ?_⟩
  · rintro ⟨u, mem, rfl⟩
    obtain rfl := Option.mem_toList.mp mem
    exact ⟨u, found.at_, rfl⟩
  · rintro ⟨u, at_, rfl⟩
    rw [found.at_] at at_
    obtain ⟨v, rfl, same⟩ := Option.map_eq_some_iff.mp at_
    cases same
    exact ⟨u, by simp, rfl⟩
  · rintro ⟨u, mem, rfl⟩
    rw [(archive.mem u).mp mem]
    rfl
  · intro there
    obtain ⟨x, at_⟩ := Option.isSome_iff_exists.mp there
    obtain ⟨u, rfl, -, rfl⟩ := archive.legible r x at_
    exact ⟨u, (archive.mem u).mpr at_, rfl⟩

lemma reads_excludedRequestIds : Reads (disk k) s excludedRequestIds
    (fun ids => s.legible ∧ ∀ r, r ∈ ids ↔ s.recorded r) (k.faults ∨ ¬s.legible) := by
  refine reads_readHistory.bind (fun fails => fails.imp_right fun torn legible => torn legible.2)
    fun h archive => ?_
  refine reads_readTerminal.bind (fun fails => fails.imp_right fun torn legible => torn legible.1)
    fun t found => reads_ret ⟨⟨?_, archive.legible⟩, excluded_iff found archive⟩
  intro x there
  rw [found.at_] at there
  obtain ⟨u, rfl, rfl⟩ := Option.map_eq_some_iff.mp there
  exact ⟨u, rfl, found.wellFormed u rfl⟩

lemma reads_pendingRequestIds {excluded : List String} : Reads (disk k) s
    (pendingRequestIds excluded) (fun ids => ids = s.pending.keys.filter fun r => r ∉ excluded)
    k.faults :=
  reads_inspect.bind id fun _ _ => reads_look (reads_ret rfl)

/-- The requests that a selection leaves out. -/
def Excludes (c : Target) (s : State) (ids : List String) : Prop :=
  if c.adapter = .client then ids = [] else ∀ r, r ∈ ids ↔ s.recorded r

lemma Excludes.unique {ids ids' : List String} (h : Excludes c s ids) (h' : Excludes c s ids')
    (r : String) : r ∈ ids ↔ r ∈ ids' := by
  unfold Excludes at h h'
  by_cases client : c.adapter = .client
  · rw [if_pos client] at h h'
    rw [h, h']
  · rw [if_neg client] at h h'
    rw [h, h']

/-- The request that a selection finds: the only one that is pending, for a server without a
terminal record. -/
structure Selectable (c : Target) (s : State) (r : String) : Prop where
  legible : c.adapter ≠ .client → s.legible
  only : ∀ ids, Excludes c s ids → s.pending.keys.filter (fun r => r ∉ ids) = [r]
  pending : r ∈ s.pending
  fresh : c.adapter ≠ .client → ¬s.recorded r

lemma reads_selectionExcluded : Reads (disk k) s (selectionExcluded c)
    (fun ids => (c.adapter ≠ .client → s.legible) ∧ Excludes c s ids)
    (k.faults ∨ c.adapter ≠ .client ∧ ¬s.legible) := by
  unfold selectionExcluded Excludes
  by_cases client : c.adapter = .client
  · rw [if_pos client]
    exact reads_ret ⟨fun server => absurd client server, by rw [if_pos client]⟩
  · rw [if_neg client]
    refine reads_excludedRequestIds.mono (fun ids read => ?_) fun fails => fails.imp_right (⟨client, ·⟩)
    exact ⟨fun _ => read.1, by rw [if_neg client]; exact read.2⟩

lemma reads_pendingRequestId : Reads (disk k) s (pendingRequestId c) (Selectable c s)
    (k.faults ∨ ¬∃ r, Selectable c s r) := by
  refine reads_selectionExcluded.bind (fun fails => fails.imp_right ?_) fun ids read => ?_
  · rintro ⟨server, illegible⟩ ⟨r, selected⟩
    exact illegible (selected.legible server)
  obtain ⟨legible, excludes⟩ := read
  refine reads_pendingRequestIds.bind .inl ?_
  rintro l listed
  have other : ∀ {l' : List String}, l = l' → (∀ r, l' ≠ [r]) → ¬∃ r, Selectable c s r := by
    rintro l' rfl many ⟨r, selected⟩
    exact many r (listed.trans (selected.only ids excludes))
  rcases l with _ | ⟨r, _ | ⟨r', l⟩⟩
  · exact reads_fail (.inr (other rfl (by simp)))
  · have mem : r ∈ s.pending.keys.filter fun r => r ∉ ids := by rw [← listed]; simp
    rw [List.mem_filter] at mem
    refine reads_ret ⟨legible, fun ids' excludes' => ?_, mem.1, fun server recorded => ?_⟩
    · rw [listed]
      refine List.filter_congr fun x _ => ?_
      exact decide_eq_decide.mpr (not_congr (excludes'.unique excludes x))
    · have absent : r ∉ ids := by simpa using mem.2
      unfold Excludes at excludes
      rw [if_neg server] at excludes
      exact absent ((excludes r).mpr recorded)
  · exact reads_fail (.inr (other rfl (by simp)))

/-- The digest of the response manifest that a published version holds. -/
def State.pins (s : State) (c : Target) (e : VersionEntry) (artifact : String) : Prop :=
  ∃ d, s.versions.lookup e = some d ∧ artifact = c.digest (d.contents responseNames) .artifact

/-- The response manifest below a version or an ingress can be read. -/
def State.artifactLegible (s : State) (e : VersionEntry) : Prop :=
  ∃ d a, s.versions.lookup e = some d ∧ d.files.lookup .artifact = some a ∧ readable a = true

lemma reads_artifactDigest {e : VersionEntry} : Reads (disk k) s (artifactDigest c e)
    (s.pins c e) (k.faults ∨ ¬s.artifactLegible e) := by
  refine reads_inspect.bind .inl fun _ _ => reads_look ?_
  refine (reads_ofOption (F := k.faults ∨ ¬s.artifactLegible e) fun absent => .inr ?_).bind id
    fun d there => ?_
  · rintro ⟨d, a, there, -⟩
    rw [there] at absent
    cases absent
  refine (reads_ofOption (F := k.faults ∨ ¬s.artifactLegible e) fun absent => .inr ?_).bind id
    fun a at_ => ?_
  · rintro ⟨d', a, there', at_, -⟩
    rw [there] at there'
    cases there'
    rw [at_] at absent
    cases absent
  refine reads_check (fun refused => .inr ?_) fun _ => reads_ret ⟨d, there, ?_⟩
  · rintro ⟨d', a', there', at', fine⟩
    rw [there] at there'
    cases there'
    rw [at_] at at'
    cases at'
    rw [fine] at refused
    cases refused
  · simp [Target.digest, Dir.contents, responseNames, at_]

/-- What `validate_pending` makes of the pending request `r` at the time `n`. -/
def State.pendingAt (s : State) (c : Target) (r : String) (n : ℕ) : Option Pending :=
  (s.pending.lookup r).bind fun d => c.validatePending d r n

lemma pendingAt_timely {r : String} {n : ℕ} {p : Pending} (h : s.pendingAt c r n = some p) :
    p.record.timely r n = true := by
  obtain ⟨d, -, valid⟩ := Option.bind_eq_some_iff.mp h
  unfold Target.validatePending at valid
  split at valid
  · obtain ⟨record, there, rfl⟩ := Option.map_eq_some_iff.mp valid
    exact (Option.filter_eq_some_iff.mp there).2
  · cases valid

lemma reads_validatePending {r : String} : Reads (disk k) s (validatePending c r)
    (fun p => ∃ n, k.clock n ∧ s.pendingAt c r n = some p)
    (k.faults ∨ ∃ n, k.clock n ∧ s.pendingAt c r n = none) := by
  refine reads_inspect.bind .inl fun _ _ => reads_look (reads_now.bind (F := False) False.elim ?_)
  intro n at_
  exact (reads_ofOption fun absent => .inr ⟨n, at_, absent⟩).mono (fun p there => ⟨n, at_, there⟩) id

/-- The published version of a request, with its exact file set. -/
def State.versionAt (s : State) (r : String) : Option Dir :=
  (s.versions.lookup (.version r)).filter fun d => d.exact versionNames

lemma reads_validateVersion {r : String} : Reads (disk k) s (validateVersion r)
    (fun d => s.versionAt r = some d) (k.faults ∨ s.versionAt r = none) := by
  refine reads_inspect.bind .inl fun _ _ => reads_look ?_
  refine (reads_ofOption (F := k.faults ∨ s.versionAt r = none) fun absent => .inr ?_).bind id ?_
  · rw [State.versionAt, absent]
    rfl
  · intro d there
    refine reads_check (fun inexact => .inr ?_) fun exact_ => reads_ret ?_
    · rw [State.versionAt, there]
      simp [inexact]
    · rw [State.versionAt, there]
      simp [exact_]

lemma reads_validateResponseFiles {files : Contents} {p : Pending} : Reads (disk k) s
    (validateResponseFiles c files p)
    (fun v => ∃ n, k.clock n ∧ c.validateResponseFiles files p n = some v)
    (∃ n, k.clock n ∧ c.validateResponseFiles files p n = none) := by
  refine reads_now.bind (F := False) False.elim fun n at_ => ?_
  exact (reads_ofOption fun absent => ⟨n, at_, absent⟩).mono (fun v there => ⟨n, at_, there⟩) id

lemma validateResponseFiles_validated {files : Contents} {p : Pending} {n : ℕ} {v : Validated}
    (h : c.validateResponseFiles files p n = some v) : ∃ leaf, v = c.validated files leaf := by
  unfold Target.validateResponseFiles at h
  split at h
  · obtain ⟨leaf, -, rfl⟩ := Option.map_eq_some_iff.mp h
    exact ⟨leaf, rfl⟩
  · cases h

/-- What `authenticate_target_candidate` makes of a request at the times `n` and `m`. -/
def State.candidateAt (s : State) (c : Target) (r : String) (n m : ℕ) : Option Validated :=
  (s.pendingAt c r n).bind fun p => (s.versionAt r).bind fun d =>
    c.validateResponseFiles (d.contents responseNames) p m

lemma reads_authenticateTargetCandidate {r : String} : Reads (disk k) s
    (authenticateTargetCandidate c r)
    (fun v => ∃ n m, k.clock n ∧ k.clock m ∧ s.candidateAt c r n m = some v)
    (k.faults ∨ ∃ n m, k.clock n ∧ k.clock m ∧ s.candidateAt c r n m = none) := by
  refine reads_validatePending.bind (fun fails => fails.imp_right ?_) ?_
  · rintro ⟨n, at_, none_⟩
    exact ⟨n, n, at_, at_, by simp [State.candidateAt, none_]⟩
  rintro p ⟨n, at_, pending⟩
  refine reads_validateVersion.bind (fun fails => fails.imp_right fun none_ =>
    ⟨n, n, at_, at_, by simp [State.candidateAt, pending, none_]⟩) fun d version => ?_
  refine reads_validateResponseFiles.mono ?_ ?_
  · rintro v ⟨m, at', valid⟩
    exact ⟨n, m, at_, at', by simp [State.candidateAt, pending, version, valid]⟩
  · rintro ⟨m, at', none_⟩
    exact .inr ⟨n, m, at_, at', by simp [State.candidateAt, pending, version, none_]⟩

/-- No active record, or one that authenticates. -/
def State.activeValid (s : State) (c : Target) : Prop :=
  ∀ a, s.active = some a → c.activeAuthentic s a = true

lemma reads_authenticateActive : Reads (disk k) s (authenticateActive c)
    (fun a => a = s.active ∧ s.activeValid c) (k.faults ∨ ¬s.activeValid c) := by
  refine reads_inspect.bind .inl fun _ _ => reads_look ?_
  cases at_ : s.active with
  | none => exact reads_ret ⟨rfl, fun a there => by rw [at_] at there; cases there⟩
  | some a =>
    refine reads_check (fun refused => .inr fun valid => ?_) fun authentic => reads_ret ⟨rfl, ?_⟩
    · rw [valid a at_] at refused
      cases refused
    · intro b there
      rw [at_] at there
      cases there
      exact authentic

/-- The unit can be started and stopped by hand, and is not started at boot. -/
def State.manual (s : State) : Prop := s.masked = false ∧ s.enablement ≠ .enabled

lemma reads_requireOpenbao {running : Bool} : Reads (disk k) s (requireOpenbao running)
    (fun _ => s.running = running ∧ s.manual)
    (k.faults ∨ ¬(s.running = running ∧ s.manual)) := by
  refine reads_inspect.bind .inl fun _ _ => reads_look ?_
  have meaning : (s.running = running && !s.masked &&
      (s.enablement = .disabled || s.enablement = .generated)) = true ↔
      s.running = running ∧ s.manual := by
    cases at_ : s.enablement <;> simp [State.manual, at_]
  refine (reads_require fun refused => .inr fun fine => ?_).mono (fun _ => meaning.mp) id
  rw [meaning.mpr fine] at refused
  cases refused

lemma reads_strictLocalValidation {certificate intermediate : String} : Reads (disk k) s
    (strictLocalValidation certificate intermediate) (fun _ => True) True :=
  reads_ask fun _ _ => (reads_ofOption (F := True) fun _ => trivial).mono (fun _ _ => trivial) id

/-- A terminal record binds the candidate that authenticates for its request. -/
def Supports (c : Target) (k : Conditions) (s : State) (t : Terminal) : Prop :=
  ∀ n m, k.clock n → k.clock m →
    ∃ v, s.candidateAt c t.requestId n m = some v ∧ t.bindsCandidate v = true

lemma reads_validateTerminalCandidate {t : Terminal} : Reads (disk k) s
    (validateTerminalCandidate c t)
    (fun _ => ∃ n m v, k.clock n ∧ k.clock m ∧ s.candidateAt c t.requestId n m = some v ∧
      t.bindsCandidate v = true) (k.faults ∨ ¬Supports c k s t) := by
  refine reads_authenticateTargetCandidate.bind (fun fails => fails.imp_right ?_) ?_
  · rintro ⟨n, m, at_, at', none_⟩ supports
    obtain ⟨v, there, -⟩ := supports n m at_ at'
    rw [none_] at there
    cases there
  · rintro v ⟨n, m, at_, at', there⟩
    refine (reads_require fun refused => .inr fun supports => ?_).mono
      (fun _ binds => ⟨n, m, v, at_, at', there, binds⟩) id
    obtain ⟨w, there', binds⟩ := supports n m at_ at'
    rw [there] at there'
    cases there'
    rw [binds] at refused
    cases refused

lemma reads_validateTerminalActivation {t : Terminal} : Reads (disk k) s
    (validateTerminalActivation c t) (fun _ => s.activeValid c ∧ t.agrees s.active = true)
    (k.faults ∨ ¬(s.activeValid c ∧ t.agrees s.active = true)) := by
  refine reads_authenticateActive.bind (fun fails => fails.imp_right fun invalid fine =>
    invalid fine.1) ?_
  rintro a ⟨rfl, valid⟩
  refine (reads_require fun refused => .inr fun fine => ?_).mono (fun _ agrees => ⟨valid, agrees⟩) id
  rw [fine.2] at refused
  cases refused

/-- The configuration and the records are those before an activation or those after it. -/
structure Mixed (s : State) (j : Journal) : Prop where
  config : s.config = j.priorConfig ∨ s.config = j.targetConfig
  active : s.active = j.priorActive ∨ s.active = some j.newActive
  rollback : s.rollback = j.priorRollback ∨ s.rollback = some j.newRollback

lemma reads_requireRestorable {j : Journal} : Reads (disk k) s (requireRestorable c j)
    (fun _ => Mixed s j) (k.faults ∨ ¬(c.journalBound j = true ∧ Mixed s j)) := by
  refine reads_check (fun refused => .inr fun fine => ?_) fun bound => ?_
  · rw [fine.1] at refused
    cases refused
  refine reads_inspect.bind .inl fun _ _ => reads_look ?_
  refine reads_check (fun refused => .inr fun fine => ?_) fun config => ?_
  · have config := fine.2.config
    simp_all
  refine reads_check (fun refused => .inr fun fine => ?_) fun active => ?_
  · have active := fine.2.active
    simp_all
  refine (reads_require fun refused => .inr fun fine => ?_).mono
    (fun _ rollback => ⟨by simpa using config, by simpa using active, by simpa using rollback⟩) id
  have rollback := fine.2.rollback
  simp_all

lemma reads_bindsPredecessor {record : Request} {operation : Operation} : Reads (disk k) s
    (bindsPredecessor c record operation s)
    (fun _ => s.activeValid c ∧ (s.active = none → s.rollback = none) ∧
      ∀ a, s.active = some a → operation ≠ .issue ∧
        (operation = .issue ∨ record.predecessorRequestId = some a.requestId)) True := by
  unfold bindsPredecessor
  cases at_ : s.active with
  | none =>
    refine (reads_require fun _ => trivial).mono (fun _ paired => ⟨?_, fun _ => ?_, ?_⟩) id
    · intro a there
      rw [at_] at there
      cases there
    · simpa using paired
    · rintro a ⟨⟩
  | some a =>
    refine reads_authenticateActive.bind (fun _ => trivial) fun b read => ?_
    refine reads_check (fun _ => trivial) fun binds => ?_
    refine (reads_require fun _ => trivial).mono (fun _ renews => ⟨read.2, ?_, ?_⟩) id
    · rintro ⟨⟩
    · rintro b ⟨⟩
      simp only [Bool.and_eq_true, Bool.or_eq_true, decide_eq_true_eq] at binds
      exact ⟨of_decide_eq_true renews, binds.2⟩

lemma reads_servicePreconditions {record : Request} {operation : Operation}
    {paths : String × String} : Reads (disk k) s (servicePreconditions c record operation s paths)
    (fun _ => c.adapter = .openbao → s.running = false ∧ s.manual ∧ s.active = none) True := by
  unfold servicePreconditions
  by_cases openbao : c.adapter = .openbao
  · rw [if_pos openbao]
    refine reads_check (fun _ => trivial) fun _ => reads_check (fun _ => trivial) fun pristine => ?_
    refine reads_check (fun _ => trivial) fun _ => ?_
    refine reads_requireOpenbao.bind (fun _ => trivial) fun _ stopped => reads_ask fun dormant _ => ?_
    refine reads_check (fun _ => trivial) fun _ => ?_
    refine (reads_require fun _ => trivial).mono (fun _ _ _ => ⟨stopped.1, stopped.2, ?_⟩) id
    simp only [Bool.and_eq_true, Option.isNone_iff_eq_none] at pristine
    exact pristine.1
  · rw [if_neg openbao]
    by_cases initial : (s.active.isNone && operation = .issue) = true
    · rw [if_pos initial]
      refine reads_check (fun _ => trivial) fun _ => reads_ask fun dormant _ => ?_
      exact (reads_require fun _ => trivial).mono (fun _ _ h => absurd h openbao) id
    · rw [if_neg initial]
      exact (reads_require fun _ => trivial).mono (fun _ _ h => absurd h openbao) id

end PlatformConfig.Lifecycle
