import PlatformConfig.LifecycleTree

/-!
# Runs of commands on one target

Any number of commands, one at a time, each ending by itself or killed between two writes, and
between them whatever the rest of the host changes outside the lifecycle. What every move keeps
holds throughout; so the terminal records only grow, and a journal-free state holds a pair of
records that bind one activation.
-/
namespace PlatformConfig.Lifecycle

open CrashProgram CrashDisk Prog

variable {c : Target} {k : Conditions} {s t : State} {A : Label → State → Prop}

/-- What the rest of the host can change between two commands. -/
def Elsewhere (s t : State) : Prop :=
  ∃ pending request trust running masked enablement, t = { s with
    pending := pending, requestJournal := request, trustJournal := trust, running := running,
    masked := masked, enablement := enablement }

/-- Runs of commands from a state, where `P` says which command may start in which state. -/
inductive Reaches (c : Target) (k : Conditions) (P : State → Invocation → Prop) : State → State → Prop
  | refl (s : State) : Reaches c k P s s
  | elsewhere {s t u : State} (prior : Reaches c k P s t) (other : Elsewhere t u) : Reaches c k P s u
  | command {s t u : State} {o : Invocation} (prior : Reaches c k P s t) (may : P t o)
      (run : Killed (disk k).semantics (o.program c) t u) : Reaches c k P s u

theorem does_invocation {o : Invocation} (start : ∀ check, MayStart c A check)
    (revalidate : ∀ j, s.holds j → ¬s.recorded j.requestId → Moves A s)
    (complete : ∀ check, o = .activateComplete check → MayComplete c A s check)
    (serve : c.adapter = .openbao → ∀ t, A .service t) (recover : ∀ check, MayRecover A check)
    (tree : ∀ t, A .tree t) :
    Does c k A (o.program c) Any s := by
  cases o with
  | prepare check => exact does_targetResponsePrepare fun _ => tree
  | importResponse check => exact does_targetResponseImport fun _ => tree
  | install check => exact does_targetResponseInstall fun _ => tree
  | activateStart check rollbackSeconds =>
    refine does_check (fun _ => trivial) fun long => ?_
    have positive : 0 < rollbackSeconds := by
      have long := of_decide_eq_true long
      unfold minRollbackSeconds at long
      omega
    exact does_targetActivateStart positive (start check) (fun _ => revalidate) (fun _ _ => trivial)
      (fun _ _ _ => trivial) (fun _ => trivial) fun _ _ _ => trivial
  | activateComplete check =>
    exact does_targetActivateComplete (complete check rfl) (fun _ _ => trivial) fun _ _ => trivial
  | recover check =>
    exact does_targetRecover serve (recover check) (fun _ _ _ => trivial) fun _ _ _ _ => trivial

/-- A property that every allowed move keeps holds wherever a program is killed. -/
theorem killed_invariant {α : Type} {p : Run α} {I : State → Prop} (whole : ¬k.tears)
    (keeps : ∀ l s t, I s → A l s → Move c l s t → I t) (does : Does c k A p Any s) (hs : I s)
    (run : Killed (disk k).semantics p s t) : I t := by
  refine wp_killed (wp_invariant (fun _ s t hs step => ?_) hs does) hs run
  rcases step with rfl | ⟨l, may, move⟩ | ⟨tears, -⟩
  · exact hs
  · exact keeps l s t hs may move
  · exact absurd tears whole

/-- Moves that are all allowed, apart from the removal of a journal without an archive. -/
def Unless (R : State → Prop) : Label → State → Prop
  | .resume, s => R s
  | _, _ => True

lemma does_unless {R : State → Prop} {o : Invocation}
    (resume : o = .activateComplete false → R s) : Does c k (Unless R) (o.program c) Any s := by
  have drives : ∀ s, Drives (Unless R) s := fun s =>
    ⟨fun _ _ => trivial, fun _ _ => trivial, fun _ => trivial⟩
  have moves : ∀ s, Moves (Unless R) s := fun s =>
    ⟨fun _ _ => trivial, fun _ => trivial, fun _ => trivial, fun _ => trivial, fun _ => trivial⟩
  refine does_invocation (fun check => ?_) (fun _ _ _ => moves s) (fun check same => ?_)
    (fun _ _ => trivial) (fun check => ?_) fun _ => trivial
  · exact ⟨fun _ _ => trivial, fun _ _ => trivial, fun _ t _ => drives t, fun _ _ _ _ _ => trivial,
      fun _ => ⟨fun _ => trivial, fun _ => trivial⟩⟩
  · refine ⟨fun _ _ => trivial, fun _ _ => moves s, fun _ _ _ => trivial, fun unchecked _ _ => ?_⟩
    exact resume (by rw [same, unchecked])
  · exact ⟨fun _ => trivial, fun _ t _ => moves t, fun _ _ => trivial⟩

/-! ## Terminal records only grow -/

/-- What is recorded stays recorded, and no record is changed or lost. -/
structure Grows (s t : State) : Prop where
  archived : ∀ r x, s.archived r = some x → t.archived r = some x
  terminal : ∀ o, s.terminal = some (.whole o) →
    t.terminal = some (.whole o) ∨ t.archived o.requestId = some (.whole o)

lemma Grows.refl (s : State) : Grows s s := ⟨fun _ _ h => h, fun _ h => .inl h⟩

lemma Grows.trans {s t u : State} (h : Grows s t) (h' : Grows t u) : Grows s u := by
  refine ⟨fun r x there => h'.archived r x (h.archived r x there), fun o there => ?_⟩
  rcases h.terminal o there with still | archived
  · exact h'.terminal o still
  · exact .inr (h'.archived _ _ archived)

lemma Grows.recorded {r : String} (h : Grows s t) (recorded : s.recorded r) : t.recorded r := by
  rcases recorded with ⟨o, there, rfl⟩ | archived
  · rcases h.terminal o there with still | archived
    · exact .inl ⟨o, still, rfl⟩
    · refine .inr ?_
      rw [archived]
      rfl
  · obtain ⟨x, there⟩ := Option.isSome_iff_exists.mp archived
    refine .inr ?_
    rw [h.archived r x there]
    rfl

/-- A state with the same terminal records. -/
lemma Grows.of_kept (h : Kept s t) : Grows s t :=
  ⟨fun r x there => by rwa [State.archived, h.history], fun o there => .inl (by rwa [h.terminal])⟩

lemma archived_insert {h : AList fun _ : String => Content Terminal} {o : Terminal}
    (there : s.history = some h) (absent : o.requestId ∉ h) {r : String} {x : Content Terminal}
    (at_ : s.archived r = some x) :
    State.archived { s with history := some (h.insert o.requestId (.whole o)) } r = some x := by
  have found : h.lookup r = some x := by simpa [State.archived, there] using at_
  have other : r ≠ o.requestId := by
    rintro rfl
    rw [AList.lookup_eq_none.mpr absent] at found
    cases found
  change (h.insert o.requestId (.whole o)).lookup r = some x
  rw [AList.lookup_insert_ne other, found]

theorem move_grows {l : Label} (move : Move c l s t) : Grows s t := by
  cases move with
  | begins | advance | checkpoint | restoreConfig | restoreActive | restoreRollback | restored | close
  | resume | listener | root | files | publish => exact .of_kept ⟨rfl, rfl⟩
  | service o => exact .of_kept (served_command s o).kept
  | fail held ended absent =>
    refine ⟨fun _ _ h => h, fun o there => ?_⟩
    rw [absent] at there
    cases there
  | complete held done active same authentic absent =>
    refine ⟨fun _ _ h => h, fun o there => ?_⟩
    rw [absent] at there
    cases there
  | history absent =>
    refine ⟨fun r x there => ?_, fun o there => .inl there⟩
    simp [State.archived, absent] at there
  | archive terminal valid history absent =>
    exact ⟨fun r x there => archived_insert history absent there, fun o there => .inl there⟩
  | retire free terminal archived =>
    refine ⟨fun _ _ h => h, fun o there => .inr ?_⟩
    rw [terminal] at there
    cases there
    exact archived

lemma elsewhere_kept (h : Elsewhere s t) : Kept s t := by
  obtain ⟨p, q, r, m, n, e, rfl⟩ := h
  exact ⟨rfl, rfl⟩

lemma reaches_grows {P : State → Invocation → Prop} (whole : ¬k.tears) (run : Reaches c k P s t) :
    Grows s t := by
  induction run with
  | refl => exact .refl _
  | elsewhere _ other ih => exact ih.trans (.of_kept (elsewhere_kept other))
  | command _ _ run ih =>
    refine killed_invariant (A := Unless fun _ => True) (I := Grows _) whole ?_ (does_unless fun _ => trivial)
      ih run
    exact fun l s t grows _ move => grows.trans (move_grows move)

theorem move_legible {l : Label} (move : Move c l s t) (legible : s.legible) : t.legible := by
  have same : ∀ u, Kept s u → u.legible := by
    rintro u ⟨terminal, history⟩
    refine ⟨fun x there => legible.1 x (by rwa [terminal] at there), fun r x there => ?_⟩
    exact legible.2 r x (by rwa [State.archived, history] at there)
  -- a state whose terminal record alone has changed to one that is well formed
  have put : ∀ o : Terminal, o.wellFormed = true →
      State.legible { s with terminal := some (.whole o) } := by
    refine fun o valid => ⟨fun x there => ?_, legible.2⟩
    cases there
    exact ⟨o, rfl, valid⟩
  cases move with
  | begins | advance | checkpoint | restoreConfig | restoreActive | restoreRollback | restored | close
  | resume | listener | root | files | publish => exact same _ ⟨rfl, rfl⟩
  | service o => exact same _ (served_command s o).kept
  | @fail _ j failure held ended absent => exact put _ (by cases failure <;> rfl)
  | complete held done active same authentic absent => exact put _ rfl
  | history absent =>
    refine ⟨legible.1, fun r x there => ?_⟩
    simp [State.archived] at there
  | @archive _ o h terminal valid history absent =>
    refine ⟨legible.1, fun r x there => ?_⟩
    have there : (h.insert o.requestId (.whole o)).lookup r = some x := there
    by_cases other : r = o.requestId
    · subst other
      rw [AList.lookup_insert] at there
      cases there
      exact ⟨o, rfl, valid, rfl⟩
    · rw [AList.lookup_insert_ne other] at there
      exact legible.2 r x (by simpa [State.archived, history] using there)
  | retire free terminal archived => exact ⟨by rintro x ⟨⟩, legible.2⟩

/-- Every command may start in every state. -/
def Always (_ : State) (_ : Invocation) : Prop := True

lemma reaches_legible {P : State → Invocation → Prop} (whole : ¬k.tears) (run : Reaches c k P s t) :
    s.legible → t.legible := by
  intro legible
  induction run with
  | refl => exact legible
  | elsewhere _ other ih =>
    obtain ⟨p, q, r, m, n, e, rfl⟩ := other
    exact ih
  | command _ _ run ih =>
    refine killed_invariant (A := Unless fun _ => True) whole ?_ (does_unless fun _ => trivial)
      ih run
    exact fun l s t legible _ move => move_legible move legible

/-- The requests that a selection leaves out are exactly the recorded ones. -/
lemma excluded_recorded {ids : List String}
    (read : Exec (disk k).semantics excludedRequestIds s (.ok ids) t) (r : String) :
    r ∈ ids ↔ s.recorded r :=
  (wp_exec reads_excludedRequestIds read).2.2 r

/-- Recorded requests stay recorded, a history record never changes, a terminal record leaves its
slot only with the same contents in the history, what is legible stays legible, and the requests
that a selection leaves out only grow. -/
structure RecordsGrow (k : Conditions) (s t : State) : Prop where
  recorded : ∀ r, s.recorded r → t.recorded r
  archived : ∀ r x, s.archived r = some x → t.archived r = some x
  terminal : ∀ o, s.terminal = some (.whole o) →
    t.terminal = some (.whole o) ∨ t.archived o.requestId = some (.whole o)
  legible : s.legible → t.legible
  excluded : ∀ ids ids' s' t', Exec (disk k).semantics excludedRequestIds s (.ok ids) s' →
    Exec (disk k).semantics excludedRequestIds t (.ok ids') t' → ids ⊆ ids'

/-- Over any run of commands the terminal records only grow. -/
theorem terminal_records_grow (whole : ¬k.tears) (run : Reaches c k Always s t) :
    RecordsGrow k s t := by
  have grows := reaches_grows whole run
  refine ⟨fun r => grows.recorded, grows.archived, grows.terminal, reaches_legible whole run, ?_⟩
  intro ids ids' s' t' before after r mem
  rw [excluded_recorded after]
  exact grows.recorded ((excluded_recorded before r).mp mem)

/-! ## Published versions never change -/

/-- Every version that is there is the one that a command published, in a state of the run. -/
structure Published (c : Target) (k : Conditions) (s t : State) : Prop where
  kept : ∀ r d, s.versions.lookup (.version r) = some d → t.versions.lookup (.version r) = some d
  made : ∀ r d, t.versions.lookup (.version r) = some d → s.versions.lookup (.version r) = some d ∨
    ∃ u, Reaches c k Always s u ∧ .version r ∉ u.versions ∧ Publishes c u r d

lemma move_versions {l : Label} (move : Move c l s t) :
    (∀ r, t.versions.lookup (.version r) = s.versions.lookup (.version r)) ∨
    ∃ r d, .version r ∉ s.versions ∧ Publishes c s r d ∧
      ∀ r', t.versions.lookup (.version r') =
        if r' = r then some d else s.versions.lookup (.version r') := by
  cases move with
  | begins | advance | checkpoint | restoreConfig | restoreActive | restoreRollback | restored | close
  | resume | listener | root | fail | complete | history | archive | retire => exact .inl fun _ => rfl
  | service o =>
    obtain ⟨r, m, same⟩ := served_command s o
    exact .inl fun _ => by rw [same]
  | files kept => exact .inl kept
  | @publish _ r tx d stage absent made =>
    refine .inr ⟨r, d, absent, made, fun r' => ?_⟩
    by_cases same : r' = r
    · subst same
      rw [if_pos rfl]
      exact AList.lookup_insert _
    · have other : VersionEntry.version r' ≠ .version r := by simpa using same
      have other' : VersionEntry.version r' ≠ .stage r tx := by simp
      rw [if_neg same]
      change ((s.versions.erase (.stage r tx)).insert (.version r) d).lookup _ = _
      rw [AList.lookup_insert_ne other, AList.lookup_erase_ne other']

/-- Over any run of commands a published version keeps its identity and every byte, and a version
that is there was published by the run: it holds exactly the version files, the key and the
request of the pending request and six response files that authenticate against it. -/
theorem versions_immutable (whole : ¬k.tears) (run : Reaches c k Always s t) : Published c k s t := by
  induction run with
  | refl => exact ⟨fun _ _ h => h, fun _ _ h => .inl h⟩
  | elsewhere _ other ih =>
    obtain ⟨p, q, r, m, n, e, rfl⟩ := other
    exact ⟨ih.kept, ih.made⟩
  | @command t u o prior may run ih =>
    refine wp_killed_seen (I := Published c k s)
      (does_unless (R := fun _ => True) fun _ => trivial) ih (fun x killed => Reaches.command prior may killed)
      (fun _ x y reached published step => ?_) run
    rcases step with rfl | ⟨l, -, move⟩ | ⟨tears, -⟩
    · exact published
    · rcases move_versions move with same | ⟨r, d, absent, made, now_⟩
      · refine ⟨fun r d there => ?_, fun r d there => ?_⟩
        · rw [same]
          exact published.kept r d there
        · rw [same] at there
          exact published.made r d there
      · refine ⟨fun r' d' there => ?_, fun r' d' there => ?_⟩
        · have old := published.kept r' d' there
          have other : r' ≠ r := by
            rintro rfl
            rw [AList.lookup_eq_none.mpr absent] at old
            cases old
          rw [now_, if_neg other, old]
        · rw [now_] at there
          by_cases same : r' = r
          · rw [if_pos same] at there
            cases there
            exact .inr ⟨x, reached, same ▸ absent, same ▸ made⟩
          · rw [if_neg same] at there
            exact published.made r' d' there
    · exact absurd tears whole

/-! ## The history agrees with the terminal record -/

/-- Without a journal, the terminal record is in the history with the same contents. -/
def Archival (s : State) : Prop :=
  s.journal = none → ∀ x, s.terminal = some x →
    ∃ o, x = .whole o ∧ s.archived o.requestId = some (.whole o)

/-- A complete terminal record beside a journal is already in the history. -/
def Resumable (s : State) : Prop :=
  ∀ j o, s.holds j → s.terminal = some (.whole o) → o.state = .complete →
    s.archived o.requestId = some (.whole o)

/-- No completion starts between the publication of a complete terminal record and its archive. -/
def Orderly (s : State) (o : Invocation) : Prop := o = .activateComplete false → Resumable s

lemma Archival.of_same (h : Archival s) (journal : t.journal = s.journal) (kept : Kept s t) :
    Archival t := by
  intro free x there
  rw [journal] at free
  rw [kept.terminal] at there
  obtain ⟨o, rfl, archived⟩ := h free x there
  exact ⟨o, rfl, by rwa [State.archived, kept.history]⟩

lemma Archival.of_journal {x : Content Journal} (there : s.journal = some x) : Archival s := by
  intro free
  rw [free] at there
  cases there

theorem move_archival {l : Label} (move : Move c l s t) (may : Unless Resumable l s)
    (h : Archival s) : Archival t := by
  cases move with
  | begins | checkpoint | restored => exact .of_journal rfl
  | fail held | complete held => exact .of_journal held
  | advance | restoreConfig | restoreActive | restoreRollback | listener | root | files | publish =>
    exact h.of_same rfl ⟨rfl, rfl⟩
  | service o =>
    obtain ⟨r, m, same⟩ := served_command s o
    rw [same]
    exact h.of_same rfl ⟨rfl, rfl⟩
  | history absent =>
    intro free x there
    obtain ⟨o, rfl, archived⟩ := h free x there
    simp [State.archived, absent] at archived
  | @archive _ o h' terminal valid history absent =>
    intro free x there
    rw [terminal] at there
    cases there
    exact ⟨o, rfl, AList.lookup_insert h'⟩
  | @close _ j o held terminal same archived =>
    intro _ x there
    rw [terminal] at there
    cases there
    exact ⟨o, rfl, archived⟩
  | @resume _ j o held terminal same done =>
    intro _ x there
    rw [terminal] at there
    cases there
    exact ⟨o, rfl, may j o held terminal done⟩
  | retire => rintro _ x ⟨⟩

/-- As long as no completion starts beside an unarchived complete terminal record, every state
without a journal has its terminal record in the history. -/
theorem history_agrees (whole : ¬k.tears) (start : Archival s) (run : Reaches c k Orderly s t) :
    Archival t := by
  induction run with
  | refl => exact start
  | elsewhere _ other ih =>
    obtain ⟨p, q, r, m, n, e, rfl⟩ := other
    exact ih.of_same rfl ⟨rfl, rfl⟩
  | command _ may run ih =>
    refine killed_invariant (A := Unless Resumable) whole ?_ (does_unless may) ih run
    exact fun l s t h may move => move_archival move may h

/-! ## A host that answers -/

/-- A host on which no inspection and no write fails. -/
def undisturbed (n : ℕ) (source : Option Files) :
    (o : Op Write Ask) → State → Reply State Answer o × State
  | .look, s => (s, s)
  | .ask .now, s => (n, s)
  | .ask .inspect, s => (true, s)
  | .ask .dormant, s => (true, s)
  | .ask .transaction, s => ("tx", s)
  | .ask .identity, s => ((1, 1), s)
  | .ask (.validate certificate intermediate), s => (some (certificate, intermediate), s)
  | .ask .listener, s => (true, s)
  | .ask .source, s => (source, s)
  | .write w, s => match w.apply s with
    | some t => (true, t)
    | none => (false, s)

lemma undisturbed_within {n : ℕ} {source : Option Files} (now : k.clock n) :
    Within (undisturbed n source) (disk k).semantics := by
  intro o s
  cases o with
  | look => exact .look s
  | ask x =>
    cases x with
    | now => exact .ask now
    | inspect => exact .ask (.inl rfl)
    | dormant | transaction | identity | validate | listener | source => exact .ask trivial
  | write w =>
    cases applied : w.apply s with
    | some t =>
      simp only [undisturbed, applied]
      exact .wrote applied
    | none =>
      simp only [undisturbed, applied]
      exact .refused (.inl applied)

/-- A command that ran undisturbed. -/
lemma Reaches.ran {P : State → Invocation → Prop} {n : ℕ} {source : Option Files} {o : Invocation}
    (now : k.clock n) (prior : Reaches c k P s t) (may : P t o) :
    Reaches c k P s (run (undisturbed n source) (o.program c) t).2 :=
  .command prior may ((undisturbed_within now).exec _ _).killed

/-- A command that was killed after its first `m` operations. -/
lemma Reaches.stopped {P : State → Invocation → Prop} {n : ℕ} {source : Option Files}
    {o : Invocation} (m : ℕ) (now : k.clock n) (prior : Reaches c k P s t) (may : P t o) :
    Reaches c k P s (after (undisturbed n source) m (o.program c) t) :=
  .command prior may ((undisturbed_within now).killed m _ _)

/-- The conditions of runs that are killed between two writes only. -/
def untorn : Conditions := ⟨True, False, fun _ => True⟩

/-- A registry with one issued certificate, its digest a transcription. -/
def registry : Target where
  service := "zot"
  target := "host"
  adapter := .zot
  versionsRoot := "/v"
  minimumRemainingLifetime := 10
  sha256 d := String.ofList (d.map fun b => Char.ofNat b.toNat)
  readPending _ := some ⟨"r", 1000, 2000, .issue, "zot", "host", none, none⟩
  readResponse _ _ := some ⟨"k", "i", 900, 9000, 1000, 0, 9000⟩
  keySpki _ := some "k"
  leafSpki _ := some "k"
  parseConfig d := if d = [0] then some ("c", "k") else if d = [1] then some ("d", "l") else none
  selectConfig _ _ := [1]
  selectedVersionPaths _ := ("d", "l")
  selects _ _ _ := rfl
  baseTlsPaths := ("c", "k")
  fits _ := true

/-- Files of one byte each. -/
def oneByte (names : List FileName) : Files := (names.map fun f => ⟨f, [7]⟩).toAList

/-- The registry before its first certificate, with one pending request. -/
def unissued : State where
  active := none
  rollback := none
  config := [0]
  journal := none
  terminal := none
  history := none
  requestJournal := false
  trustJournal := false
  leftovers := 0
  configLeftovers := 0
  running := false
  masked := true
  enablement := .disabled
  pending := [⟨"r", ⟨(1, 1), oneByte pendingNames⟩⟩].toAList
  root := .absent
  versions := ∅

/-- The registry after one command that ran undisturbed at the time 1000. -/
def ran (o : Invocation) (s : State) : State :=
  (run (undisturbed 1000 (some (oneByte responseNames))) (o.program registry) s).2

/-- The registry with its first activation validated and not completed. -/
def validated : State :=
  ran (.activateStart false 1209600) (ran (.install false) (ran (.importResponse false)
    (ran (.prepare false) unissued)))

/-- The commands that lead to the validated registry. -/
lemma validated_reached {P : State → Invocation → Prop}
    (may : ∀ s o, o ≠ .activateComplete false → P s o) :
    Reaches registry untorn P unissued validated := by
  have step : ∀ {s} (o : Invocation), o ≠ .activateComplete false →
      Reaches registry untorn P unissued s → Reaches registry untorn P unissued (ran o s) :=
    fun o other prior => prior.ran trivial (may _ o other)
  exact step _ (by simp) (step _ (by simp) (step _ (by simp) (step _ (by simp) (.refl _))))

theorem terminal_records_grow_completed :
    RecordsGrow untorn unissued (ran (.activateComplete false) validated) :=
  terminal_records_grow (fun h => h) (.ran trivial (validated_reached fun _ _ _ => trivial) trivial)

theorem versions_immutable_completed :
    Published registry untorn unissued (ran (.activateComplete false) validated) :=
  versions_immutable (fun h => h) (.ran trivial (validated_reached fun _ _ _ => trivial) trivial)

theorem history_agrees_completed : Archival (ran (.activateComplete false) validated) := by
  have start : Archival unissued := by rintro - x ⟨⟩
  have unfinished : Orderly validated (.activateComplete false) := by
    intro _ j o _ there
    have free : validated.terminal = none := by decide +kernel
    rw [free] at there
    cases there
  have started : Reaches registry untorn Orderly unissued validated :=
    validated_reached fun _ _ other same => absurd same other
  exact history_agrees (fun h => h) start (.ran trivial started unfinished)

/-- The completion of the registry, killed between its terminal record and the archive. -/
def interrupted : State :=
  after (undisturbed 1000 none) 30 ((Invocation.activateComplete false).program registry) validated

/-- A completion that finds its terminal record removes the journal without an archive. -/
theorem history_disagrees : ∃ t, Reaches registry untorn Always unissued t ∧ ¬Archival t := by
  have started : Reaches registry untorn Always unissued validated :=
    validated_reached fun _ _ _ => trivial
  have killed : Reaches registry untorn Always unissued interrupted :=
    .stopped 30 trivial started trivial
  refine ⟨ran (.activateComplete false) interrupted, .ran trivial killed trivial, fun archival => ?_⟩
  have free : (ran (.activateComplete false) interrupted).journal = none := by decide +kernel
  have terminal : ((ran (.activateComplete false) interrupted).terminal.bind Content.value).map
    Terminal.requestId = some "r" := by decide +kernel
  have unarchived : (ran (.activateComplete false) interrupted).archived "r" = none := by
    decide +kernel
  obtain ⟨o, value, same⟩ := Option.map_eq_some_iff.mp terminal
  obtain ⟨x, there, value⟩ := Option.bind_eq_some_iff.mp value
  obtain ⟨o', rfl, archived⟩ := archival free x there
  cases value
  rw [same, unarchived] at archived
  cases archived

end PlatformConfig.Lifecycle
