import PlatformConfig.LifecycleMoves

/-!
# The commands take lifecycle steps only

One lemma for each part of the activation, its completion and its recovery: which moves it
needs, why it can fail, and the state in which it hands on.
-/
namespace PlatformConfig.Lifecycle

open CrashProgram CrashDisk Prog

variable {c : Target} {k : Conditions} {s t : State} {j : Journal} {α β : Type}
  {A : Label → State → Prop} {Q : Except String β → State → Prop}

/-- The terminal records are the same. -/
structure Kept (s t : State) : Prop where
  terminal : t.terminal = s.terminal
  history : t.history = s.history

lemma Kept.refl (s : State) : Kept s s := ⟨rfl, rfl⟩

lemma Kept.trans {s t u : State} (h : Kept s t) (h' : Kept t u) : Kept s u :=
  ⟨h'.terminal.trans h.terminal, h'.history.trans h.history⟩

/-- Only the service differs. -/
def Served (s t : State) : Prop := ∃ running masked, t = { s with running := running, masked := masked }

lemma Served.refl (s : State) : Served s s := ⟨s.running, s.masked, rfl⟩

lemma served_command (s : State) (o : Command) : Served s (s.command o) := by
  cases o
  · exact ⟨true, s.masked, rfl⟩
  · exact ⟨true, s.masked, rfl⟩
  · exact ⟨false, s.masked, rfl⟩
  · exact ⟨s.running, false, rfl⟩
  · exact ⟨s.running, true, rfl⟩

lemma Served.trans {s t u : State} (h : Served s t) (h' : Served t u) : Served s u := by
  obtain ⟨r, m, rfl⟩ := h
  obtain ⟨r', m', rfl⟩ := h'
  exact ⟨r', m', rfl⟩

lemma Served.kept {s t : State} (h : Served s t) : Kept s t := by
  obtain ⟨r, m, rfl⟩ := h
  exact ⟨rfl, rfl⟩

lemma Served.holds (h : Served s t) (held : s.holds j) : t.holds j := by
  obtain ⟨r, m, rfl⟩ := h
  exact held

lemma Served.triple (h : Served s t) : t.triple = s.triple := by
  obtain ⟨r, m, rfl⟩ := h
  rfl

lemma does_replace {δ : Type} [DecidableEq δ] {read : State → δ} {put : δ → Write}
    {prior target : δ} {e : String} {f : Unit → Run β} {u : State} {l : Label}
    (applied : (put target).apply s = some u) (same : read s = target → u = s) (may : A l s)
    (move : read s = prior → Move c l s u)
    (failed : ∀ e, k.faults ∨ ¬(read s = target ∨ read s = prior) → Q (.error e) s)
    (rest : Does c k A (f ()) Q u) :
    Does c k A ((replaceBytes read put prior target e).bind f) Q s := by
  simp only [replaceBytes, bind_eq, Prog.bind_assoc]
  refine does_reads reads_inspect (fun e faults => failed e (.inl faults)) fun _ _ => does_look ?_
  by_cases done : read s = target
  · simp only [if_pos done, pure_eq, bind_ret]
    rwa [← same done]
  · simp only [if_neg done, Prog.bind_assoc]
    refine does_check (fun refused => failed _ (.inr ?_)) fun at_ => ?_
    · rintro (h | h)
      · exact done h
      · rw [decide_eq_false_iff_not] at refused
        exact refused h
    · exact does_wrote applied (move (of_decide_eq_true at_)) may (fun faults => failed _ (.inl faults))
        rest

lemma does_setJournalCheckpoint {p : Checkpoint} {f : Journal → Run β} (held : s.holds j)
    (live : j.checkpoint.failure = none) (past : s.triple = j.at .records ∨ s.triple = j.at .config)
    (next : p.failure = none) (may : A .forward s)
    (failed : ∀ e t, Kept s t → Q (.error e) t)
    (rest : Does c k A (f { j with checkpoint := p }) Q
      { s with journal := some (.whole { j with checkpoint := p }) }) :
    Does c k A ((setJournalCheckpoint c j p).bind f) Q s := by
  simp only [setJournalCheckpoint, bind_eq, Prog.bind_assoc]
  refine does_check (fun _ => failed _ s (.refl s)) fun _ => ?_
  have there : (Write.setJournal { j with checkpoint := p }).apply s =
      some { s with journal := some (.whole { j with checkpoint := p }) } := by
    have isSome : s.journal.isSome = true := by rw [held]; rfl
    simp [Write.apply, isSome]
  refine does_wrote there (.checkpoint held live past next) may (fun _ => failed _ s (.refl s)) ?_
  refine does_reads reads_readJournalFile (fun e _ => failed e _ ⟨rfl, rfl⟩) fun j' read => ?_
  have same : j' = { j with checkpoint := p } := read.1.unique rfl
  rw [same]
  exact rest

/-- What an OpenBao target does when it is restored. -/
lemma does_openbaoOnly {p : Run Unit} {f : Unit → Run β}
    (openbao : c.adapter = .openbao → Does c k A (p.bind f) Q s)
    (other : c.adapter ≠ .openbao → Does c k A (f ()) Q s) :
    Does c k A ((openbaoOnly c p).bind f) Q s := by
  unfold openbaoOnly
  by_cases adapter : c.adapter = .openbao
  · rw [if_pos adapter]
    exact openbao adapter
  · rw [if_neg adapter]
    exact other adapter

lemma does_stopOpenbao {f : Unit → Run β} (may : A .service s)
    (failed : ∀ e t, Served s t → (k.faults ∨ ¬s.manual) → Q (.error e) t)
    (rest : s.manual → Does c k A (f ()) Q { s with running := false }) :
    Does c k A (stopOpenbao.bind f) Q s := by
  simp only [stopOpenbao, bind_eq, Prog.bind_assoc]
  refine does_command may (fun e faults => failed e s (.refl s) (.inl faults)) ?_
  refine does_reads reads_requireOpenbao (fun e fails => ?_) fun _ fine => rest fine.2
  refine failed e _ (served_command s .stop) (fails.imp_right fun bad manual => ?_)
  exact bad ⟨rfl, manual⟩

lemma does_restoreService {f : Unit → Run β} (may : ∀ t, A .service t)
    (failed : ∀ e t, Served s t → k.faults → Q (.error e) t)
    (rest : ∀ t, Served s t → (c.adapter = .openbao → j.priorServiceActive = false → s.running = false →
      s.manual → t.running = false ∧ t.manual) → Does c k A (f ()) Q t) :
    Does c k A ((restoreService c j).bind f) Q s := by
  unfold restoreService
  have command : ∀ o, (c.adapter = .openbao → j.priorServiceActive = false → s.running = false →
      s.manual → (s.command o).running = false ∧ (s.command o).manual) →
      Does c k A ((command o).bind f) Q s := fun o idle =>
    does_command (may s) (fun e => failed e s (.refl s)) (rest _ (served_command s o) idle)
  by_cases active : j.priorServiceActive = true
  · rw [if_pos active]
    refine command .restart fun _ idle => ?_
    rw [active] at idle
    cases idle
  · rw [if_neg active]
    by_cases first : j.newRollback.predecessor.isNone = true
    · rw [if_pos first]
      by_cases zot : c.adapter = .zot
      · simp only [if_pos zot, bind_eq, Prog.bind_assoc]
        refine does_command (may s) (fun e => failed e s (.refl s)) ?_
        refine does_command (may _) (fun e => failed e _ (served_command s .stop)) ?_
        refine rest _ ((served_command s .stop).trans (served_command _ .mask)) fun openbao => ?_
        rw [zot] at openbao
        cases openbao
      · rw [if_neg zot]
        exact rest s (.refl s) fun _ _ running manual => ⟨running, manual⟩
    · rw [if_neg first]
      exact command .stop fun _ _ _ manual => ⟨rfl, manual⟩

/-- The journal of the state after a restoration. -/
def Journal.ended (j : Journal) : Journal := { j with checkpoint := j.restored.checkpoint }

/-- What a restoration needs of the state it starts in. -/
structure Restorable (c : Target) (s : State) (j : Journal) : Prop where
  accepted : Accepted c s j
  mixed : Mixed s j
  openbao : c.adapter = .openbao → s.manual ∧ j.priorServiceActive = false

/-- The state after a restoration. -/
def Restored (s : State) (j : Journal) (t : State) : Prop :=
  Served { s.put (j.at .prior) with journal := some (.whole j.ended) } t

lemma does_finishRestore {f : Failure → Run β} (held : s.holds j) (at_ : s.triple = j.at .prior)
    (may : A .restore s) (failed : ∀ e, (k.faults ∨ ¬Accepted c s j) → Q (.error e) s)
    (rest : Does c k A (f j.restored) Q { s with journal := some (.whole j.ended) }) :
    Does c k A ((finishRestore c j).bind f) Q s := by
  simp only [finishRestore, bind_eq, Prog.bind_assoc]
  refine does_reads reads_readJournal (fun e fails => failed e ?_) fun j' read => ?_
  · exact fails.imp_right fun none_ accepted => none_ ⟨j, accepted⟩
  obtain rfl := read.held.unique held
  refine does_check (fun refused => failed _ (.inr fun _ => ?_)) fun _ => ?_
  · simp at refused
  have there : (Write.setJournal j'.ended).apply s =
      some { s with journal := some (.whole j'.ended) } := by
    have isSome : s.journal.isSome = true := by rw [held]; rfl
    simp [Write.apply, isSome]
  exact does_wrote there (.restored held at_) may (fun faults => failed _ (.inl faults)) rest

lemma does_restoreFiles {f : Unit → Run β} (held : s.holds j) (mixed : Mixed s j)
    (may : ∀ t, Kept s t → A .restore t) (failed : ∀ e t, Kept s t → k.faults → Q (.error e) t)
    (rest : Does c k A (f ()) Q (s.put (j.at .prior))) :
    Does c k A ((restoreFiles j).bind f) Q s := by
  simp only [restoreFiles, bind_eq, Prog.bind_assoc]
  refine does_replace (u := { s with config := j.priorConfig }) (l := .restore) rfl
    (fun same => by rw [← same]) (may s (.refl s)) (.restoreConfig held) (fun e fails => ?_) ?_
  · exact failed e s (.refl s) (fails.resolve_right fun bad => bad mixed.config)
  refine does_replace (u := { s with config := j.priorConfig, active := j.priorActive })
    (l := .restore) rfl (fun same => ?_) (may _ ⟨rfl, rfl⟩) (.restoreActive held rfl)
    (fun e fails => ?_) ?_
  · have same : s.active = j.priorActive := same
    rw [← same]
  · exact failed e _ ⟨rfl, rfl⟩ (fails.resolve_right fun bad => bad mixed.active)
  refine does_replace (u := s.put (j.at .prior)) (l := .restore) rfl (fun same => ?_)
    (may _ ⟨rfl, rfl⟩) (.restoreRollback held rfl rfl) (fun e fails => ?_) rest
  · have same : s.rollback = j.priorRollback := same
    simp only [State.put, Journal.at, ← same]
  · exact failed e _ ⟨rfl, rfl⟩ (fails.resolve_right fun bad => bad mixed.rollback)

/-- A restoration takes the configuration and both records back, then ends the journal. -/
theorem does_restoreFromJournal {f : Failure → Run β} (held : s.holds j)
    (may : ∀ t, Kept s t → A .restore t) (serve : ∀ t, A .service t)
    (failed : ∀ e t, Kept s t → (k.faults ∨ ¬Restorable c s j) → Q (.error e) t)
    (rest : ∀ t, Restored s j t → Does c k A (f j.restored) Q t) :
    Does c k A ((restoreFromJournal c j).bind f) Q s := by
  -- the part behind the OpenBao stop, in a state that differs in the service only
  have body : ∀ t, Served s t → (c.adapter = .openbao → t.running = false ∧ t.manual) →
      Does c k A ((requireRestorable c j).bind fun _ => (restoreFiles j).bind fun _ =>
        (restoreService c j).bind fun _ => (openbaoOnly c (requireOpenbao false)).bind fun _ =>
        (finishRestore c j).bind f) Q t := by
    intro t served stopped
    have kept := served.kept
    have held' := served.holds held
    have mixed_iff : Mixed t j ↔ Mixed s j := by
      obtain ⟨r, m, rfl⟩ := served
      exact ⟨fun h => ⟨h.config, h.active, h.rollback⟩, fun h => ⟨h.config, h.active, h.rollback⟩⟩
    refine does_reads reads_requireRestorable (fun e fails => failed e t kept ?_) fun _ mixed => ?_
    · exact fails.imp_right fun bad fine => bad ⟨fine.accepted.bound, mixed_iff.mpr fine.mixed⟩
    refine does_restoreFiles held' mixed (fun u kept' => may u (kept.trans kept'))
      (fun e u kept' faults => failed e u (kept.trans kept') (.inl faults)) ?_
    have kept_put : Kept s (t.put (j.at .prior)) := kept.trans ⟨rfl, rfl⟩
    refine does_restoreService serve
      (fun e u served' faults => failed e u (kept_put.trans served'.kept) (.inl faults)) ?_
    intro u served' idle
    have kept_u := kept_put.trans served'.kept
    -- behind the service, an OpenBao target is inspected once more
    have finish : Does c k A ((finishRestore c j).bind f) Q u := by
      refine does_finishRestore (served'.holds held') served'.triple (may u kept_u)
        (fun e fails => failed e u kept_u (fails.imp_right fun bad fine => bad ?_)) (rest _ ?_)
      · obtain ⟨r, m, rfl⟩ := served
        obtain ⟨r', m', rfl⟩ := served'
        exact ⟨r', m', rfl⟩
      · exact ⟨served'.holds held', fine.accepted.fits, fine.accepted.bound⟩
    refine does_openbaoOnly (fun openbao => ?_) fun _ => finish
    refine does_reads reads_requireOpenbao (fun e fails => failed e u kept_u ?_) fun _ _ => finish
    refine fails.imp_right fun bad fine => bad ?_
    obtain ⟨stop, manual⟩ := stopped openbao
    exact idle openbao (fine.openbao openbao).2 stop manual
  simp only [restoreFromJournal, bind_eq, Prog.bind_assoc]
  refine does_openbaoOnly (fun openbao => ?_) fun other => body s (.refl s) fun h => absurd h other
  refine does_stopOpenbao (serve s) (fun e t served fails => ?_) fun manual => ?_
  · exact failed e t served.kept (fails.imp_right fun bad fine => bad (fine.openbao openbao).1)
  · exact body _ (served_command s .stop) fun _ => ⟨rfl, manual⟩

/-- The history holds another record under the request of a terminal record. -/
def State.conflicts (s : State) (t : Terminal) : Prop :=
  ∃ x, s.archived t.requestId = some x ∧ x ≠ .whole t

/-- A history that holds a terminal record besides what the state has archived. -/
structure ArchivedIn (s : State) (t : Terminal) (h : AList fun _ : String => Content Terminal) :
    Prop where
  there : h.lookup t.requestId = some (.whole t)
  others : ∀ r, r ≠ t.requestId → h.lookup r = s.archived r

lemma does_archiveNew {t : Terminal} {h : AList fun _ : String => Content Terminal}
    {f : Unit → Run β} (there : s.history = some h) (terminal : s.terminal = some (.whole t))
    (valid : t.wellFormed = true) (may : A .archive s)
    (failed : ∀ e, (k.faults ∨ s.conflicts t) → Q (.error e) s)
    (rest : ∀ h, ArchivedIn s t h → Does c k A (f ()) Q { s with history := some h }) :
    Does c k A ((archiveNew t h).bind f) Q s := by
  have same : { s with history := some h } = s := by rw [← there]
  unfold archiveNew
  cases found : h.lookup t.requestId with
  | some x =>
    have equal : x.value = some t ↔ x = .whole t := by cases x <;> simp [Content.value]
    refine does_check (fun refused => failed _ (.inr ⟨x, ?_, ?_⟩)) fun passed => ?_
    · simp [State.archived, there, found]
    · rw [decide_eq_false_iff_not, equal] at refused
      exact refused
    · rw [← same]
      refine rest h ⟨?_, fun r _ => by simp [State.archived, there]⟩
      rw [found, equal.mp (of_decide_eq_true passed)]
  | none =>
    have absent : t.requestId ∉ h := AList.lookup_eq_none.mp found
    have applied : (Write.newHistory t).apply s =
        some { s with history := some (h.insert t.requestId (.whole t)) } := by
      simp [Write.apply, there, absent]
    refine does_wrote applied (.archive terminal valid there absent) may
      (fun faults => failed _ (.inl faults)) (rest _ ⟨AList.lookup_insert h, fun r other => ?_⟩)
    simp [State.archived, there, AList.lookup_insert_ne other]

theorem does_archiveTargetTerminal {t : Terminal} {f : Unit → Run β}
    (terminal : s.terminal = some (.whole t)) (valid : t.wellFormed = true)
    (may : ∀ u, A .archive u)
    (failed : ∀ e h, (k.faults ∨ s.conflicts t) → Q (.error e) { s with history := h })
    (rest : ∀ h, ArchivedIn s t h → Does c k A (f ()) Q { s with history := some h }) :
    Does c k A ((archiveTargetTerminal t).bind f) Q s := by
  simp only [archiveTargetTerminal, bind_eq, Prog.bind_assoc]
  refine does_reads reads_inspect (fun e faults => failed e s.history (.inl faults)) fun _ _ =>
    does_look ?_
  cases at_ : s.history with
  | some h =>
    simp only [makeHistory, at_, Option.isSome_some, if_true, pure_eq, bind_ret]
    refine does_look ?_
    simp only [at_, ofOption, bind_ret]
    exact does_archiveNew at_ terminal valid (may s) (fun e fails => failed e s.history fails) rest
  | none =>
    have none_ : ∀ r, s.archived r = none := fun r => by simp [State.archived, at_]
    have applied : Write.mkdirHistory.apply s = some { s with history := some ∅ } := by
      simp [Write.apply, at_]
    simp only [makeHistory, at_, Option.isSome_none, Bool.false_eq_true, if_false]
    refine does_wrote applied (.history at_) (may s) (fun faults => failed _ _ (.inl faults)) ?_
    refine does_look ?_
    simp only [ofOption, bind_ret]
    refine does_archiveNew rfl terminal valid (may _) (fun e fails => failed e _ ?_) fun h in_ => ?_
    · refine fails.imp_right fun conflict => ?_
      obtain ⟨x, there, -⟩ := conflict
      simp [State.archived] at there
    · refine rest h ⟨in_.there, fun r other => ?_⟩
      rw [in_.others r other, none_]
      simp [State.archived]

/-- A terminal record is published, archived, and only then the journal is removed. -/
theorem does_publishTerminal {t : Terminal} {l : Label} {f : Unit → Run β} (held : s.holds j)
    (same : t.requestId = j.requestId) (valid : t.wellFormed = true)
    (move : s.terminal = none → Move c l s { s with terminal := some (.whole t) })
    (may : A l s) (archive : ∀ u, A .archive u) (close : ∀ u, A .close u)
    (failed : ∀ e u, (k.faults ∨ s.terminal ≠ none ∨ s.conflicts t) → Q (.error e) u)
    (rest : ∀ h, ArchivedIn s t h → Does c k A (f ()) Q
      { s with terminal := some (.whole t), history := some h, journal := none }) :
    Does c k A ((publishTerminal t).bind f) Q s := by
  simp only [publishTerminal, bind_eq, Prog.bind_assoc]
  cases at_ : s.terminal with
  | some x =>
    have there : s.terminal ≠ none := by rw [at_]; exact Option.some_ne_none x
    refine does_write (fun _ => failed _ s (.inr (.inl there))) fun u applied => ?_
    simp [Write.apply, at_] at applied
  | none =>
    have applied : (Write.newTerminal t).apply s = some { s with terminal := some (.whole t) } := by
      simp [Write.apply, at_]
    refine does_wrote applied (move at_) may (fun faults => failed _ s (.inl faults)) ?_
    refine does_archiveTargetTerminal rfl valid archive (fun e h fails => failed e _ ?_) fun h found => ?_
    · exact fails.imp_right .inr
    refine does_reads reads_inspect (fun e faults => failed e _ (.inl faults)) fun _ _ => ?_
    have isSome : s.journal.isSome = true := by rw [held]; rfl
    have unlinked : Write.unlinkJournal.apply
        { s with terminal := some (.whole t), history := some h } =
        some { s with terminal := some (.whole t), history := some h, journal := none } := by
      simp [Write.apply, isSome]
    refine does_wrote unlinked (.close (j := j) (t := t) held rfl same found.there) (close _)
      (fun faults => failed _ _ (.inl faults)) (rest h ⟨found.there, found.others⟩)

/-- The state after a failed activation has been published. -/
structure Failed (s : State) (j : Journal) (u : State) : Prop where
  journal : u.journal = none
  triple : u.triple = j.at .prior
  terminal : u.terminal = some (.whole (targetTerminal j j.restored.state none))
  archived : u.archived j.requestId = some (.whole (targetTerminal j j.restored.state none))
  versions : u.versions = s.versions

lemma restored_wellFormed (j : Journal) :
    (targetTerminal j j.restored.state none).wellFormed = true := by
  cases ended : j.restored <;> rfl

lemma restored_failure (j : Journal) : j.ended.checkpoint.failure = some j.restored := by
  unfold Journal.ended
  cases ended : j.restored <;> rfl

theorem does_publishTargetFailure {f : Failure → Run β} (held : s.holds j)
    (may : ∀ t, Kept s t → A .restore t) (serve : ∀ t, A .service t) (failure : ∀ u, A .failure u)
    (archive : ∀ u, A .archive u) (close : ∀ u, A .close u)
    (failed : ∀ e u, (k.faults ∨ ¬Restorable c s j ∨ c.fits j.ended = false ∨ s.terminal ≠ none ∨
      s.conflicts (targetTerminal j j.restored.state none)) → Q (.error e) u)
    (rest : ∀ u, Failed s j u → Does c k A (f j.restored) Q u) :
    Does c k A ((publishTargetFailure c j).bind f) Q s := by
  simp only [publishTargetFailure, bind_eq, Prog.bind_assoc]
  refine does_restoreFromJournal held may serve
    (fun e u _ fails => failed e u (fails.imp_right .inl)) fun t restored => ?_
  have held' : t.holds j.ended := restored.holds rfl
  refine does_reads reads_readJournal (fun e fails => failed e t ?_) fun j' read => ?_
  · refine fails.imp_right fun none_ => ?_
    by_contra fine
    push Not at fine
    exact none_ ⟨j.ended, held', by simpa using fine.2.1, fine.1.accepted.bound⟩
  obtain rfl := read.held.unique held'
  refine does_check (fun refused => ?_) fun _ => ?_
  · simp [Journal.ended] at refused
  refine does_publishTerminal held' rfl (restored_wellFormed j)
    (.fail held' (restored_failure j)) (failure t) archive close (fun e u fails => failed e u ?_) ?_
  · obtain ⟨r, m, rfl⟩ := restored
    exact fails.imp_right fun bad => bad.elim (fun h => .inr (.inr (.inl h)))
      fun h => .inr (.inr (.inr h))
  · intro h found
    obtain ⟨r, m, rfl⟩ := restored
    exact rest _ ⟨rfl, rfl, rfl, found.there, rfl⟩

/-- A program whose end is always followed by another one. -/
lemma wp_finally {G : Op Write Ask → State → State → Prop} {p : Run α} {q : Run Unit}
    {f : α → Run β} {P : Except String α → State → Prop} (first : wp (disk k).semantics G p P s)
    (ok : ∀ a t, P (.ok a) t → wp (disk k).semantics G (q.bind fun _ => f a) Q t)
    (error : ∀ e t, P (.error e) t → wp (disk k).semantics G (q.bind fun _ => .fail e) Q t) :
    wp (disk k).semantics G ((finally_ p q).bind f) Q s := by
  simp only [finally_, Prog.bind_assoc]
  refine wp_bind.mpr (wp_handle.mpr (wp_bind.mpr (wp_mono first (fun _ _ _ h => h) ?_)))
  intro out t end_
  cases out with
  | ok a => exact ok a t end_
  | error e => exact error e t end_

lemma does_openbaoValidationCycle {certificate intermediate : String}
    {f : String × String → Run β} (serve : ∀ t, A .service t)
    (failed : ∀ e t, Served s t → Q (.error e) t)
    (rest : ∀ a t, Served s t → Does c k A (f a) Q t) :
    Does c k A ((openbaoValidationCycle certificate intermediate).bind f) Q s := by
  simp only [openbaoValidationCycle, bind_eq, Prog.bind_assoc]
  refine does_reads reads_requireOpenbao (fun e _ => failed e s (.refl s)) fun _ _ => ?_
  refine does_command (serve s) (fun e _ => failed e s (.refl s)) ?_
  have started := served_command s .start
  refine wp_finally (P := fun _ t => t = s.command .start) ?_ ?_ ?_
  · refine does_reads reads_requireOpenbao (fun _ _ => rfl) fun _ _ => ?_
    rw [← bind_ret_right (strictLocalValidation certificate intermediate)]
    exact does_reads reads_strictLocalValidation (fun _ _ => rfl) fun _ _ => rfl
  · rintro a t rfl
    exact does_stopOpenbao (serve _) (fun e u served _ => failed e u (started.trans served))
      fun _ => rest a _ (started.trans (served_command _ .stop))
  · rintro e t rfl
    exact does_stopOpenbao (serve _) (fun e u served _ => failed e u (started.trans served))
      fun _ => failed e _ (started.trans (served_command _ .stop))

lemma does_localValidation {v : Validated} {f : String × String → Run β}
    (serve : c.adapter = .openbao → ∀ t, A .service t)
    (failed : ∀ e t, Served s t → Q (.error e) t)
    (rest : ∀ a t, Served s t → Does c k A (f a) Q t) :
    Does c k A ((localValidation c v).bind f) Q s := by
  unfold localValidation
  by_cases openbao : c.adapter = .openbao
  · rw [if_pos openbao]
    exact does_openbaoValidationCycle (serve openbao) failed rest
  · rw [if_neg openbao]
    exact does_reads reads_strictLocalValidation (fun e _ => failed e s (.refl s))
      fun a _ => rest a s (.refl s)

/-- Only temporary files beside the configuration differ. -/
def Listened (s t : State) : Prop := ∃ n, t = { s with configLeftovers := n }

lemma does_validateCandidateListener {f : Unit → Run β} (may : ∀ t, A .listener t)
    (failed : ∀ e t, Listened s t → Q (.error e) t)
    (rest : ∀ t, Listened s t → Does c k A (f ()) Q t) :
    Does c k A (validateCandidateListener.bind f) Q s := by
  simp only [validateCandidateListener, bind_eq, Prog.bind_assoc]
  have here : Listened s s := ⟨s.configLeftovers, rfl⟩
  refine does_wrote rfl (.listener _) (may s) (fun _ => failed _ s here) ?_
  have made : Listened s { s with configLeftovers := s.configLeftovers + 1 } := ⟨_, rfl⟩
  refine wp_finally (P := fun _ t => t = { s with configLeftovers := s.configLeftovers + 1 }) ?_ ?_ ?_
  · have asked : Reads (disk k) { s with configLeftovers := s.configLeftovers + 1 }
        ((ask Ask.listener).bind fun passed =>
          require passed "fixed OpenBao candidate configuration validation failed" : Run Unit)
        (fun _ => True) True :=
      reads_ask fun _ _ => (reads_require fun _ => trivial).mono (fun _ _ => trivial) id
    have read := does_reads (f := .ret) (A := A) (c := c)
      (Q := fun _ t => t = { s with configLeftovers := s.configLeftovers + 1 }) asked
      (fun _ _ => rfl) fun _ _ => rfl
    rwa [bind_ret_right] at read
  · rintro a t rfl
    exact does_wrote rfl (.listener _) (may _) (fun _ => failed _ _ made) (rest _ ⟨_, rfl⟩)
  · rintro e t rfl
    exact does_wrote rfl (.listener _) (may _) (fun _ => failed _ _ made) (failed _ _ ⟨_, rfl⟩)

/-- What has been established before an activation begins. -/
structure Planned (c : Target) (s : State) (r : String) (p : Plan) : Prop where
  begins : Begins c s p.journal
  request : p.journal.requestId = r

lemma does_makePlan {rollbackSeconds : ℕ} {r artifact : String} {operation : Operation}
    {v : Validated} {version : Dir} {paths : String × String} {f : Plan → Run β}
    (rest : ∀ tx created, Does c k A (f ⟨c.journalOf tx r artifact v version.id s.active s.rollback
      s.config paths s.running created (created + rollbackSeconds), v,
      s.active.isNone && operation = .issue⟩) Q t) :
    Does c k A ((makePlan c rollbackSeconds r artifact operation v version s paths).bind f) Q t := by
  simp only [makePlan, bind_eq, Prog.bind_assoc]
  refine does_reads (reads_now (F := False)) (fun _ => False.elim) fun created _ => ?_
  have asked : Reads (disk k) t (ask Ask.transaction : Run String) (fun _ => True) False := by
    rw [← bind_ret_right (ask Ask.transaction)]
    exact reads_ask fun _ _ => reads_ret trivial
  exact does_reads asked (fun _ => False.elim) fun tx _ => rest tx created

theorem does_planActivation {rollbackSeconds : ℕ} {r artifact : String} {operation : Operation}
    {f : Plan → Run β} (positive : 0 < rollbackSeconds) (pin : s.pins c (.version r) artifact)
    (may : c.adapter = .openbao → ∀ t, A .listener t)
    (failed : ∀ e t, Listened s t → Q (.error e) t)
    (rest : ∀ p t, Listened s t → Planned c t r p → Does c k A (f p) Q t) :
    Does c k A ((planActivation c rollbackSeconds r artifact operation).bind f) Q s := by
  have here : Listened s s := ⟨s.configLeftovers, rfl⟩
  have stop : ∀ e, Q (.error e) s := fun e => failed e s here
  simp only [planActivation, bind_eq, Prog.bind_assoc]
  refine does_reads reads_stateEntries (fun e _ => stop e) ?_
  rintro s ⟨rfl, -⟩
  refine does_check (fun _ => stop _) fun clean => ?_
  refine does_reads reads_inspect (fun e _ => stop e) fun _ _ => ?_
  refine does_reads reads_validatePending (fun e _ => stop e) fun p pending => ?_
  refine does_reads reads_validateVersion (fun e _ => stop e) fun d version => ?_
  refine does_reads reads_validateResponseFiles (fun e _ => stop e) fun v valid => ?_
  refine does_check (fun _ => stop _) fun _ => does_check (fun _ => stop _) fun _ => ?_
  refine does_reads reads_inspect (fun e _ => stop e) fun _ _ => does_look ?_
  refine does_reads (reads_ofOption (F := True) fun _ => trivial) (fun e _ => stop e)
    fun paths parsed => ?_
  refine does_reads reads_bindsPredecessor (fun e _ => stop e) fun _ binds => ?_
  refine does_reads reads_inspect (fun e _ => stop e) fun _ _ => ?_
  refine does_reads reads_servicePreconditions (fun e _ => stop e) fun _ idle => ?_
  refine does_check (fun _ => stop _) fun _ => ?_
  -- the journal takes its digests from the version, through the pin and the validated response
  have names : ∀ {tx created deadline}, c.journalNames (c.journalOf tx r artifact v d.id s.active
      s.rollback s.config paths s.running created deadline) d := by
    intro tx created deadline leaf
    obtain ⟨d', there, same⟩ := pin
    have version_ := (Option.filter_eq_some_iff.mp version).1
    rw [version_] at there
    cases there
    obtain ⟨n, -, valid⟩ := valid
    obtain ⟨leaf', rfl⟩ := validateResponseFiles_validated valid
    simp [Terminal.bindsCandidate, targetTerminal, Target.journalOf, Target.validated, same]
  -- with or without the validation of a candidate listener, the plan is made of the same facts
  have plan : ∀ t, Listened s t → Does c k A
      ((makePlan c rollbackSeconds r artifact operation v d s paths).bind f) Q t := by
    rintro t ⟨n, rfl⟩
    refine does_makePlan fun tx created => rest _ _ ⟨n, rfl⟩ ⟨?_, rfl⟩
    simp only [Bool.and_eq_true, Option.isNone_iff_eq_none] at clean
    have parses : (c.parseConfig s.config).isSome = true := by rw [parsed]; rfl
    exact {
      free := clean.1.1
      prepared := rfl
      bound := journalOf_bound c parses (by omega)
      binds := journalOf_binds c
      prior := rfl
      predecessor := rfl
      valid := binds.1
      paired := binds.2.1
      idle := fun openbao => (idle openbao).1
      version := ⟨d, version, rfl, names⟩ }
  refine does_openbaoOnly (fun openbao => ?_) fun _ => ?_
  · exact does_validateCandidateListener (may openbao) failed fun t => plan t
  · exact plan s here

/-- The state of an activation that has reached a phase and a checkpoint. -/
def Stage (s : State) (j : Journal) (p : Phase) (q : Checkpoint) (t : State) : Prop :=
  Served { s.put (j.at p) with journal := some (.whole { j with checkpoint := q }) } t

lemma Stage.kept {p : Phase} {q : Checkpoint} (h : Stage s j p q t) : Kept s t := by
  obtain ⟨r, m, rfl⟩ := h
  exact ⟨rfl, rfl⟩

lemma Stage.holds {p : Phase} {q : Checkpoint} (h : Stage s j p q t) :
    t.holds { j with checkpoint := q } := Served.holds h rfl

lemma Stage.triple {p : Phase} {q : Checkpoint} (h : Stage s j p q t) : t.triple = j.at p := by
  obtain ⟨r, m, rfl⟩ := h
  rfl

lemma Stage.served {p : Phase} {q : Checkpoint} {u : State} (h : Stage s j p q t)
    (served : Served t u) : Stage s j p q u := Served.trans h served

lemma Stage.put {p p' : Phase} {q : Checkpoint} (h : Stage s j p q t) :
    Stage s j p' q (t.put (j.at p')) := by
  obtain ⟨r, m, rfl⟩ := h
  exact ⟨r, m, rfl⟩

lemma Stage.write {p : Phase} {q q' : Checkpoint} (h : Stage s j p q t) :
    Stage s j p q' { t with journal := some (.whole { j with checkpoint := q' }) } := by
  obtain ⟨r, m, rfl⟩ := h
  exact ⟨r, m, rfl⟩

lemma Stage.valid {p : Phase} {q q' : Checkpoint} {u : State} (h : Stage s j p q t)
    (h' : Stage s j p q' u) (valid : t.activeValid c) : u.activeValid c := by
  obtain ⟨r, m, rfl⟩ := h
  obtain ⟨r', m', rfl⟩ := h'
  exact valid

/-- One checkpoint of an activation. -/
lemma does_reach {j' : Journal} {p : Phase} {q q' : Checkpoint} {f : Journal → Run β}
    (at_ : Stage s j p q t) (same : { j with checkpoint := q } = j')
    (past : p = .records ∨ p = .config) (live : q.failure = none) (next : q'.failure = none) (may : A .forward t)
    (failed : ∀ e u, Kept s u → Q (.error e) u)
    (rest : ∀ u, Stage s j p q' u → Does c k A (f { j with checkpoint := q' }) Q u) :
    Does c k A ((setJournalCheckpoint c j' q').bind f) Q t := by
  rw [← same]
  refine does_setJournalCheckpoint at_.holds live ?_ next may
    (fun e u kept => failed e u (at_.kept.trans kept)) (rest _ at_.write)
  rcases past with rfl | rfl
  · exact .inl at_.triple
  · exact .inr at_.triple

/-- One replacement of an activation. -/
lemma does_advance {δ : Type} [DecidableEq δ] {read : State → δ} {put : δ → Write}
    {prior target : δ} {e : String} {f : Unit → Run β} {p p' : Phase} {q : Checkpoint}
    (at_ : Stage s j p q t) (live : q.failure = none) (first : p = .records ∨ q = .prepared)
    (next : p.next = some p') (may : A .forward t)
    (applied : ∀ t, Stage s j p q t → (put target).apply t = some (t.put (j.at p')))
    (same : ∀ t, Stage s j p q t → read t = target → t.put (j.at p') = t)
    (failed : ∀ e u, Kept s u → Q (.error e) u)
    (rest : ∀ u, Stage s j p' q u → Does c k A (f ()) Q u) :
    Does c k A ((replaceBytes read put prior target e).bind f) Q t :=
  does_replace (applied t at_) (same t at_) may (fun _ => .advance (j := { j with checkpoint := q }) at_.holds live
    first at_.triple next) (fun e _ => failed e t at_.kept) (rest _ at_.put)

lemma does_startZot {initial : Bool} {f : Unit → Run β} (serve : ∀ t, A .service t)
    (failed : ∀ e t, Served s t → Q (.error e) t)
    (rest : ∀ t, Served s t → Does c k A (f ()) Q t) :
    Does c k A ((startZot initial).bind f) Q s := by
  cases initial with
  | false =>
    exact does_command (serve s) (fun e _ => failed e s (.refl s)) (rest _ (served_command s _))
  | true =>
    simp only [startZot, if_true, bind_eq, Prog.bind_assoc]
    refine does_command (serve s) (fun e _ => failed e s (.refl s)) ?_
    refine does_command (serve _) (fun e _ => failed e _ (served_command s _)) (rest _ ?_)
    exact (served_command s .unmask).trans (served_command _ .start)

lemma does_validateStarted {p : Plan} {f : Journal → Run β}
    (at_ : Stage s j .config .configWritten t) (may : ∀ t, Kept s t → A .forward t)
    (serve : ∀ t, A .service t) (failed : ∀ e u, Kept s u → Q (.error e) u)
    (rest : ∀ u, Stage s j .config .restarted u →
      Does c k A (f { j with checkpoint := .restarted }) Q u) :
    Does c k A ((validateStarted c p { j with checkpoint := .configWritten }).bind f) Q t := by
  unfold validateStarted
  by_cases openbao : c.adapter = .openbao
  · simp only [if_pos openbao, bind_eq, Prog.bind_assoc]
    refine does_command (serve t) (fun e _ => failed e t at_.kept) ?_
    have started := at_.served (served_command t .start)
    refine does_reads reads_requireOpenbao (fun e _ => failed e _ started.kept) fun _ _ => ?_
    refine does_reach started rfl (.inr rfl) rfl rfl (may _ started.kept) failed fun u reached => ?_
    refine wp_finally (P := fun _ v => v = u) ?_ ?_ ?_
    · rw [← bind_ret_right (strictLocalValidation _ _)]
      exact does_reads reads_strictLocalValidation (fun _ _ => rfl) fun _ _ => rfl
    · rintro a v rfl
      refine does_stopOpenbao (serve _) (fun e w served _ => failed e w ?_) fun _ => ?_
      · exact (reached.served served).kept
      · exact rest _ (reached.served (served_command _ .stop))
    · rintro e v rfl
      refine does_stopOpenbao (serve _) (fun e w served _ => failed e w ?_) fun _ => ?_
      · exact (reached.served served).kept
      · exact failed e _ (reached.served (served_command _ .stop)).kept
  · simp only [if_neg openbao, bind_eq, Prog.bind_assoc]
    refine does_startZot serve (fun e u served => failed e u (at_.served served).kept) ?_
    intro u served
    have started := at_.served served
    refine does_reach started rfl (.inr rfl) rfl rfl (may _ started.kept) failed fun v reached => ?_
    refine does_reads reads_strictLocalValidation (fun e _ => failed e v reached.kept) fun _ _ => ?_
    exact rest v reached

/-- The journaled changes go through the phases up to the new configuration. -/
theorem does_performActivation {p : Plan} {f : Unit → Run β} (held : s.holds p.journal)
    (prepared : p.journal.checkpoint = .prepared) (prior : s.triple = p.journal.at .prior)
    (may : ∀ t, Kept s t → A .forward t) (serve : ∀ t, A .service t)
    (failed : ∀ e t, Kept s t → Q (.error e) t)
    (rest : ∀ t, Stage s p.journal .config .localValidated t → t.activeValid c →
      Does c k A (f ()) Q t) :
    Does c k A ((performActivation c p).bind f) Q s := by
  obtain ⟨j, v, initial⟩ := p
  simp only [performActivation, bind_eq, Prog.bind_assoc]
  have first : { j with checkpoint := .prepared } = j := by rw [← prepared]
  have at₀ : Stage s j .prior .prepared s := by
    have put : s.put (j.at .prior) = s := by rw [← prior]; rfl
    refine ⟨s.running, s.masked, ?_⟩
    rw [first, ← held, put]
  refine does_advance at₀ rfl (.inr rfl) rfl (may _ at₀.kept) ?_ ?_ failed fun t₁ at₁ => ?_
  · rintro _ ⟨r, m, rfl⟩
    rfl
  · rintro _ ⟨r, m, rfl⟩ same
    simp [State.put, Journal.at, ← same]
  refine does_advance at₁ rfl (.inr rfl) rfl (may _ at₁.kept) ?_ ?_ failed fun t₂ at₂ => ?_
  · rintro _ ⟨r, m, rfl⟩
    rfl
  · rintro _ ⟨r, m, rfl⟩ same
    simp [State.put, Journal.at, ← same]
  refine does_reach at₂ first (.inl rfl) rfl rfl (may _ at₂.kept) failed fun t₃ at₃ => ?_
  refine does_advance at₃ rfl (.inl rfl) rfl (may _ at₃.kept) ?_ ?_ failed fun t₄ at₄ => ?_
  · rintro _ ⟨r, m, rfl⟩
    rfl
  · rintro _ ⟨r, m, rfl⟩ same
    have same : j.priorConfig = j.targetConfig := same
    simp [State.put, Journal.at, same]
  refine does_reach at₄ rfl (.inr rfl) rfl rfl (may _ at₄.kept) failed fun t₅ at₅ => ?_
  refine does_validateStarted at₅ may serve failed fun t₆ at₆ => ?_
  refine does_reads (reads_now (F := False)) (fun _ => False.elim) fun n _ => ?_
  refine does_check (fun _ => failed _ _ at₆.kept) fun _ => ?_
  refine does_reads reads_authenticateActive (fun e _ => failed e _ at₆.kept) fun a read => ?_
  refine does_reach at₆ rfl (.inr rfl) rfl rfl (may _ at₆.kept) failed fun t₇ at₇ => ?_
  exact rest t₇ at₇ (at₆.valid at₇ read.2)

/-- The moves of an activation, up to its restoration. -/
structure Drives (A : Label → State → Prop) (s : State) : Prop where
  forward : ∀ t, Kept s t → A .forward t
  restore : ∀ t, Kept s t → A .restore t
  service : ∀ t, A .service t

lemma Drives.kept (h : Drives A s) (kept : Kept s t) : Drives A t :=
  ⟨fun u h' => h.forward u (kept.trans h'), fun u h' => h.restore u (kept.trans h'), h.service⟩

/-- The moves of a failure that is restored and published. -/
structure Moves (A : Label → State → Prop) (s : State) : Prop where
  restore : ∀ t, Kept s t → A .restore t
  service : ∀ t, A .service t
  failure : ∀ t, A .failure t
  archive : ∀ t, A .archive t
  close : ∀ t, A .close t

lemma Moves.kept (h : Moves A s) (kept : Kept s t) : Moves A t :=
  ⟨fun u h' => h.restore u (kept.trans h'), h.service, h.failure, h.archive, h.close⟩

/-- The restoration after a failed activation never fails itself. -/
lemma does_restoreFailed {f : Unit → Run β} (may : Drives A s)
    (rest : ∀ t, Kept s t → Does c k A (f ()) Q t) :
    Does c k A ((restoreFailed c).bind f) Q s := by
  unfold restoreFailed
  refine wp_bind.mpr (wp_handle.mpr ?_)
  simp only [bind_eq]
  refine does_reads reads_readJournalFile (fun e _ => rest s (.refl s)) fun j read => ?_
  refine does_restoreFromJournal read.1 may.restore may.service (fun e t kept _ => rest t kept) ?_
  rintro t ⟨r, m, rfl⟩
  exact rest _ ⟨rfl, rfl⟩

/-- What an activation makes of the state it starts in: `failed` and `done` are its two ends. -/
theorem does_activateStart {check : Bool} {rollbackSeconds : ℕ} {r artifact : String}
    {operation : Operation} {Q : Except String Report → State → Prop} (positive : 0 < rollbackSeconds)
    (listen : c.adapter = .openbao → ∀ t, A .listener t)
    (pin : s.pins c (.version r) artifact)
    (begins : check = false → ∀ t, Listened s t → A (.begins r) t) (may : check = false → Drives A s)
    (failed : ∀ e t, Kept s t → Q (.error e) t)
    (checked : ∀ t, Listened s t → Q (.ok .wouldActivate) t)
    (done : check = false → ∀ t p u, Listened s t → Planned c t r p →
      Stage { t with journal := some (.whole p.journal) } p.journal .config .localValidated u →
      u.activeValid c → Q (.ok .localValidated) u) :
    Does c k A (activateStart c check rollbackSeconds r artifact operation) Q s := by
  have kept : ∀ {t}, Listened s t → Kept s t := by
    rintro t ⟨n, rfl⟩
    exact ⟨rfl, rfl⟩
  simp only [activateStart, bind_eq]
  refine does_planActivation positive pin listen (fun e t listened => failed e t (kept listened)) ?_
  intro p t listened planned
  cases check with
  | true => exact checked t listened
  | false =>
    simp only [Bool.false_eq_true, if_false]
    have free : t.journal = none := planned.begins.free
    have applied : (Write.newJournal p.journal).apply t =
        some { t with journal := some (.whole p.journal) } := by simp [Write.apply, free]
    have begun : Kept s { t with journal := some (.whole p.journal) } :=
      (kept listened).trans ⟨rfl, rfl⟩
    have may_t := (may rfl).kept begun
    have begin_ := begins rfl t listened
    rw [← planned.request] at begin_
    refine does_wrote applied (.begins planned.begins) begin_
      (fun _ => failed _ t (kept listened)) ?_
    refine wp_bind.mpr (wp_handle.mpr ?_)
    rw [← bind_ret_right (performActivation c p)]
    have prior : State.triple { t with journal := some (.whole p.journal) } = p.journal.at .prior :=
      planned.begins.prior
    refine does_performActivation rfl planned.begins.prepared prior may_t.forward
      may_t.service (fun e u h => ?_) fun u stage valid => done rfl t p u listened planned stage valid
    refine does_restoreFailed (may_t.kept h) fun v h' => ?_
    exact failed e v ((begun.trans h).trans h')

/-- The section that looks at an activation awaiting its completion. -/
lemma does_revalidateActivation {check : Bool} {rollbackSeconds : ℕ} {r artifact : String}
    {f : Report → Run β} (serve : c.adapter = .openbao → ∀ t, A .service t)
    (may : check = false → ∀ j, s.holds j → j.requestId = r → Moves A s)
    (failed : ∀ e t, Q (.error e) t) (rest : ∀ report t, Does c k A (f report) Q t) :
    Does c k A ((revalidateActivation c check rollbackSeconds r artifact).bind f) Q s := by
  simp only [revalidateActivation, bind_eq, Prog.bind_assoc]
  refine does_reads reads_readJournal (fun e _ => failed e s) fun j read => ?_
  refine does_check (fun _ => failed _ s) fun bound => ?_
  simp only [Bool.and_eq_true, decide_eq_true_eq] at bound
  refine does_reads reads_authenticateTargetCandidate (fun e _ => failed e s) fun v _ => ?_
  refine does_reads reads_authenticateActive (fun e _ => failed e s) fun a _ => ?_
  refine does_check (fun _ => failed _ s) fun _ => does_check (fun _ => failed _ s) fun _ => ?_
  refine does_reads (reads_now (F := False)) (fun _ => False.elim) fun n _ => ?_
  by_cases expired : j.rollbackDeadlineEpoch ≤ n
  · simp only [if_pos expired, Prog.bind_assoc]
    refine does_check (fun _ => failed _ s) fun unchecked => ?_
    have may := may (by simpa using unchecked) j read.held bound.1.2
    exact does_publishTargetFailure read.held may.restore may.service may.failure may.archive may.close
      (fun e t _ => failed e t) fun t _ => rest _ t
  · simp only [if_neg expired, Prog.bind_assoc]
    exact does_localValidation serve (fun e t _ => failed e t) fun _ t _ => rest _ t

/-- The state behind the retirement of a terminal record. -/
structure Cleared (s t : State) : Prop where
  free : s.journal = none
  same : ∃ o h, t = { s with terminal := o, history := h }
  recorded : ∀ x, t.recorded x → s.recorded x

lemma Cleared.refl (free : s.journal = none) : Cleared s s :=
  ⟨free, ⟨s.terminal, s.history, rfl⟩, fun _ h => h⟩

lemma retired_recorded {o : Terminal} {h : AList fun _ : String => Content Terminal}
    (terminal : s.terminal = some (.whole o)) (in_ : ArchivedIn s o h) (x : String)
    (recorded : State.recorded { s with terminal := none, history := some h } x) : s.recorded x := by
  rcases recorded with ⟨t, there, -⟩ | archived
  · cases there
  · by_cases same : x = o.requestId
    · exact .inl ⟨o, terminal, same.symm⟩
    · have there : (h.lookup x).isSome := archived
      rw [in_.others x same] at there
      exact .inr there

/-- A terminal record that can leave its slot for the request `r`: archived already, or one that
authenticates. -/
structure Retirable (c : Target) (k : Conditions) (s : State) (r : String) (o : Terminal) : Prop where
  other : o.requestId ≠ r
  legible : s.historyLegible
  settled : ¬s.conflicts o
  supports : s.archived o.requestId = none →
    Supports c k s o ∧ s.activeValid c ∧ o.agrees s.active = true

/-- A terminal record of another request leaves its slot once it is archived. -/
lemma does_retireCurrentTargetTerminal {check : Bool} {r : String} {f : Unit → Run β}
    (free : s.journal = none) (may : check = false → (∀ t, A .archive t) ∧ ∀ t, A .retire t)
    (failed : ∀ e t, (k.faults ∨ ¬s.terminalLegible ∨
      ∃ o, s.terminal = some (.whole o) ∧ ¬Retirable c k s r o) → Q (.error e) t)
    (rest : ∀ t, Cleared s t → (check = false → t.terminal = none) → Does c k A (f ()) Q t) :
    Does c k A ((retireCurrentTargetTerminal c check r).bind f) Q s := by
  simp only [retireCurrentTargetTerminal, bind_eq, Prog.bind_assoc]
  refine does_reads reads_readTerminal (fun e fails => failed e s (fails.imp_right .inl)) fun o found => ?_
  cases o with
  | none => exact rest s (.refl free) fun _ => found.at_
  | some o =>
    have there : s.terminal = some (.whole o) := found.at_
    have stop : ∀ e t, (k.faults ∨ ¬Retirable c k s r o) → Q (.error e) t := fun e t fails =>
      failed e t (fails.imp_right fun bad => .inr ⟨o, there, bad⟩)
    simp only [Prog.bind_assoc]
    refine does_check (fun own => stop _ s (.inr fun fine => ?_)) fun _ => ?_
    · exact fine.other (by simpa using own)
    refine does_reads reads_readHistory (fun e fails => stop e s ?_) fun h archive => ?_
    · exact fails.imp_right fun bad fine => bad fine.legible
    -- the unlink of the archived record, in the same state or in one with a longer history
    have unlink : check = false → ∀ h, ArchivedIn s o h →
        Does c k A (retireUnlink.bind f) Q { s with history := some h } := by
      intro unchecked h in_
      simp only [retireUnlink, bind_eq, Prog.bind_assoc]
      refine does_reads reads_inspect (fun e faults => stop e _ (.inl faults)) fun _ _ => ?_
      have applied : Write.unlinkTerminal.apply { s with history := some h } =
          some { s with history := some h, terminal := none } := by simp [Write.apply, there]
      refine does_wrote applied (.retire (t := o) free there in_.there) ((may unchecked).2 _)
        (fun faults => stop _ _ (.inl faults)) (rest _ ⟨free, ⟨none, some h, rfl⟩, ?_⟩ fun _ => rfl)
      exact retired_recorded there in_
    cases archived : h.find? fun a => a.requestId = o.requestId with
    | none =>
      have absent : s.archived o.requestId = none := by
        by_contra some_
        obtain ⟨x, at_⟩ := Option.ne_none_iff_exists'.mp some_
        obtain ⟨u, rfl, -, same⟩ := archive.legible _ x at_
        rw [← same] at at_
        have missing := List.find?_eq_none.mp archived u ((archive.mem u).mpr at_)
        exact missing (by simpa using same)
      simp only [retireTerminal, bind_eq, Prog.bind_assoc]
      refine does_reads reads_validateTerminalCandidate (fun e fails => stop e s ?_) fun _ _ => ?_
      · exact fails.imp_right fun bad fine => bad (fine.supports absent).1
      refine does_reads reads_validateTerminalActivation (fun e fails => stop e s ?_) fun _ _ => ?_
      · exact fails.imp_right fun bad fine => bad (fine.supports absent).2
      cases check with
      | true => exact rest s (.refl free) fun unchecked => by cases unchecked
      | false =>
        simp only [Bool.false_eq_true, if_false, Prog.bind_assoc]
        refine does_archiveTargetTerminal there (found.wellFormed o rfl) (may rfl).1
          (fun e _ fails => stop e _ ?_) (unlink rfl)
        exact fails.imp_right fun conflict fine => fine.settled conflict
    | some a =>
      have at_ := (archive.mem a).mp (List.mem_of_find?_eq_some archived)
      simp only [retireTerminal, bind_eq, Prog.bind_assoc]
      refine does_check (fun differs => stop _ s (.inr fun fine => fine.settled ?_)) fun same => ?_
      · have named : a.requestId = o.requestId := by simpa using List.find?_some archived
        refine ⟨.whole a, named ▸ at_, fun equal => ?_⟩
        cases equal
        simp at differs
      cases check with
      | true => exact rest s (.refl free) fun unchecked => by cases unchecked
      | false =>
        obtain rfl : a = o := of_decide_eq_true same
        obtain ⟨h', there', -⟩ := Option.bind_eq_some_iff.mp at_
        have unlinked := unlink rfl h' ⟨?_, fun r _ => ?_⟩
        · simp only [Bool.false_eq_true, if_false]
          have same : { s with history := some h' } = s := by rw [← there']
          rwa [same] at unlinked
        · simpa [State.archived, there'] using at_
        · simp [State.archived, there']

/-- The first locked section of an activation. -/
lemma does_activateFirst {check : Bool} {rollbackSeconds : ℕ} {r artifact : String}
    {f : Report ⊕ Operation → Run β} (serve : c.adapter = .openbao → ∀ t, A .service t)
    (may : check = false → ∀ j, s.holds j → j.requestId = r → Moves A s)
    (retire : check = false → (∀ t, A .archive t) ∧ ∀ t, A .retire t)
    (failed : ∀ e t, Q (.error e) t)
    (reported : s.journal.isSome = true → ∀ report t, Does c k A (f (.inl report)) Q t)
    (rest : ∀ o t, Cleared s t → (check = false → t.terminal = none) → Does c k A (f (.inr o)) Q t) :
    Does c k A ((activateFirst c check rollbackSeconds r artifact).bind f) Q s := by
  simp only [activateFirst, bind_eq, Prog.bind_assoc]
  refine does_reads reads_inspect (fun e _ => failed e s) fun _ _ => ?_
  refine does_reads reads_validatePending (fun e _ => failed e s) fun p _ => ?_
  refine does_check (fun _ => failed _ s) fun _ => ?_
  refine does_reads reads_stateEntries (fun e _ => failed e s) ?_
  rintro s ⟨rfl, -⟩
  by_cases there : s.journal.isSome = true
  · simp only [if_pos there, Prog.bind_assoc]
    exact does_revalidateActivation serve may failed fun report t => reported there report t
  · simp only [if_neg there, Prog.bind_assoc]
    have free : s.journal = none := by simpa using there
    exact does_retireCurrentTargetTerminal free retire (fun e t _ => failed e t) fun t cleared gone =>
      rest _ t cleared gone

end PlatformConfig.Lifecycle
