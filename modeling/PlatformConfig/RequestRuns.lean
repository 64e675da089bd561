import PlatformConfig.RequestShape

/-!
# Runs of the request helper

What recovery, inspection and creation do to a state of the shape that runs leave, whatever else
fails, and why each of them can fail.
-/
namespace PlatformConfig.HostRequest

open CrashProgram CrashDisk Prog
open GuardPlan (matchesHex)
open RecordText

variable {t : Tools} {k : Conditions} {P : Args → ℕ → Prop} {a : Args} {root r : String} {s u : State}
  {n : Node} {check : Bool}

/-! ## Rules -/

section Rules
variable {I : State → Prop} {α β : Type} {Q : Except String β → State → Prop}

lemma holds_inspect {e : String} {f : Unit → Run β} (here : I s) (failed : k.faults → Q (.error e) s)
    (rest : Holds (disk t k) I (f ()) Q s) : Holds (disk t k) I ((inspect e).bind f) Q s := by
  refine holds_ask here fun passed answer => ?_
  have answer : passed = true ∨ k.faults := answer
  refine holds_check (fun refused => failed ?_) fun _ => rest
  rcases answer with passed | faults
  · rw [passed] at refused
    cases refused
  · exact faults

lemma holds_ofExcept {x : Except String α} {f : α → Run β} (failed : ∀ e, x = .error e → Q (.error e) s)
    (rest : ∀ y, x = .ok y → Holds (disk t k) I (f y) Q s) :
    Holds (disk t k) I ((ofExcept x).bind f) Q s := by
  cases x with
  | error e => exact failed e rfl
  | ok y => exact rest y rfl

lemma holds_deliver {x : Ask} {y : Answer x → Option Data} {e : String} {f : Data → Run β} (here : I s)
    (failed : ∀ answer, (disk t k).answers x s answer → y answer = none → Q (.error e) s)
    (rest : ∀ answer d, (disk t k).answers x s answer → y answer = some d →
      Holds (disk t k) I (f d) Q s) : Holds (disk t k) I ((deliver x y e).bind f) Q s := by
  unfold deliver
  rw [bind_assoc]
  refine holds_ask here fun answer given => ?_
  cases made : y answer with
  | none => exact failed answer given made
  | some d => exact rest answer d given made

/-- A write that is known to be applied, unless writes can fail. -/
lemma holds_applied {w : Write} {e : String} {f : Unit → Run β} (here : I s)
    (torn : ∀ v, Torn w s v → I v) (failed : k.faults → Q (.error e) s)
    (applied : w.apply s = some u) (there : I u) (rest : Holds (disk t k) I (f ()) Q u) :
    Holds (disk t k) I ((write w e).bind f) Q s := by
  refine holds_write torn (fun refused => ⟨here, failed ?_⟩) fun v done => ?_
  · rcases refused with none_ | faults
    · have none_ : w.apply s = none := none_
      rw [applied] at none_
      cases none_
    · exact faults
  · have done : w.apply s = some v := done
    rw [applied] at done
    cases done
    exact ⟨there, rest⟩

end Rules

/-! ## Recovery -/

/-- The clock can show one time only. -/
def Fixed (k : Conditions) (now : ℕ) : Prop := ∀ n, k.clock n → n = now

/-- The journal of an interrupted request is whole, and what stands under its names can be finished
or removed at the time `now`. -/
structure Finishable (t : Tools) (a : Args) (now : ℕ) (s : State) (r : String) : Prop where
  readable : readable (journalFor a.pendingRoot r) = true
  apart : ¬((s.node (.stage r)).isSome = true ∧ (s.node (.request r)).isSome = true)
  staged : ∀ files, s.node (.stage r) = some (.ok files) →
    ∀ f d, files.lookup f = some (.ok d) → HostRequest.readable d = true
  published : ∀ n, s.node (.request r) = some n →
    ∃ result, validatePendingDirectory t a now r (some n) = .ok result

def Recoverable (t : Tools) (a : Args) (now : ℕ) (s : State) : Prop :=
  ∀ file, s.journal = some file → ∃ r, matchesHex 32 r = true ∧ file = .ok (journalFor a.pendingRoot r) ∧
    Finishable t a now s r

/-- Nothing is left of an interrupted request; the published ones are as before. -/
structure Recovered (s u : State) : Prop where
  journal : u.journal = none
  unstaged : ∀ r, u.node (.stage r) = none
  published : ∀ r, u.node (.request r) = s.node (.request r)
  pending : u.pending.isSome = s.pending.isSome

/-- How a recovery ends. -/
def Recovers (t : Tools) (k : Conditions) (a : Args) (check : Bool) (s : State) :
    Except String Unit → State → Prop
  | .ok _, u => Recovered s u ∧ ∀ now, Fixed k now → Recoverable t a now s
  | .error _, _ => ∀ now, Fixed k now → k.faults ∨ (check = true ∧ s.journal ≠ none) ∨ ¬Recoverable t a now s

/-- The state of a run that began in `s`. -/
def Going (t : Tools) (P : Args → ℕ → Prop) (root : String) (s u : State) : Prop :=
  Shape t P root u ∧ Kept s u

lemma Going.start (h : Shape t P root s) : Going t P root s s := ⟨h, Kept.refl s⟩

/-- A new journal that a kill left unfinished. -/
lemma torn_journal {d : Data} {v : State} (torn : Torn (.newJournal d) s v) :
    ∃ front, front <+: d ∧ v = { s with journal := some (.ok front) } := by
  cases torn with
  | journal front _ applied =>
    rw [Write.apply, Option.ite_none_left_eq_some] at applied
    exact ⟨_, front, (Option.some.inj applied.2).symm⟩

/-- A staged file that a kill left unfinished. -/
lemma torn_file {f : FileName} {d : Data} {v : State} (torn : Torn (.newFile r f d) s v) :
    ∃ front, front <+: d ∧ (Write.newFile r f front).apply s = some v := by
  cases torn with
  | file front _ applied => exact ⟨_, front, applied⟩

section Going
variable {s₀ : State}

lemma Going.trans (h : Going t P root s₀ s) (shape : Shape t P root u) (kept : Kept s u) :
    Going t P root s₀ u := ⟨shape, h.2.trans kept⟩

/-- The files of a staging directory change. -/
lemma Going.restage {m : Node} (h : Going t P root s₀ s) (there : s.node (.stage r) = some m)
    (staged : Staged n) : Going t P root s₀ (s.put (.stage r) n) := by
  obtain ⟨hex, journal, -⟩ := h.1.staged r m there
  exact h.trans (h.1.stage (node_some there) hex journal staged) (Kept.stage (node_some there))

lemma Going.staged {files : Files} (h : Going t P root s₀ s)
    (there : s.node (.stage r) = some (.ok files)) : Staged (.ok files) :=
  (h.1.staged r _ there).2.2

end Going

/-- The staging directory `r` holds `files`, and nothing else has changed. -/
structure Restaged (s u : State) (r : String) (files : Files) : Prop where
  journal : u.journal = s.journal
  pending : u.pending.isSome = s.pending.isSome
  node : ∀ e, u.node e = if e = .stage r then some (.ok files) else s.node e

lemma Restaged.refl {files : Files} (there : s.node (.stage r) = some (.ok files)) :
    Restaged s s r files := by
  refine ⟨rfl, rfl, fun e => ?_⟩
  split_ifs with same
  · rw [same, there]
  · rfl

lemma Restaged.put {files : Files} (there : s.pending.isSome = true) :
    Restaged s (s.put (.stage r) (.ok files)) r files :=
  ⟨rfl, by simp [State.put], fun _ => node_put there⟩

lemma Restaged.trans {v : State} {files files' : Files} (h : Restaged s u r files)
    (h' : Restaged u v r files') : Restaged s v r files' := by
  refine ⟨h'.journal.trans h.journal, h'.pending.trans h.pending, fun e => ?_⟩
  rw [h'.node, h.node]
  split_ifs <;> rfl

lemma Restaged.there {files : Files} (h : Restaged s u r files) :
    u.node (.stage r) = some (.ok files) := by
  rw [h.node, if_pos rfl]

/-- The files of a staging directory are removed one by one. -/
lemma holds_unlinkAll {s₀ : State} (names : List FileName) (files : Files)
    (h : Going t P root s₀ s) (there : s.node (.stage r) = some (.ok files)) (distinct : names.Nodup)
    (present : ∀ f ∈ names, f ∈ files) :
    Holds (disk t k) (Going t P root s₀) (unlinkAll r names)
      (fun out u => match out with
        | .ok _ => ∃ less, Restaged s u r less ∧ ∀ f ∈ less, f ∈ files ∧ f ∉ names
        | .error _ => k.faults) s := by
  induction names generalizing s files with
  | nil => exact ⟨files, Restaged.refl there, fun f mem => ⟨mem, List.not_mem_nil⟩⟩
  | cons f names ih =>
    obtain ⟨fresh, distinct⟩ := List.nodup_cons.mp distinct
    have applied : (Write.unlinkFile r f).apply s = some (s.put (.stage r) (.ok (files.erase f))) :=
      change_eq.mpr ⟨files, _, there, if_pos (present f List.mem_cons_self), rfl⟩
    have put : Restaged s (s.put (.stage r) (.ok (files.erase f))) r (files.erase f) :=
      Restaged.put (node_some there)
    have going := h.restage there ((h.staged there).erase f)
    unfold unlinkAll
    refine holds_applied h (fun v torn => by cases torn) id applied going ?_
    refine wp_mono (ih (files.erase f) going put.there distinct fun g mem => ?_) (fun _ _ _ g => g) ?_
    · have other : g ≠ f := fun same => fresh (same ▸ mem)
      exact AList.mem_erase.mpr ⟨other, present g (List.mem_cons_of_mem f mem)⟩
    · intro out u ended
      cases out with
      | error e => exact ended
      | ok x =>
        obtain ⟨less, restaged, remain⟩ := ended
        refine ⟨less, put.trans restaged, fun g mem => ?_⟩
        obtain ⟨in_, apart⟩ := remain g mem
        obtain ⟨other, in_⟩ := AList.mem_erase.mp in_
        exact ⟨in_, by simp [other, apart]⟩

lemma holds_removeJournal {I : State → Prop} {d : Data} (there : s.journal = some (.ok d)) (here : I s)
    (after : I { s with journal := none }) : Holds (disk t k) I (removeJournal d)
      (fun out u => match out with
        | .ok _ => u = { s with journal := none }
        | .error _ => k.faults ∧ u = s) s := by
  unfold removeJournal
  refine holds_look here (holds_checked (by simp [there]) (wp_tail ?_))
  refine holds_applied here (fun v torn => by cases torn) (fun faults => ⟨faults, rfl⟩)
    (u := { s with journal := none }) (by simp [Write.apply, there]) after rfl

/-- Every file of a directory can be read. -/
def Legible (files : Files) : Prop := ∀ f d, files.lookup f = some (.ok d) → readable d = true

lemma Staged.entry {files : Files} {x : Sigma fun _ : FileName => File} (h : Staged (.ok files))
    (mem : x ∈ files.entries) : isStaged x.1 = true ∧ ∃ d, x.2 = .ok d ∧ files.lookup x.1 = some (.ok d) := by
  obtain ⟨files', same, each⟩ := h
  cases same
  have found : files.lookup x.1 = some x.2 := AList.mem_lookup_iff.mpr mem
  obtain ⟨known, d, whole⟩ := each x.1 x.2 found
  exact ⟨known, d, whole, by rw [found, whole]⟩

lemma legible_iff {files : Files} (h : Staged (.ok files)) :
    (∃ ds, (files.entries.mapM fun e =>
      readSafe ("journal-owned staging file " ++ e.1.text) (some e.2)) = .ok ds) ↔ Legible files := by
  rw [Fallible.mapM_succeeds]
  constructor
  · intro each f d found
    obtain ⟨d', safe⟩ := each ⟨f, .ok d⟩ (AList.mem_lookup_iff.mp found)
    obtain ⟨same, fits⟩ := readSafe_eq.mp safe
    cases same
    exact fits
  · intro legible x mem
    obtain ⟨-, d, whole, found⟩ := h.entry mem
    exact ⟨d, readSafe_eq.mpr ⟨by rw [whole], legible x.1 d found⟩⟩

/-- The staging directory `r` is gone, and nothing else has changed. -/
structure Unstaged (s u : State) (r : String) : Prop where
  journal : u.journal = s.journal
  pending : u.pending.isSome = s.pending.isSome
  node : ∀ e, u.node e = if e = .stage r then none else s.node e

lemma holds_recoverStage {s₀ : State} {files : Files} (h : Going t P root s₀ s)
    (there : s.node (.stage r) = some (.ok files)) :
    Holds (disk t k) (Going t P root s₀) (recoverStage check r (.ok files))
      (fun out u => match out with
        | .ok _ => Unstaged s u r ∧ Legible files
        | .error _ => k.faults ∨ check = true ∨ ¬Legible files) s := by
  have staged := h.staged there
  unfold recoverStage
  refine holds_ofExcept (fun e failed => (by cases failed)) fun files' same => ?_
  cases same
  refine holds_checked (List.all_eq_true.mpr fun x mem => ?_) (holds_ofExcept (fun e failed => ?_)
    fun ds read => ?_)
  · obtain ⟨known, d, whole, -⟩ := staged.entry mem
    rw [known, whole]
    rfl
  · refine .inr (.inr fun legible => ?_)
    obtain ⟨ds, read⟩ := (legible_iff staged).mpr legible
    rw [failed] at read
    cases read
  · have legible : Legible files := (legible_iff staged).mp ⟨ds, read⟩
    refine holds_check (fun refused => .inr (.inl (by simpa using refused))) fun _ => ?_
    refine holds_inspect h .inl (wp_seq (P := fun _ u => (∃ less : Files, Restaged s u r less ∧ less.keys = []) ∧
      Going t P root s₀ u) ?_ ?_)
    · refine wp_mono (wp_invariant (I := Going t P root s₀) (fun _ _ _ _ g => g) h
        (holds_unlinkAll files.keys files h there files.keys_nodup fun f mem => AList.mem_keys.mpr mem))
        (fun _ _ _ g => g) fun out u ended => ?_
      cases out with
      | error e => exact .inl ended.1
      | ok x =>
        obtain ⟨⟨less, restaged, remain⟩, going⟩ := ended
        refine ⟨⟨less, restaged, List.eq_nil_iff_forall_not_mem.mpr fun f mem => ?_⟩, going⟩
        obtain ⟨in_, apart⟩ := remain f (AList.mem_keys.mpr mem)
        exact apart (AList.mem_keys.mp in_)
    · rintro - u ⟨⟨less, restaged, empty⟩, going⟩
      refine wp_tail (holds_applied (u := u.drop (.stage r)) going (fun v torn => by cases torn) .inl ?_
        (going.trans going.1.rmdirStage Kept.rmdirStage) ⟨⟨restaged.journal, ?_, fun e => ?_⟩, legible⟩)
      · simp [Write.apply, restaged.there, empty]
      · rw [← restaged.pending]
        simp [State.drop]
      · rw [node_drop, restaged.node]
        split_ifs <;> rfl

lemma recoverable_iff {now : ℕ} (hex : matchesHex 32 r = true)
    (journal : s.journal = some (.ok (journalFor a.pendingRoot r))) :
    Recoverable t a now s ↔ Finishable t a now s r := by
  constructor
  · intro h
    obtain ⟨r', hex', same, finishable⟩ := h _ journal
    obtain rfl := journalFor_inj hex hex' a.root_ok (Except.ok.inj same)
    exact finishable
  · intro finishable file there
    rw [journal] at there
    cases there
    exact ⟨r, hex, rfl, finishable⟩

/-- A staging directory of a shape is the one of the journal. -/
lemma Shape.stage_of {r' : String} (h : Shape t P root s) (token : isToken root.toList = true)
    (hex : matchesHex 32 r = true) (journal : s.journal = some (.ok (journalFor root r)))
    (there : s.node (.stage r') = some n) : r' = r := by
  obtain ⟨hex', journal', -⟩ := h.staged r' n there
  rw [journal] at journal'
  exact (journalFor_inj hex hex' token (Except.ok.inj (Option.some.inj journal'))).symm

lemma Shape.unstaged (h : Shape t P root s) (journal : s.journal = none) : s.node (.stage r) = none := by
  cases there : s.node (.stage r) with
  | none => rfl
  | some n =>
    rw [(h.staged r n there).2.1] at journal
    cases journal

/-- The last step of a recovery that has left no staging directory. -/
lemma holds_concludes {s₀ v : State} {d : Data} (h : Going t P a.pendingRoot s₀ u)
    (journal : u.journal = some (.ok d)) (unstaged : ∀ r, u.node (.stage r) = none)
    (published : ∀ r, u.node (.request r) = v.node (.request r))
    (pending : u.pending.isSome = v.pending.isSome)
    (recoverable : ∀ now, Fixed k now → Recoverable t a now v) :
    Holds (disk t k) (Going t P a.pendingRoot s₀)
      ((inspect "pending root changed while locked").bind fun _ => removeJournal d)
      (Recovers t k a check v) u := by
  refine holds_inspect h (fun faults _ _ => .inl faults) ?_
  have after : Going t P a.pendingRoot s₀ { u with journal := none } :=
    h.trans (h.1.unlinkJournal unstaged) Kept.of_journal
  refine wp_mono (holds_removeJournal journal h after) (fun _ _ _ g => g) fun out w ended => ?_
  cases out with
  | error e => exact fun _ _ => .inl ended.1
  | ok x =>
    obtain rfl : w = { u with journal := none } := ended
    exact ⟨⟨rfl, unstaged, published, pending⟩, recoverable⟩

/-- A recovery either leaves nothing of the interrupted request, or something else failed, or its
remains cannot be finished or removed. -/
theorem recover_holds {s₀ : State} (h : Going t P a.pendingRoot s₀ s) :
    Holds (disk t k) (Going t P a.pendingRoot s₀) (recoverRequest t a check) (Recovers t k a check s) s := by
  have shape := h.1
  unfold recoverRequest
  refine holds_look h ?_
  cases journal : s.journal with
  | none =>
    refine ⟨⟨journal, fun r => shape.unstaged journal, fun r => rfl, rfl⟩, fun now _ file there => ?_⟩
    rw [journal] at there
    cases there
  | some file =>
    obtain ⟨r, front, hex, part, rfl⟩ := shape.journal file journal
    have parsed := parse_journalFor hex a.root_ok
    by_cases whole : front = journalFor a.pendingRoot r
    · subst whole
      have refused : ∀ {e u}, (∀ now, Fixed k now → ¬Finishable t a now s r) →
          Recovers t k a check s (.error e) u := fun blocked now fixed =>
        .inr (.inr fun recoverable => blocked now fixed ((recoverable_iff hex journal).mp recoverable))
      refine holds_ofExcept (fun e failed => refused fun now _ finishable => ?_) fun d safe => ?_
      · rw [readSafe_eq.mpr ⟨rfl, finishable.readable⟩] at failed
        cases failed
      obtain ⟨same, fits⟩ := readSafe_eq.mp safe
      cases same
      refine holds_ofExcept (fun e failed => by rw [parsed] at failed; cases failed) fun j read => ?_
      rw [parsed] at read
      cases read
      refine holds_checked (by simp [Journal.bound, hex]) (holds_inspect h (fun faults _ _ => .inl faults) ?_)
      have only : ∀ r' n, s.node (.stage r') = some n → r' = r := fun r' n there =>
        shape.stage_of a.root_ok hex journal there
      cases staged : s.node (.stage r) with
      | none =>
        have unstaged : ∀ r', s.node (.stage r') = none := by
          intro r'
          by_contra some_
          obtain ⟨n, there⟩ := Option.ne_none_iff_exists'.mp some_
          rw [only r' n there, staged] at there
          cases there
        cases published : s.node (.request r) with
        | none =>
          dsimp only
          refine holds_check (fun refused _ _ => .inr (.inl ⟨by simpa using refused, by simp [journal]⟩)) fun _ => ?_
          refine holds_concludes h journal unstaged (fun _ => rfl) rfl fun now _ => ?_
          refine (recoverable_iff hex journal).mpr ⟨fits, by simp [staged], fun files there => ?_, fun n there => ?_⟩
          · rw [staged] at there
            cases there
          · rw [published] at there
            cases there
        | some n =>
          dsimp only
          refine holds_ask h fun now at_ => holds_ofExcept (fun e failed => refused fun now' fixed finishable => ?_)
            fun result valid => ?_
          · obtain ⟨result, valid⟩ := finishable.published n published
            rw [← fixed now at_, failed] at valid
            cases valid
          · refine holds_check (fun refused _ _ => .inr (.inl ⟨by simpa using refused, by simp [journal]⟩)) fun _ => ?_
            refine holds_concludes h journal unstaged (fun _ => rfl) rfl fun now' fixed => ?_
            refine (recoverable_iff hex journal).mpr ⟨fits, by simp [staged], fun files there => ?_, fun n' there => ?_⟩
            · rw [staged] at there
              cases there
            · rw [published] at there
              cases there
              exact ⟨result, fixed now at_ ▸ valid⟩
      | some n =>
        obtain ⟨files, rfl, -⟩ := (shape.staged r n staged).2.2
        cases published : s.node (.request r) with
        | some n =>
          dsimp only
          exact refused fun now _ finishable => finishable.apart (by simp [staged, published])
        | none =>
          dsimp only
          refine wp_seq (P := fun _ u => (Unstaged s u r ∧ Legible files) ∧ Going t P a.pendingRoot s₀ u) ?_ ?_
          · refine wp_mono (wp_invariant (I := Going t P a.pendingRoot s₀) (fun _ _ _ _ g => g) h
              (holds_recoverStage h staged)) (fun _ _ _ g => g) fun out u ended => ?_
            cases out with
            | ok x => exact ended
            | error e =>
              intro now fixed
              rcases ended.1 with faults | checking | illegible
              · exact .inl faults
              · exact .inr (.inl ⟨checking, by simp [journal]⟩)
              · refine .inr (.inr fun recoverable => illegible ?_)
                exact ((recoverable_iff hex journal).mp recoverable).staged files staged
          · rintro - u ⟨⟨unstaged, legible⟩, going⟩
            refine holds_concludes going (unstaged.journal.trans journal) (fun r' => ?_)
              (fun r' => by rw [unstaged.node, if_neg (by simp)]) unstaged.pending fun now _ => ?_
            · rw [unstaged.node]
              split_ifs with same
              · rfl
              · cases there : s.node (.stage r') with
                | none => rfl
                | some n => exact absurd (congrArg Entry.stage (only r' n there)) same
            · refine (recoverable_iff hex journal).mpr ⟨fits, by simp [published], fun files' there => ?_,
                fun n there => ?_⟩
              · rw [staged] at there
                cases there
                exact legible
              · rw [published] at there
                cases there
    · have torn := parseJournal_torn (journal_tokens hex a.root_ok) part whole
      have refused : ∀ {e u}, Recovers t k a check s (.error e) u := by
        intro e u now _
        refine .inr (.inr fun recoverable => ?_)
        obtain ⟨r', hex', same, -⟩ := recoverable _ journal
        cases same
        rw [parse_journalFor hex' a.root_ok] at torn
        cases torn
      refine holds_ofExcept (fun e _ => refused) fun d safe => ?_
      obtain ⟨same, -⟩ := readSafe_eq.mp safe
      cases same
      refine holds_ofExcept (fun e _ => refused) fun j read => ?_
      rw [torn] at read
      cases read

/-! ## Inspection -/

lemma reads_ofExcept {α : Type} {x : Except String α} {F : Prop} (failed : ∀ e, x = .error e → F) :
    Reads (disk t k) s (ofExcept x) (fun y => x = .ok y) F := by
  cases x with
  | error e => exact reads_fail (failed e rfl)
  | ok y => exact reads_ret rfl

lemma Sealed.found (h : Sealed t P r n) :
    ∃ files, n = .ok files ∧ exactNames files = true ∧ matchesHex 32 r = true := by
  obtain ⟨a, now, result, -, valid⟩ := h
  obtain ⟨files, p, q, spki, same, accepted, -⟩ := validatePending_eq.mp valid
  refine ⟨files, Option.some.inj same, accepted.exact, ?_⟩
  have identified := accepted.identified
  simp only [Request.identified, Bool.and_eq_true, decide_eq_true_eq] at identified
  obtain ⟨⟨⟨-, rfl⟩, hex⟩, -⟩ := identified
  exact hex

/-- The published requests among some entries that have no terminal record. -/
def openRequests (completed : List String) (entries : List (Sigma fun _ : Entry => Node)) : List String :=
  entries.filterMap fun x => match x.1 with
    | .request r => if r ∈ completed then none else some r
    | _ => none

/-- An entry that the inspection accepts by its name and kind. -/
def IsRequest (x : Sigma fun _ : Entry => Node) : Prop :=
  ∃ r n, x = ⟨.request r, n⟩ ∧ matchesHex 32 r = true ∧ isDirectory n = true

lemma reads_inspectEntries {completed : List String} {entries : List (Sigma fun _ : Entry => Node)}
    (requests : ∀ x ∈ entries, IsRequest x) :
    Reads (disk t k) s (inspectEntries t a completed entries)
      (fun ids => ids = openRequests completed entries ∧ ∀ now, Fixed k now → ∀ r n,
        ⟨.request r, n⟩ ∈ entries → r ∈ completed →
          validateRetainedPendingDirectory t a now r (some n) = .ok ())
      (∀ now, Fixed k now → ∃ r n, ⟨.request r, n⟩ ∈ entries ∧ r ∈ completed ∧
        validateRetainedPendingDirectory t a now r (some n) ≠ .ok ()) := by
  induction entries with
  | nil => exact reads_ret ⟨rfl, fun _ _ _ _ mem => by cases mem⟩
  | cons x entries ih =>
    obtain ⟨⟨r, n, rfl, hex, directory⟩, later⟩ := List.forall_mem_cons.mp requests
    have more : ∀ {now r' m}, ⟨.request r', m⟩ ∈ entries ∧ r' ∈ completed ∧
        validateRetainedPendingDirectory t a now r' (some m) ≠ .ok () →
        ⟨.request r', m⟩ ∈ (⟨.request r, n⟩ :: entries : List (Sigma fun _ : Entry => Node)) ∧ r' ∈ completed ∧
        validateRetainedPendingDirectory t a now r' (some m) ≠ .ok () :=
      fun h => ⟨List.mem_cons_of_mem _ h.1, h.2⟩
    have rest := (ih later).mono (fun _ h => h) fun failed now fixed =>
      (failed now fixed).imp fun r' h => h.imp fun m => more
    unfold inspectEntries
    refine reads_check (fun refused => by simp [hex, directory] at refused) fun _ => ?_
    by_cases complete : r ∈ completed
    · rw [if_pos complete]
      refine reads_ask fun now at_ => ?_
      refine (reads_ofExcept (fun e failed now' fixed => ?_)).bind id fun _ valid => ?_
      · refine ⟨r, n, List.mem_cons_self, complete, ?_⟩
        rw [← fixed now at_, failed]
        simp
      · refine rest.mono (fun ids h => ⟨?_, fun now' fixed r' m mem in_ => ?_⟩) id
        · simp [h.1, openRequests, complete]
        · rcases List.mem_cons.mp mem with same | mem
          · cases same
            rw [← fixed now at_]
            exact valid
          · exact h.2 now' fixed r' m mem in_
    · rw [if_neg complete]
      refine rest.bind id fun ids h => reads_ret ⟨?_, fun now' fixed r' m mem in_ => ?_⟩
      · simp [h.1, openRequests, complete]
      · rcases List.mem_cons.mp mem with same | mem
        · cases same
          exact absurd in_ complete
        · exact h.2 now' fixed r' m mem in_

/-- Every published request passes the check that it is due at the time `now`. -/
structure Inspectable (t : Tools) (a : Args) (now : ℕ) (s : State) : Prop where
  retained : ∀ r n, s.node (.request r) = some n → Recorded s r →
    validateRetainedPendingDirectory t a now r (some n) = .ok ()
  current : ∀ r n, s.node (.request r) = some n → ¬Recorded s r →
    ∃ result, validatePendingDirectory t a now r (some n) = .ok result

/-- Every published request has a terminal record. -/
def AllRecorded (s : State) : Prop := ∀ r, (s.node (.request r)).isSome = true → Recorded s r

/-- What an inspection finds: no open request, or the one that it has validated. -/
def Finds (t : Tools) (k : Conditions) (a : Args) (s : State) : Option Result → Prop
  | none => AllRecorded s
  | some result => ∃ r n now, s.node (.request r) = some n ∧ ¬Recorded s r ∧ k.clock now ∧
      validatePendingDirectory t a now r (some n) = .ok result

/-- The entries of a pending root without staging directories. -/
lemma Shape.requests {tree : AList fun _ : Entry => Node} (h : Shape t P root s)
    (pending : s.pending = some tree) (unstaged : ∀ r, s.node (.stage r) = none) :
    ∀ x ∈ tree.entries, IsRequest x := by
  rintro ⟨e, n⟩ mem
  have there : s.node e = some n := by
    simp only [State.node, pending, Option.bind_some]
    exact AList.mem_lookup_iff.mpr mem
  cases e with
  | request r =>
    obtain ⟨files, rfl, -, hex⟩ := (h.published r n there).found
    exact ⟨r, _, rfl, hex, rfl⟩
  | stage r =>
    rw [unstaged] at there
    cases there
  | other name =>
    rw [h.others] at there
    cases there

lemma mem_openRequests {tree : AList fun _ : Entry => Node} {completed : List String}
    (pending : s.pending = some tree) : r ∈ openRequests completed tree.entries ↔
      (s.node (.request r)).isSome = true ∧ r ∉ completed := by
  rw [← mem_pending pending, openRequests, List.mem_filterMap, AList.keys, List.mem_keys]
  constructor
  · rintro ⟨⟨e, n⟩, mem, is_⟩
    cases e with
    | request r' =>
      rw [Option.ite_none_left_eq_some] at is_
      obtain ⟨new, same⟩ := is_
      cases same
      exact ⟨⟨n, mem⟩, new⟩
    | _ => cases is_
  · rintro ⟨⟨n, mem⟩, new⟩
    exact ⟨⟨.request r, n⟩, mem, by simp [new]⟩

lemma openRequests_nodup (completed : List String) (tree : AList fun _ : Entry => Node) :
    (openRequests completed tree.entries).Nodup := by
  have keys : (tree.entries.map Sigma.fst).Nodup := tree.nodupKeys
  have same : openRequests completed tree.entries = (tree.entries.map Sigma.fst).filterMap fun e =>
      match e with
      | .request r => if r ∈ completed then none else some r
      | _ => none := by
    rw [List.filterMap_map]
    rfl
  rw [same]
  refine keys.filterMap fun e e' r in_ in_' => ?_
  cases e with
  | request r₁ =>
    cases e' with
    | request r₂ =>
      simp only [Option.mem_def, Option.ite_none_left_eq_some, Option.some.injEq] at in_ in_'
      rw [in_.2, in_'.2]
    | _ => simp at in_'
  | _ => simp at in_

theorem reads_inspectPendingRoot {completed : List String} (h : Shape t P root s)
    (recorded : ∀ r, r ∈ completed ↔ Recorded s r) (unstaged : ∀ r, s.node (.stage r) = none) :
    Reads (disk t k) s (inspectPendingRoot t a completed)
      (fun found => Finds t k a s found ∧ ∀ now, Fixed k now → Inspectable t a now s)
      (∀ now, Fixed k now → ¬Inspectable t a now s) := by
  unfold inspectPendingRoot
  refine reads_look ?_
  cases pending : s.pending with
  | none =>
    have none_ : ∀ e, s.node e = none := fun e => by simp [State.node, pending]
    refine reads_ret ⟨fun r there => ?_, fun now _ => ⟨fun r n there => ?_, fun r n there => ?_⟩⟩
    all_goals
      rw [none_] at there
      cases there
  | some tree =>
    have node : ∀ {r n}, s.node (.request r) = some n → ⟨.request r, n⟩ ∈ tree.entries := by
      intro r n there
      simp only [State.node, pending, Option.bind_some] at there
      exact AList.mem_lookup_iff.mp there
    have node' : ∀ {r n}, ⟨.request r, n⟩ ∈ tree.entries → s.node (.request r) = some n := by
      intro r n mem
      simp only [State.node, pending, Option.bind_some]
      exact AList.mem_lookup_iff.mpr mem
    refine (reads_inspectEntries (h.requests pending unstaged)).bind (fun failed now fixed inspectable => ?_) ?_
    · obtain ⟨r, n, mem, in_, invalid⟩ := failed now fixed
      exact invalid (inspectable.retained r n (node' mem) ((recorded r).mp in_))
    · rintro ids ⟨rfl, retained⟩
      have retained_ : ∀ now, Fixed k now → ∀ r n, s.node (.request r) = some n → Recorded s r →
          validateRetainedPendingDirectory t a now r (some n) = .ok () :=
        fun now fixed r n there in_ => retained now fixed r n (node there) ((recorded r).mpr in_)
      have open_ : ∀ r, r ∈ openRequests completed tree.entries ↔
          (s.node (.request r)).isSome = true ∧ ¬Recorded s r := by
        intro r
        rw [mem_openRequests pending, recorded]
      have distinct := openRequests_nodup completed tree
      generalize openRequests completed tree.entries = ids at open_ distinct
      rcases ids with _ | ⟨r, _ | ⟨r', ids⟩⟩
      · refine reads_ret ⟨fun r there => ?_, fun now fixed => ⟨retained_ now fixed, fun r n there new => ?_⟩⟩
        · by_contra new
          simpa using (open_ r).mpr ⟨there, new⟩
        · simpa using (open_ r).mpr ⟨by rw [there]; rfl, new⟩
      · obtain ⟨there, new⟩ := (open_ r).mp List.mem_cons_self
        obtain ⟨n, there⟩ := Option.isSome_iff_exists.mp there
        have only : ∀ r' m, s.node (.request r') = some m → ¬Recorded s r' → r' = r := fun r' m at_ new' => by
          simpa using (open_ r').mpr ⟨by rw [at_]; rfl, new'⟩
        refine reads_ask fun now at_ => (reads_ofExcept (fun e failed now' fixed inspectable => ?_)).bind id
          fun result valid => reads_ret ⟨⟨r, n, now, there, new, at_, there ▸ valid⟩, fun now' fixed =>
            ⟨retained_ now' fixed, fun r' m there' new' => ?_⟩⟩
        · obtain ⟨result, valid⟩ := inspectable.current r n there new
          rw [there, fixed now at_, valid] at failed
          cases failed
        · obtain rfl := only r' m there' new'
          exact ⟨result, by rw [← fixed now at_, ← there']; exact valid⟩
      · obtain ⟨there, new⟩ := (open_ r).mp List.mem_cons_self
        obtain ⟨there', new'⟩ := (open_ r').mp (List.mem_cons_of_mem r List.mem_cons_self)
        rw [h.single r r' there there' new new'] at distinct
        simp at distinct

end PlatformConfig.HostRequest
