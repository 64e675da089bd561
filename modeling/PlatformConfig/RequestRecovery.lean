import PlatformConfig.RequestCreation

/-!
# Whole runs of the request helper

Any number of runs on one state root and one pending root, each ended by itself or by a kill inside
any of its steps, with changes of the lifecycle records between them: what holds in every state that
they leave, and when the next run that nothing interrupts ends with a valid pending request.
-/
namespace PlatformConfig.HostRequest

open CrashProgram CrashDisk Prog
open GuardPlan (matchesHex)
open RecordText

variable {t : Tools} {k : Conditions} {P : Args → ℕ → Prop} {a : Args} {root r : String} {s u : State}
  {n : Node} {check : Bool} {now : ℕ}

/-! ## One run -/

/-- The records of the state root let a run with these arguments begin. -/
def Admitted (a : Args) (s : State) : Prop :=
  ∃ completed active, inspectStateRoot a s = .ok (completed, active) ∧ admits a active = .ok ()

/-- Nothing is in the way of a run at the time `now`. -/
structure Ready (t : Tools) (a : Args) (now : ℕ) (s : State) : Prop where
  admitted : Admitted a s
  recoverable : Recoverable t a now s
  inspectable : Inspectable t a now s

/-- Every recorded request is still published. -/
def Retained (s : State) : Prop := ∀ r, Recorded s r → (s.node (.request r)).isSome = true

/-- A run from `s` has ended with the request of `result` pending and nothing unfinished: the request
was there before, or it is new and every older one is recorded. -/
structure Settled (t : Tools) (k : Conditions) (a : Args) (s : State) (result : Result) (u : State) :
    Prop where
  journal : u.journal = none
  unstaged : ∀ r, u.node (.stage r) = none
  valid : ∃ n now, u.node (.request result.requestId) = some n ∧ k.clock now ∧
    validatePendingDirectory t a now result.requestId (some n) = .ok { result with status := .existing }
  origin : match result.status with
    | .existing => u.node (.request result.requestId) = s.node (.request result.requestId) ∧
        ¬Recorded s result.requestId
    | .created => s.node (.request result.requestId) = none ∧ AllRecorded s ∧ Retained s
  others : ∀ r, r ≠ result.requestId → u.node (.request r) = s.node (.request r)

/-- How a run ends. -/
def Ends (t : Tools) (k : Conditions) (a : Args) (check : Bool) (s : State) :
    Except String Outcome → State → Prop
  | .ok (.pending result), u => Settled t k a s result u ∧ (check = true → result.status = .existing) ∧
      ∀ now, Fixed k now → Ready t a now s
  | .ok .wouldCreate, _ => check = true ∧ AllRecorded s ∧ ∀ now, Fixed k now → Ready t a now s
  | .error _, _ => ∀ now, Fixed k now → Trouble k ∨ ¬Creatable a now ∨ ¬Ready t a now s ∨
      (check = true ∧ s.journal ≠ none) ∨ (check = false ∧ AllRecorded s ∧ ¬Retained s)

lemma inspectStateRoot_completed {completed : List String} {active : Option String}
    (read : inspectStateRoot a s = .ok (completed, active)) :
    completedTargetRequestIds a s = .ok completed := by
  simp only [inspectStateRoot, Fallible.bind_eq_ok] at read
  obtain ⟨-, -, -, -, -, -, ids, read, id, -, made⟩ := read
  cases made
  exact read

lemma Kept.allRecorded (h : Kept s u) (published : ∀ r, u.node (.request r) = s.node (.request r)) :
    AllRecorded u ↔ AllRecorded s := by
  simp only [AllRecorded, published, h.recorded]

lemma Kept.inspectable (h : Kept s u) (published : ∀ r, u.node (.request r) = s.node (.request r)) :
    Inspectable t a now u ↔ Inspectable t a now s := by
  constructor
  · rintro ⟨retained, current⟩
    exact ⟨fun r n there in_ => retained r n (by rwa [published]) (h.recorded.mpr in_),
      fun r n there new => current r n (by rwa [published]) fun in_ => new (h.recorded.mp in_)⟩
  · rintro ⟨retained, current⟩
    exact ⟨fun r n there in_ => retained r n (by rwa [← published]) (h.recorded.mp in_),
      fun r n there new => current r n (by rwa [← published]) fun in_ => new (h.recorded.mpr in_)⟩

lemma validate_requestId {result : Result} {node : Option Node}
    (valid : validatePendingDirectory t a now r node = .ok result) :
    result.requestId = r ∧ result.status = .existing := by
  obtain ⟨files, p, q, spki, -, -, rfl⟩ := validatePending_eq.mp valid
  exact ⟨rfl, rfl⟩

/-- The pending root is there, unless the run only checks. -/
lemma holds_preparePendingRoot {s₀ : State} (h : Going t P root s₀ s) :
    Holds (disk t k) (Going t P root s₀) (preparePendingRoot check)
      (fun out u => match out with
        | .ok _ => (check = false → u.pending.isSome = true) ∧ u.journal = s.journal ∧
            ∀ e, u.node e = s.node e
        | .error _ => k.faults) s := by
  unfold preparePendingRoot
  refine holds_look h ?_
  by_cases missing : (s.pending.isNone && !check) = true
  · rw [if_pos missing]
    simp only [Bool.and_eq_true, Option.isNone_iff_eq_none] at missing
    have made : Going t P root s₀ { s with pending := some ∅ } :=
      h.trans (h.1.mkdirPending missing.1) (Kept.mkdirPending missing.1)
    refine wp_tail (holds_applied (u := { s with pending := some ∅ }) h (fun v torn => by cases torn) id
      (by simp [Write.apply, missing.1]) made ⟨fun _ => rfl, rfl, node_empty missing.1⟩)
  · rw [if_neg missing]
    refine ⟨fun applying => ?_, rfl, fun e => rfl⟩
    rw [applying] at missing
    simpa [Option.isSome_iff_ne_none] using missing

/-- A run keeps the shape of the state and every published request, and it ends in one of the ways
above. -/
theorem request_holds (h : Shape t P a.pendingRoot s) (member : ∀ now, k.clock now → P a now) :
    Holds (disk t k) (Going t P a.pendingRoot s) (request t a check) (Ends t k a check s) s := by
  have begin_ := Going.start h
  have faulty : ∀ {e u}, k.faults → Ends t k a check s (.error e) u := fun faults _ _ => .inl (.inl faults)
  have unready : ∀ {e u}, (∀ now, Fixed k now → ¬Ready t a now s) → Ends t k a check s (.error e) u :=
    fun blocked now fixed => .inr (.inr (.inl (blocked now fixed)))
  unfold request
  refine holds_inspect begin_ faulty (holds_inspect begin_ faulty (holds_inspect begin_ faulty ?_))
  refine holds_look begin_ (holds_ofExcept (fun e failed => unready fun now _ ready => ?_) fun ids read => ?_)
  · obtain ⟨completed, active, read, -⟩ := ready.admitted
    rw [failed] at read
    cases read
  obtain ⟨completed, active⟩ := ids
  refine holds_ofExcept (fun e failed => unready fun now _ ready => ?_) fun _ admitted => ?_
  · obtain ⟨completed', active', read', admitted⟩ := ready.admitted
    rw [read] at read'
    cases read'
    rw [failed] at admitted
    cases admitted
  have admitted_ : Admitted a s := ⟨completed, active, read, admitted⟩
  have recorded : ∀ r, r ∈ completed ↔ Recorded s r := fun r => completed_eq (inspectStateRoot_completed read)
  refine wp_seq (P := fun _ u => ((check = false → u.pending.isSome = true) ∧ u.journal = s.journal ∧
    ∀ e, u.node e = s.node e) ∧ Going t P a.pendingRoot s u) ?_ ?_
  · refine wp_mono (wp_invariant (I := Going t P a.pendingRoot s) (fun _ _ _ _ g => g) begin_
      (holds_preparePendingRoot begin_)) (fun _ _ _ g => g) fun out u ended => ?_
    cases out with
    | ok x => exact ended
    | error e => exact faulty ended.1
  rintro - s₁ ⟨⟨pending₁, journal₁, node₁⟩, going₁⟩
  have recoverable₁ : ∀ {now}, Recoverable t a now s₁ ↔ Recoverable t a now s := by
    intro now
    simp only [Recoverable, journal₁]
    refine forall₂_congr fun file there => exists_congr fun r => and_congr_right fun _ => and_congr_right fun _ => ?_
    constructor
    · rintro ⟨fits, apart, staged, published⟩
      simp only [node₁] at apart staged published
      exact ⟨fits, apart, staged, published⟩
    · rintro ⟨fits, apart, staged, published⟩
      simp only [← node₁] at apart staged published
      exact ⟨fits, apart, staged, published⟩
  refine holds_inspect going₁ faulty (wp_seq (P := fun _ u => Recovers t k a check s₁ (.ok ()) u ∧
    Going t P a.pendingRoot s u) ?_ ?_)
  · refine wp_mono (wp_invariant (I := Going t P a.pendingRoot s) (fun _ _ _ _ g => g) going₁
      (recover_holds going₁)) (fun _ _ _ g => g) fun out u ended => ?_
    cases out with
    | ok x => exact ended
    | error e =>
      intro now fixed
      rcases ended.1 now fixed with faults | checking | blocked
      · exact .inl (.inl faults)
      · exact .inr (.inr (.inr (.inl ⟨checking.1, journal₁ ▸ checking.2⟩)))
      · exact .inr (.inr (.inl fun ready => blocked (recoverable₁.mpr ready.recoverable)))
  rintro - s₂ ⟨⟨recovered, recoverable⟩, going₂⟩
  have published₂ : ∀ r, s₂.node (.request r) = s.node (.request r) := fun r =>
    (recovered.published r).trans (node₁ _)
  have ready : ∀ {now}, Fixed k now → Inspectable t a now s₂ → Ready t a now s := fun fixed inspectable =>
    ⟨admitted_, recoverable₁.mp (recoverable _ fixed), (going₂.2.inspectable published₂).mp inspectable⟩
  have all_ : AllRecorded s₂ ↔ AllRecorded s := going₂.2.allRecorded published₂
  have recorded₂ : ∀ r, r ∈ completed ↔ Recorded s₂ r := fun r => (recorded r).trans going₂.2.recorded.symm
  refine holds_inspect going₂ faulty (wp_reads (fun _ => going₂)
    (reads_inspectPendingRoot going₂.1 recorded₂ recovered.unstaged) (fun e blocked => ?_) fun found inspected => ?_)
  · exact unready fun now fixed ready => blocked now fixed ((going₂.2.inspectable published₂).mpr ready.inspectable)
  obtain ⟨finds, inspectable⟩ := inspected
  cases found with
  | some result =>
    obtain ⟨r, n, now, there, new, clock, valid⟩ := finds
    obtain ⟨rfl, status⟩ := validate_requestId valid
    refine ⟨⟨recovered.journal, recovered.unstaged, ⟨n, now, there, clock, ?_⟩, ?_, fun r _ => published₂ r⟩,
      fun _ => status, fun now fixed => ready fixed (inspectable now fixed)⟩
    · rw [valid, ← status]
    · rw [status]
      exact ⟨published₂ _, fun in_ => new (going₂.2.recorded.mpr in_)⟩
  | none =>
    dsimp only
    by_cases checking : check = true
    · rw [if_pos checking]
      exact ⟨checking, all_.mp finds, fun now fixed => ready fixed (inspectable now fixed)⟩
    · rw [if_neg checking]
      have applying : check = false := by simpa using checking
      have pending₂ : s₂.pending.isSome = true := recovered.pending.trans (pending₁ applying)
      refine wp_seq (P := fun result u => Creates t k a completed s₂ (.ok result) u ∧
        Going t P a.pendingRoot s u) ?_ ?_
      · refine wp_mono (wp_invariant (I := Going t P a.pendingRoot s) (fun _ _ _ _ g => g) going₂
          (create_holds going₂ member recovered.journal pending₂ recorded₂ finds)) (fun _ _ _ g => g)
          fun out u ended => ?_
        cases out with
        | ok result => exact ended
        | error e =>
          intro now fixed
          rcases ended.1 now fixed with trouble | uncreatable | ⟨r, in_, absent⟩
          · exact .inl trouble
          · exact .inr (.inl uncreatable)
          · refine .inr (.inr (.inr (.inr ⟨applying, all_.mp finds, fun retained => ?_⟩)))
            have there := retained r ((recorded r).mp in_)
            rw [← published₂, absent] at there
            cases there
      · rintro result u ⟨⟨journal, unstaged, present, r, n, now, found, free, clock, valid, rfl, node⟩, going⟩
        obtain ⟨rfl, status⟩ := validate_requestId valid
        refine ⟨⟨journal, unstaged, ⟨n, now, by rw [node]; simp, clock, ?_⟩, ?_, fun r other => ?_⟩,
          fun check => absurd check checking, fun now fixed => ready fixed (inspectable now fixed)⟩
        · rw [valid, ← status]
        · refine ⟨by rw [← published₂]; exact free, all_.mp finds, fun r in_ => ?_⟩
          rw [← published₂]
          exact present r ((recorded r).mpr in_)
        · rw [node, if_neg other, published₂]

/-! ## Any number of runs -/

/-- What the lifecycle helper does between two runs: it changes the active and the rollback record,
and it adds terminal records. -/
structure Changes (s u : State) : Prop where
  journal : u.journal = s.journal
  pending : u.pending = s.pending
  recorded : ∀ r, Recorded s r → Recorded u r

/-- Runs with arguments of `member`, each ended by itself or by a kill, and changes between them. -/
inductive Reaches (t : Tools) (k : Conditions) (member : Args → Prop) : State → State → Prop
  | refl (s : State) : Reaches t k member s s
  | change {s u v : State} (prior : Reaches t k member s u) (changes : Changes u v) : Reaches t k member s v
  | run {s u v : State} {a : Args} {check : Bool} (prior : Reaches t k member s u) (may : member a)
      (run : Killed (disk t k).semantics (request t a check) u v) : Reaches t k member s v

/-- Nothing is pending and nothing is unfinished. -/
structure Fresh (s : State) : Prop where
  journal : s.journal = none
  node : ∀ e, s.node e = none

lemma Fresh.shape (h : Fresh s) : Shape t P root s := by
  refine ⟨fun file there => ?_, fun r n there => ?_, fun r n there => ?_, fun name => h.node _, fun r _ there => ?_⟩
  · rw [h.journal] at there
    cases there
  all_goals
    rw [h.node] at there
    cases there

lemma Shape.changes (h : Shape t P root s) (changes : Changes s u) : Shape t P root u := by
  have node : ∀ e, u.node e = s.node e := fun e => by simp only [State.node, changes.pending]
  refine ⟨fun file there => h.journal file (changes.journal ▸ there), fun r n there => ?_, fun r n there => ?_,
    fun name => ?_, fun r r' there there' new new' => ?_⟩
  · exact h.published r n (by rwa [← node])
  · rw [changes.journal]
    exact h.staged r n (by rwa [← node])
  · rw [node]
    exact h.others name
  · rw [node] at there there'
    exact h.single r r' there there' (fun in_ => new (changes.recorded r in_))
      fun in_ => new' (changes.recorded r' in_)

/-- Which arguments see which times in some runs. -/
def Seen (member : Args → Prop) (k : Conditions) (a : Args) (now : ℕ) : Prop := member a ∧ k.clock now

variable {member : Args → Prop}

/-- Killed runs and changes keep the shape, and they keep every published request. -/
theorem reaches_shape (roots : ∀ a, member a → a.pendingRoot = root) (h : Shape t (Seen member k) root s)
    (reaches : Reaches t k member s u) : Shape t (Seen member k) root u ∧
      ∀ r n, s.node (.request r) = some n → u.node (.request r) = some n := by
  induction reaches with
  | refl => exact ⟨h, fun r n there => there⟩
  | change _ changes ih =>
    obtain ⟨shape, kept⟩ := ih
    refine ⟨shape.changes changes, fun r n there => ?_⟩
    simp only [State.node, changes.pending]
    exact kept r n there
  | run _ may run ih =>
    obtain ⟨shape, kept⟩ := ih
    obtain rfl := roots _ may
    have going := wp_killed (request_holds shape fun now at_ => ⟨may, at_⟩) (Going.start shape) run
    exact ⟨going.1, fun r n there => going.2.published r n (kept r n there)⟩

/-- The conditions of a run that nothing interrupts: every check and every tool succeeds, a fresh
request ID is free, and the clock shows `now`. -/
def calm (now : ℕ) : Conditions := ⟨False, False, False, (· = now)⟩

lemma calm_fixed : Fixed (calm now) now := fun _ at_ => at_

lemma calm_untroubled : ¬Trouble (calm now) := by
  rintro (faults | faults | collides)
  all_goals assumption

/-! ## A sample target -/

/-- Tools that accept every file; every digest is the same. -/
def sampleTools : Tools where
  sha256 _ := "0000000000000000000000000000000000000000000000000000000000000000"
  hex _ := by decide
  inspectCsr _ _ := .ok ()
  der d := .ok d
  keySpki _ := some []
  csrSpki _ := some []
  profileCsr _ _ := .ok ()
  profileKey _ := .ok ()
  verify _ _ _ := true

def sampleArgs : Args where
  service := "registry"
  target := "node1"
  responsePrincipal := "ca"
  operation := .issue
  subject := .server "registry" ["registry"] []
  inventorySha256 := "0000000000000000000000000000000000000000000000000000000000000000"
  currentCertSha256 := noneText
  predecessorRequestId := noneText
  requestTtlSeconds := 600
  pendingRoot := "/pending"
  service_ok := by decide
  target_ok := by decide
  response_ok := by decide
  inventory_ok := by decide
  ttl_ok := by decide
  client_ok := by decide
  issue_ok := by decide
  renew_ok := by decide
  root_ok := by decide

def sampleId : String := "00000000000000000000000000000000"

def sampleAnswer : (x : Ask) → State → Answer x
  | .inspect, _ => true
  | .now, _ => 1000
  | .requestId, _ => sampleId
  | .nonce, _ => "0000000000000000000000000000000000000000000000000000000000000000"
  | .key, _ => some [1]
  | .csr _ _, _ => some [1]
  | .sign _ _, _ => some [1]

/-- The answers are those of a calm run while the request ID is free. -/
def sampleAllowed : Op Write Ask → State → Bool
  | .ask .requestId, s => (s.node (.request sampleId)).isNone
  | .ask (.csr a _), _ => a.subject.profile ≠ clientProfile
  | _, _ => true

abbrev sampleRun : (o : Op Write Ask) → State → Reply State Answer o × State :=
  (disk sampleTools (calm 1000)).answering sampleAnswer

lemma sample_sound (o : Op Write Ask) (s : State) (allowed : sampleAllowed o s = true) :
    Done (disk sampleTools (calm 1000)) o s (sampleRun o s).1 (sampleRun o s).2 := by
  refine answering_done fun x same => ?_
  cases same
  cases x with
  | inspect => exact .inl rfl
  | now => rfl
  | requestId => exact ⟨(by decide : matchesHex 32 sampleId = true), .inl allowed⟩
  | nonce => exact (by decide : matchesHex 64 (sampleTools.sha256 []) = true)
  | key => exact .inl ⟨[1], rfl, by decide, trivial⟩
  | csr a key =>
    refine .inl ⟨[1], rfl, by decide, sampleTools.sha256 [], ?_⟩
    have server : a.subject.profile ≠ clientProfile := of_decide_eq_true allowed
    simp only [validateCsr, if_neg server]
    rfl
  | sign a request => exact .inl ⟨[1], rfl, by decide, rfl⟩

def bare : State := ⟨none, none, none, none, none, [], none⟩

/-- What a first run leaves that is killed while it fills the staging directory. -/
def interrupted : State := after sampleRun 16 (request sampleTools sampleArgs false) bare

/-- What the next run leaves. -/
def resumed : State := (run sampleRun (request sampleTools sampleArgs false) interrupted).2

/-- The request that the second run creates. -/
def sampleResult : Result where
  status := .created
  requestId := sampleId
  requestSha256 := sampleTools.sha256 []
  csrSha256 := sampleTools.sha256 []
  csrSpkiSha256 := sampleTools.sha256 []

def ends (result : Result) (out : Except String Outcome) : Bool :=
  match out with
  | .ok o => o = .pending result
  | .error _ => false

lemma ends_eq {result : Result} {out : Except String Outcome} (h : ends result out = true) :
    out = .ok (.pending result) := by
  cases out with
  | ok o => rw [of_decide_eq_true h]
  | error e => cases h

lemma sample_runs :
    passing sampleRun sampleAllowed (request sampleTools sampleArgs false) bare = true ∧
    passing sampleRun sampleAllowed (request sampleTools sampleArgs false) interrupted = true ∧
    passing sampleRun sampleAllowed (request sampleTools sampleArgs true) resumed = true ∧
    passing sampleRun sampleAllowed (request sampleTools sampleArgs false) resumed = true ∧
    (interrupted.node (.stage sampleId)).isSome = true ∧ (resumed.node (.request sampleId)).isSome = true ∧
    resumed.journal = none ∧
    ends sampleResult (run sampleRun (request sampleTools sampleArgs false) interrupted).1 = true ∧
    ends { sampleResult with status := .existing }
      (run sampleRun (request sampleTools sampleArgs true) resumed).1 = true := by
  decide +kernel

lemma bare_fresh : Fresh bare := ⟨rfl, fun _ => rfl⟩

/-- The sample arguments and no others. -/
def IsSample (a : Args) : Prop := a = sampleArgs

lemma reaches_interrupted : Reaches sampleTools (calm 1000) IsSample bare interrupted :=
  .run (.refl bare) rfl (killed_passing sample_sound sample_runs.1 16)

lemma runs_resumed : Exec (disk sampleTools (calm 1000)).semantics (request sampleTools sampleArgs false)
    interrupted (run sampleRun (request sampleTools sampleArgs false) interrupted).1 resumed :=
  exec_passing sample_sound sample_runs.2.1

lemma reaches_resumed : Reaches sampleTools (calm 1000) IsSample interrupted resumed :=
  .run (.refl interrupted) rfl runs_resumed.killed

lemma sample_binding (b : Args) (sample : IsSample b) : SameBinding sampleArgs b := by
  cases sample
  exact ⟨rfl, rfl, rfl, rfl, rfl⟩

lemma sample_creatable : Creatable sampleArgs 1000 :=
  ⟨by decide +kernel, fun r hex => journal_readable hex (by decide), by decide⟩

/-! ## Published requests -/

/-- In every state that killed runs and changes of the lifecycle records leave, a published request
is a directory that some run has validated, it is never changed again, at most one published request
has no terminal record, and a staging directory stands under its whole journal only. -/
theorem published_requests_sound (roots : ∀ a, member a → a.pendingRoot = root) {v : State} (fresh : Fresh s)
    (first : Reaches t k member s u) (later : Reaches t k member u v) :
    (∀ r n, u.node (.request r) = some n → v.node (.request r) = some n) ∧
    (∀ r n, v.node (.request r) = some n → ∃ a now result, member a ∧ k.clock now ∧
      validatePendingDirectory t a now r (some n) = .ok result) ∧
    (∀ r r', (v.node (.request r)).isSome = true → (v.node (.request r')).isSome = true →
      ¬Recorded v r → ¬Recorded v r' → r = r') ∧
    ∀ r n, v.node (.stage r) = some n → v.journal = some (.ok (journalFor root r)) := by
  obtain ⟨shape, -⟩ := reaches_shape roots fresh.shape first
  obtain ⟨shape', kept⟩ := reaches_shape roots shape later
  refine ⟨kept, fun r n there => ?_, shape'.single, fun r n there => (shape'.staged r n there).2.1⟩
  obtain ⟨a, now, result, ⟨may, clock⟩, valid⟩ := shape'.published r n there
  exact ⟨a, now, result, may, clock, valid⟩

theorem published_requests_sound_resumed : (resumed.node (.request sampleId)).isSome = true ∧
    ∀ r r', (resumed.node (.request r)).isSome = true → (resumed.node (.request r')).isSome = true →
      ¬Recorded resumed r → ¬Recorded resumed r' → r = r' := by
  have sound := published_requests_sound (fun b sample => (sample_binding b sample).root) bare_fresh
    reaches_interrupted reaches_resumed
  exact ⟨sample_runs.2.2.2.2.2.1, sound.2.2.1⟩

/-! ## Recovery -/

/-- Nothing that runs have left is in the way of the next one at the time `now`. -/
structure Unblocked (t : Tools) (a : Args) (now : ℕ) (s : State) : Prop where
  whole : ∀ file, s.journal = some file →
    ∃ r, matchesHex 32 r = true ∧ file = .ok (journalFor a.pendingRoot r)
  legible : ∀ r files, s.node (.stage r) = some (.ok files) → Legible files
  apart : ∀ r, ¬((s.node (.stage r)).isSome = true ∧ (s.node (.request r)).isSome = true)
  unsettled : ∀ r n, s.node (.request r) = some n →
    (¬Recorded s r ∨ s.journal = some (.ok (journalFor a.pendingRoot r))) →
      ∃ result, validatePendingDirectory t a now r (some n) = .ok result
  retained : AllRecorded s → Retained s

/-- With a common binding and a clock that does not go back, retained requests are never in the way. -/
lemma Sealed.retained (bindings : ∀ b, member b → SameBinding a b) (times : ∀ n, k.clock n → n ≤ now + 300)
    (h : Sealed t (Seen member k) r n) :
    validateRetainedPendingDirectory t a now r (some n) = .ok () := by
  obtain ⟨b, then_, result, ⟨may, clock⟩, valid⟩ := h
  exact pending_validates_retained valid (bindings b may) (times then_ clock)

lemma Shape.mono {P' : Args → ℕ → Prop} (h : Shape t P root s) (weaker : ∀ a now, P a now → P' a now) :
    Shape t P' root s := by
  refine ⟨h.journal, fun r n there => ?_, h.staged, h.others, h.single⟩
  obtain ⟨a, now, result, seen, valid⟩ := h.published r n there
  exact ⟨a, now, result, weaker a now seen, valid⟩

/-- An existing request was published before the run. -/
lemma Settled.there {result : Result} (h : Settled t k a s result u) (status : result.status = .existing) :
    (s.node (.request result.requestId)).isSome = true := by
  have origin := h.origin
  obtain ⟨n, now, there, -⟩ := h.valid
  rw [status] at origin
  rw [← origin.1, there]
  rfl

lemma Settled.opened {result : Result} (h : Settled t k a s result u) (status : result.status = .existing) :
    ¬AllRecorded s := by
  have origin := h.origin
  rw [status] at origin
  exact fun all_ => origin.2 (all_ _ (h.there status))

lemma Settled.complete {result : Result} (h : Settled t k a s result u) (status : result.status = .created) :
    AllRecorded s := by
  have origin := h.origin
  rw [status] at origin
  exact origin.2.1

/-- Two runs at one time that find an existing request find the same one. -/
lemma Settled.unique {result result' : Result} {v : State} (shape : Shape t P root s) (fixed : Fixed k now)
    (h : Settled t k a s result u) (h' : Settled t k a s result' v) (status : result.status = .existing)
    (status' : result'.status = .existing) : result = result' := by
  have origin := h.origin
  have origin' := h'.origin
  rw [status] at origin
  rw [status'] at origin'
  have same := shape.single _ _ (h.there status) (h'.there status') origin.2 origin'.2
  obtain ⟨n, then_, there, clock, valid⟩ := h.valid
  obtain ⟨n', then_', there', clock', valid'⟩ := h'.valid
  rw [origin.1, same, ← origin'.1, there'] at there
  cases there
  rw [fixed then_ clock, same] at valid
  rw [fixed then_' clock', valid] at valid'
  have both := Except.ok.inj valid'
  obtain ⟨found, r, request, csr, spki⟩ := result
  obtain ⟨found', r', request', csr', spki'⟩ := result'
  cases status
  cases status'
  cases same
  exact both

/-- The end of a run from a state that runs have left. -/
lemma exec_ends {out : Except String Outcome} (h : Shape t P a.pendingRoot s)
    (run : Exec (disk t k).semantics (request t a check) s out u) : Ends t k a check s out u := by
  have shape : Shape t (fun _ _ => True) a.pendingRoot s := h.mono fun _ _ _ => trivial
  exact wp_exec (request_holds shape fun _ _ => trivial) run

/-- What lets a run pass, told by what earlier runs can have left. -/
lemma ready_iff (h : Shape t (Seen member k) a.pendingRoot s) (bindings : ∀ b, member b → SameBinding a b)
    (times : ∀ n, k.clock n → n ≤ now + 300) (creatable : Creatable a now) :
    Ready t a now s ∧ (AllRecorded s → Retained s) ↔ Admitted a s ∧ Unblocked t a now s := by
  constructor
  · rintro ⟨⟨admitted, recoverable, inspectable⟩, retained⟩
    have staged : ∀ r n, s.node (.stage r) = some n → Finishable t a now s r := fun r n there => by
      obtain ⟨hex, journal, -⟩ := h.staged r n there
      exact (recoverable_iff hex journal).mp recoverable
    refine ⟨admitted, ⟨fun file there => ?_, fun r files there => ?_, fun r both => ?_, fun r n there why => ?_,
      retained⟩⟩
    · obtain ⟨r, hex, same, -⟩ := recoverable file there
      exact ⟨r, hex, same⟩
    · exact (staged r _ there).staged files there
    · obtain ⟨n, there⟩ := Option.isSome_iff_exists.mp both.1
      exact (staged r n there).apart both
    · rcases why with new | journal
      · exact inspectable.current r n there new
      · have hex := (h.published r n there).found
        obtain ⟨-, -, -, hex⟩ := hex
        exact ((recoverable_iff hex journal).mp recoverable).published n there
  · rintro ⟨admitted, whole, legible, apart, unsettled, retained⟩
    refine ⟨⟨admitted, fun file there => ?_, ⟨fun r n there _ => ?_, fun r n there new => ?_⟩⟩, retained⟩
    · obtain ⟨r, hex, rfl⟩ := whole file there
      exact ⟨r, hex, rfl, creatable.journal r hex, apart r, legible r, fun n at_ => unsettled r n at_ (.inr there)⟩
    · exact (h.published r n there).retained bindings times
    · exact unsettled r n there (.inl new)

/-- After any number of killed runs and changes of the lifecycle records, a run that nothing
interrupts ends with a valid pending request and nothing unfinished if and only if the lifecycle
records admit it, no journal was torn, every staged file can be read, no staging directory has a
published namesake, every request that is open or named by the journal still validates, and, where a
new request is needed, every recorded one is still in its place. -/
theorem request_settles_iff {s₀ : State} {out : Except String Outcome} (fresh : Fresh s₀)
    (bindings : ∀ b, member b → SameBinding a b) (times : ∀ n, k.clock n → n ≤ now + 300)
    (creatable : Creatable a now) (runs : Reaches t k member s₀ s)
    (run : Exec (disk t (calm now)).semantics (request t a false) s out u) :
    (∃ result, out = .ok (.pending result) ∧ Settled t (calm now) a s result u) ↔
      Admitted a s ∧ Unblocked t a now s := by
  have shape := (reaches_shape (fun b may => (bindings b may).root) fresh.shape runs).1
  rw [← ready_iff shape bindings times creatable]
  have ended := exec_ends shape run
  cases out with
  | error e =>
    refine iff_of_false (fun done => ?_) fun both => ?_
    · obtain ⟨result, same, -⟩ := done
      cases same
    · rcases ended now calm_fixed with trouble | uncreatable | unready | ⟨checking, -⟩ | ⟨-, all_, incomplete⟩
      · exact calm_untroubled trouble
      · exact uncreatable creatable
      · exact unready both.1
      · cases checking
      · exact incomplete (both.2 all_)
  | ok outcome =>
    cases outcome with
    | wouldCreate => cases ended.1
    | pending result =>
      obtain ⟨settled, -, ready⟩ := ended
      refine iff_of_true ⟨result, rfl, settled⟩ ⟨ready now calm_fixed, fun all_ => ?_⟩
      have origin := settled.origin
      cases status : result.status with
      | existing =>
        rw [status] at origin
        exact absurd (all_ _ (settled.there status)) origin.2
      | created =>
        rw [status] at origin
        exact origin.2.2

theorem request_settles_iff_interrupted :
    (run sampleRun (request sampleTools sampleArgs false) interrupted).1 = .ok (.pending sampleResult) ∧
    ((∃ result, (run sampleRun (request sampleTools sampleArgs false) interrupted).1 = .ok (.pending result) ∧
        Settled sampleTools (calm 1000) sampleArgs interrupted result resumed) ↔
      Admitted sampleArgs interrupted ∧ Unblocked sampleTools sampleArgs 1000 interrupted) :=
  ⟨ends_eq sample_runs.2.2.2.2.2.2.2.1, request_settles_iff bare_fresh sample_binding
    (fun n same => by cases same; decide) sample_creatable reaches_interrupted runs_resumed⟩

/-! ## Check mode -/

section Check
variable {α : Type}

/-- A program that changes nothing, wherever it ends. -/
def Still (t : Tools) (k : Conditions) (s : State) (p : Run α) : Prop :=
  Reads (disk t k) s p (fun _ => True) True

lemma Still.bind {β : Type} {R : β → Prop} {p : Run α} {f : α → Run β} (first : Still t k s p)
    (rest : ∀ x, Reads (disk t k) s (f x) R True) : Reads (disk t k) s (p.bind f) R True :=
  Reads.bind first id fun x _ => rest x

end Check

end PlatformConfig.HostRequest
