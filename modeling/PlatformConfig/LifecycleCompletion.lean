import PlatformConfig.CrashTrace
import PlatformConfig.LifecycleExpiry

/-!
# Completion within the rollback deadline

A completion of a locally validated activation, with every clock reading and every answer of
the local validation in its trace. A complete record is published on the proof of a validation
of this very run, before the deadline; each other end of a run that passes its first checks
restores what was there before the activation.
-/
namespace PlatformConfig.Lifecycle

open CrashProgram CrashDisk CrashTrace Prog

abbrev History := Trace (Op Write Ask) (Reply State Answer) State

/-- The clock readings of a trace, newest first. -/
def readings : History → List ℕ
  | [] => []
  | ⟨.ask .now, n, _⟩ :: l => n :: readings l
  | _ :: l => readings l

/-- The clock did not go backwards. -/
def Forward (l : History) : Prop := (readings l).Pairwise fun newer older => older ≤ newer

/-- The local validation of a candidate was asked for, and answered. -/
def Validated.Answered (v : Validated) (l : History) (served : Option (String × String)) : Prop :=
  Saw l (.ask (.validate v.certificateSha256 v.intermediateSha256)) served

/-- What stands behind a complete record: this run has authenticated the candidate, validated
exactly its certificate and intermediate, and read the clock before the rollback deadline; the
active record selects the candidate. -/
structure Proven (c : Target) (s : State) (j : Journal) (o : Terminal) (l : History) : Prop where
  candidate : ∃ v served epoch, (∃ n m, s.candidateAt c j.requestId n m = some v) ∧
    v.artifactSha256 = j.artifactManifestSha256 ∧ v.Answered l (some served) ∧ epoch ∈ readings l ∧
    o = targetTerminal j .complete (some ⟨served.1, served.2, epoch⟩) ∧
    (Forward l → epoch < j.rollbackDeadlineEpoch)
  active : ∃ a, s.active = some a ∧ a.requestId = j.requestId ∧ c.activeAuthentic s a = true

/-- A complete record is an earlier one, or it is proven and the active record is still there. -/
def Lawful (c : Target) (s : State) (j : Journal) (t : State) (l : History) : Prop :=
  ∀ o, t.terminal = some (.whole o) → o.state = .complete →
    s.terminal = some (.whole o) ∨ Proven c s j o l ∧ t.active = s.active

/-- What the checks in front of the deadline ask for. -/
structure Admitted (c : Target) (k : Conditions) (s : State) (j : Journal) : Prop where
  server : c.adapter ≠ .client
  clean : s.leftovers = 0
  free : s.requestJournal = false ∧ s.trustJournal = false
  legible : s.legible
  accepted : Accepted c s j
  candidate : ∀ n m, k.clock n → k.clock m →
    ∃ v, s.candidateAt c j.requestId n m = some v ∧ v.artifactSha256 = j.artifactManifestSha256
  active : ∃ a, s.active = some a ∧ a.requestId = j.requestId ∧ c.activeAuthentic s a = true

variable {c : Target} {k : Conditions} {s t u : State} {j : Journal} {l : History} {α β : Type}
  {v : Validated}

lemma readings_append (new l : History) : readings (new ++ l) = readings new ++ readings l := by
  induction new with
  | nil => rfl
  | cons e new ih =>
    obtain ⟨o, r, s⟩ := e
    cases o with
    | ask x =>
      cases x with
      | now => exact congrArg (List.cons _) ih
      | _ => exact ih
    | _ => exact ih

lemma Forward.older {new : History} (h : Forward (new ++ l)) : Forward l := by
  rw [Forward, readings_append] at h
  exact (List.pairwise_append.mp h).2.1

lemma Validated.Answered.append {served : Option (String × String)} (h : v.Answered l served)
    (new : History) : v.Answered (new ++ l) served := by
  obtain ⟨s, mem⟩ := h
  exact ⟨s, List.mem_append_right new mem⟩

lemma Proven.append {o : Terminal} (h : Proven c s j o l) (new : History) :
    Proven c s j o (new ++ l) := by
  obtain ⟨⟨v, served, epoch, candidate, artifact, answered, read, same, early⟩, active⟩ := h
  refine ⟨⟨v, served, epoch, candidate, artifact, answered.append new, ?_, same,
    fun forward => early forward.older⟩, active⟩
  rw [readings_append]
  exact List.mem_append_right _ read

section Rules
variable {L : State → History → Prop} {Q : Except String β → State → History → Prop}

end Rules

/-! ## Before a complete record is published -/

/-- No complete record stands in the terminal slot. -/
def Incomplete (s : State) : Prop := ∀ o, s.terminal = some (.whole o) → o.state ≠ .complete

lemma Incomplete.lawful (h : Incomplete t) (l : History) : Lawful c s j t l := fun o there complete =>
  absurd complete (h o there)

lemma Incomplete.free (free : s.terminal = none) : Incomplete s := by
  intro o there
  rw [free] at there
  cases there

lemma Served.terminal (served : Served s t) : t.terminal = s.terminal := served.kept.terminal

section Validation
variable {Q : Except String β → State → History → Prop}

/-- A validation ends well only with the answer that it was given. -/
def Reported (v : Validated) (out : Except String (String × String)) (_ : State) (l : History) : Prop :=
  ∀ served, out = .ok served → v.Answered l (some served)

end Validation

/-! ## The publication of a complete record -/

lemma holds_inspect {I : State → Prop} {e : String} {f : Unit → Run β}
    {Q : Except String β → State → Prop} (here : I s) (failed : Q (.error e) s)
    (rest : Holds (disk k) I (f ()) Q s) : Holds (disk k) I ((inspect e).bind f) Q s := by
  simp only [inspect, Prog.bind_assoc]
  exact holds_ask here fun _ _ => holds_check (fun _ => failed) fun _ => rest

section Completion
variable (free : s.terminal = none) (fresh : ¬s.recorded j.requestId)
include free fresh

end Completion

/-- The moves of a completion that publishes nothing. -/
def Idle (s : State) : Label → State → Prop := fun l _ =>
  l = .service ∨ s.terminal ≠ none ∧ (l = .success ∨ l = .resume)

end PlatformConfig.Lifecycle
