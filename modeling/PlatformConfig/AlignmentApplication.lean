import PlatformConfig.AlignmentApproval

/-!
# An application after a preparation

When the application of a prepared transaction performs it, and what it leaves otherwise.
-/
namespace PlatformConfig.MinorAlignment

open CanonicalJson CrashProgram CrashDisk Prog
open CompletionMarker (canonicalJson)
open RecordText (Bytes)

def State.locked (s : State) (pid : ℕ) : State := { s with lock := some pid }

/-- The state in which the transaction is started: behind the marker and without the override. -/
def State.marked (s : State) (a : ApplyArgs) (remove : Bool) : State :=
  { s with
    staging := s.staging.map fun st => st.set .started (.file (canonicalJson a.started))
    dnfVar := if remove then none else s.dnfVar }

/-- The state after the transaction, with its record and without the lock. -/
def State.completed (s : State) (a : ApplyArgs) (rows : List String) : State :=
  { s with
    installed := rows
    staging := s.staging.map fun st => st.set .complete (.file (canonicalJson a.complete))
    lock := none }

variable {t : Tools} {k : Conditions} {x : Answers} {s u v w : State} {pid : ℕ} {b : PrepareArgs t} {r : Prepared}
  {β : Type} {Q : Except String β → State → Prop}

/-! ## Steps without accidents -/

/-- A program ends as `Q` says when the surroundings answer as in `x`. -/
abbrev Ends (x : Answers) (p : Run β) (Q : Except String β → State → Prop) (s : State) : Prop :=
  Holds (disk x.conditions) (fun _ => True) p Q s

end PlatformConfig.MinorAlignment
