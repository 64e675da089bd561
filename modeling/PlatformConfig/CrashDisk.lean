import PlatformConfig.CrashProgram

/-!
# Programs on a disk

A program reads the whole state of its disk, asks its surroundings and performs writes. A
write is applied whole or refused; where the disk says so it can also fail without effect,
or be torn by a kill inside it.
-/
namespace PlatformConfig.CrashDisk

open CrashProgram Prog

/-- A disk with states `σ`, writes `W`, and questions `X` that its surroundings answer. -/
structure Disk (σ W X : Type) (Y : X → Type) where
  apply : W → σ → Option σ
  answers : (x : X) → σ → Y x → Prop
  fails : W → Prop
  torn : W → σ → σ → Prop

inductive Op (W X : Type)
  | look
  | ask (x : X)
  | write (w : W)

abbrev Reply (σ : Type) {W X : Type} (Y : X → Type) : Op W X → Type
  | .look => σ
  | .ask x => Y x
  | .write _ => Bool

variable {σ W X : Type} {Y : X → Type} {ε α β : Type}

/-- What one operation can do. -/
inductive Done (D : Disk σ W X Y) : (o : Op W X) → σ → Reply σ Y o → σ → Prop
  | look (s) : Done D .look s s s
  | ask {x s y} (answer : D.answers x s y) : Done D (.ask x) s y s
  | wrote {w s t} (applied : D.apply w s = some t) : Done D (.write w) s true t
  | refused {w s} (refused : D.apply w s = none ∨ D.fails w) : Done D (.write w) s false s

/-- What a kill inside an operation can leave. -/
inductive Cut (D : Disk σ W X Y) : Op W X → σ → σ → Prop
  | torn {w s t} (torn : D.torn w s t) : Cut D (.write w) s t

def Disk.semantics (D : Disk σ W X Y) : Semantics (Op W X) (Reply σ Y) σ := ⟨Done D, Cut D⟩

abbrev Program (σ W X : Type) (Y : X → Type) (ε α : Type) := Prog (Op W X) (Reply σ Y) ε α

def look : Program σ W X Y ε σ := .call .look .ret

def ask (x : X) : Program σ W X Y ε (Y x) := .call (.ask x) .ret

/-- A write whose refusal is the error `e`. -/
def write (w : W) (e : ε) : Program σ W X Y ε Unit :=
  .call (.write w) fun done => require done e

section Rules
variable {D : Disk σ W X Y} {I : σ → Prop} {s t : σ} {Q : Except ε β → σ → Prop}

/-- Every state of a program's run from `s` satisfies `I`, and the run ends as `Q` says. -/
abbrev Holds (D : Disk σ W X Y) (I : σ → Prop) (p : Program σ W X Y ε β)
    (Q : Except ε β → σ → Prop) (s : σ) : Prop :=
  wp D.semantics (fun _ _ t => I t) p Q s

theorem holds_look {f : σ → Program σ W X Y ε β} (here : I s) (rest : Holds D I (f s) Q s) :
    Holds D I (look.bind f) Q s := by
  change wp D.semantics _ (.call .look f) Q s
  refine ⟨fun u cut => (by cases cut), fun r u done => ?_⟩
  cases done
  exact ⟨here, rest⟩

theorem holds_ask {x : X} {f : Y x → Program σ W X Y ε β} (here : I s)
    (rest : ∀ y, D.answers x s y → Holds D I (f y) Q s) : Holds D I ((ask x).bind f) Q s := by
  change wp D.semantics _ (.call (.ask x) f) Q s
  refine ⟨fun u cut => (by cases cut), fun r u done => ?_⟩
  cases done with
  | ask answer => exact ⟨here, rest r answer⟩

/-- A write: torn, refused or applied. -/
theorem holds_write {w : W} {e : ε} {f : Unit → Program σ W X Y ε β}
    (torn : ∀ u, D.torn w s u → I u) (refused : D.apply w s = none ∨ D.fails w → I s ∧ Q (.error e) s)
    (applied : ∀ u, D.apply w s = some u → I u ∧ Holds D I (f ()) Q u) :
    Holds D I ((write w e).bind f) Q s := by
  change wp D.semantics _ (.call (.write w) fun done => (require done e).bind f) Q s
  refine ⟨fun u cut => ?_, fun r u done => ?_⟩
  · cases cut with
    | torn h => exact torn u h
  · cases done with
    | wrote h => exact applied u h
    | refused h => exact refused h

/-- A write that is known to be applied, on a disk without failures. -/
theorem holds_wrote {w : W} {e : ε} {f : Unit → Program σ W X Y ε β} (whole : ¬D.fails w)
    (torn : ∀ u, D.torn w s u → I u) (applied : D.apply w s = some t) (here : I t)
    (rest : Holds D I (f ()) Q t) : Holds D I ((write w e).bind f) Q s := by
  refine holds_write torn (fun refused => ?_) fun u h => ?_
  · rcases refused with none_ | fails
    · rw [applied] at none_
      cases none_
    · exact absurd fails whole
  · rw [applied] at h
    cases h
    exact ⟨here, rest⟩

theorem holds_check {b : Bool} {e : ε} {f : Unit → Program σ W X Y ε β}
    (refused : b = false → Q (.error e) s) (passed : b = true → Holds D I (f ()) Q s) :
    Holds D I ((require b e).bind f) Q s := by
  rw [bind_require]
  exact wp_check refused passed

theorem holds_checked {b : Bool} {e : ε} {f : Unit → Program σ W X Y ε β} (passed : b = true)
    (rest : Holds D I (f ()) Q s) : Holds D I ((require b e).bind f) Q s := by
  subst passed
  exact rest

end Rules

/-- How a program that changes nothing ends in the state `s`. -/
def Outcome (s : σ) (R : β → Prop) (F : Prop) : Except ε β → σ → Prop
  | .ok b, t => t = s ∧ R b
  | .error _, t => t = s ∧ F

/-- A program that changes nothing in the state `s`: its values satisfy `R`, and it fails only
where `F` holds. -/
def Reads (D : Disk σ W X Y) (s : σ) (p : Program σ W X Y ε β) (R : β → Prop) (F : Prop) : Prop :=
  wp D.semantics (fun _ t u => t = s ∧ u = s) p (Outcome s R F) s

section Reading
variable {D : Disk σ W X Y} {s : σ} {R : α → Prop} {R' : β → Prop} {F F' : Prop}

theorem Reads.mono {R' : α → Prop} {p : Program σ W X Y ε α} (h : Reads D s p R F)
    (value : ∀ a, R a → R' a) (fails : F → F') : Reads D s p R' F' := by
  refine wp_mono h (fun _ _ _ g => g) fun out t end_ => ?_
  cases out with
  | error e => exact ⟨end_.1, fails end_.2⟩
  | ok a => exact ⟨end_.1, value a end_.2⟩

theorem reads_ret {a : α} (h : R a) : Reads D s (.ret a : Program σ W X Y ε α) R F := ⟨rfl, h⟩

theorem reads_fail {e : ε} (h : F) : Reads D s (.fail e : Program σ W X Y ε α) R F := ⟨rfl, h⟩

theorem Reads.bind {p : Program σ W X Y ε α} {f : α → Program σ W X Y ε β} (h : Reads D s p R F)
    (fails : F → F') (rest : ∀ a, R a → Reads D s (f a) R' F') : Reads D s (p.bind f) R' F' := by
  refine wp_bind.mpr (wp_mono h (fun _ _ _ g => g) fun out t end_ => ?_)
  cases out with
  | error e => exact ⟨end_.1, fails end_.2⟩
  | ok a =>
    obtain ⟨rfl, value⟩ := end_
    exact rest a value

theorem reads_look {f : σ → Program σ W X Y ε β} (rest : Reads D s (f s) R' F) :
    Reads D s (look.bind f) R' F := by
  change wp D.semantics _ (.call .look f) _ s
  refine ⟨fun u cut => (by cases cut), fun r u done => ?_⟩
  cases done
  exact ⟨⟨rfl, rfl⟩, rest⟩

theorem reads_ask {x : X} {f : Y x → Program σ W X Y ε β}
    (rest : ∀ y, D.answers x s y → Reads D s (f y) R' F) : Reads D s ((ask x).bind f) R' F := by
  change wp D.semantics _ (.call (.ask x) f) _ s
  refine ⟨fun u cut => (by cases cut), fun r u done => ?_⟩
  cases done with
  | ask answer => exact ⟨⟨rfl, rfl⟩, rest r answer⟩

theorem reads_check {b : Bool} {e : ε} {f : Unit → Program σ W X Y ε β} (refused : b = false → F)
    (passed : b = true → Reads D s (f ()) R' F) : Reads D s ((require b e).bind f) R' F := by
  rw [bind_require]
  exact wp_check (fun h => ⟨rfl, refused h⟩) passed

theorem reads_require {b : Bool} {e : ε} (refused : b = false → F) :
    Reads D s (require b e : Program σ W X Y ε Unit) (fun _ => b = true) F := by
  cases b with
  | false => exact reads_fail (refused rfl)
  | true => exact reads_ret rfl

/-- A program that changes nothing, in front of another one. -/
theorem wp_reads {G : Op W X → σ → σ → Prop} {p : Program σ W X Y ε α}
    {f : α → Program σ W X Y ε β} {Q : Except ε β → σ → Prop} (still : ∀ o, G o s s)
    (h : Reads D s p R F) (failed : ∀ e, F → Q (.error e) s)
    (rest : ∀ a, R a → wp D.semantics G (f a) Q s) : wp D.semantics G (p.bind f) Q s := by
  refine wp_bind.mpr (wp_mono h ?_ fun out t end_ => ?_)
  · rintro o t u ⟨rfl, rfl⟩
    exact still o
  · cases out with
    | error e =>
      obtain ⟨rfl, fails⟩ := end_
      exact failed e fails
    | ok a =>
      obtain ⟨rfl, value⟩ := end_
      exact rest a value

end Reading

/-- A run of one disk is a run of another one with more answers and more failures. -/
theorem exec_mono {D E : Disk σ W X Y} (apply : E.apply = D.apply)
    (answers : ∀ x s y, D.answers x s y → E.answers x s y) (fails : ∀ w, D.fails w → E.fails w)
    {p : Program σ W X Y ε α} {s t : σ} {out : Except ε α} (run : Exec D.semantics p s out t) :
    Exec E.semantics p s out t := by
  induction run with
  | ret a s => exact .ret a s
  | fail e s => exact .fail e s
  | call step _ ih =>
    refine .call (M := E.semantics) ?_ ih
    cases step with
    | look => exact Done.look _
    | ask answer => exact Done.ask (answers _ _ _ answer)
    | wrote applied => exact Done.wrote (by rwa [apply])
    | refused refused => exact Done.refused (by rw [apply]; exact refused.imp_right (fails _))

theorem exec_wrote {D : Disk σ W X Y} {w : W} {e : ε} {s t : σ} (applied : D.apply w s = some t) :
    Exec D.semantics (write w e) s (.ok ()) t :=
  .call (.wrote applied) (.ret () t)

theorem exec_refused {D : Disk σ W X Y} {w : W} {e : ε} {s : σ}
    (refused : D.apply w s = none ∨ D.fails w) : Exec D.semantics (write w e) s (.error e) s :=
  .call (.refused refused) (.fail e s)

/-- Where every question has an answer, every program can run to its end. -/
theorem exec_exists {D : Disk σ W X Y} (answered : ∀ x s, ∃ y, D.answers x s y)
    (p : Program σ W X Y ε α) (s : σ) : ∃ out t, Exec D.semantics p s out t := by
  induction p generalizing s with
  | ret a => exact ⟨_, _, .ret a s⟩
  | fail e => exact ⟨_, _, .fail e s⟩
  | call o k ih =>
    have step : ∃ r t, Done D o s r t := by
      cases o with
      | look => exact ⟨s, s, .look s⟩
      | ask x =>
        obtain ⟨y, answer⟩ := answered x s
        exact ⟨y, s, .ask answer⟩
      | write w =>
        cases applied : D.apply w s with
        | none => exact ⟨false, s, .refused (.inl applied)⟩
        | some t => exact ⟨true, t, .wrote applied⟩
    obtain ⟨r, t, done⟩ := step
    obtain ⟨out, u, rest⟩ := ih r t
    exact ⟨out, u, .call done rest⟩

/-- The disk on which a question has the answer of `answer` and no write fails. -/
def Disk.answering (D : Disk σ W X Y) (answer : (x : X) → σ → Y x) :
    (o : Op W X) → σ → Reply σ Y o × σ
  | .look, s => (s, s)
  | .ask x, s => (answer x s, s)
  | .write w, s => ((D.apply w s).isSome, (D.apply w s).getD s)

theorem answering_done {D : Disk σ W X Y} {answer : (x : X) → σ → Y x} {o : Op W X} {s : σ}
    (answers : ∀ x, o = .ask x → D.answers x s (answer x s)) :
    Done D o s (D.answering answer o s).1 (D.answering answer o s).2 := by
  cases o with
  | look => exact .look s
  | ask x => exact .ask (answers x rfl)
  | write w =>
    cases applied : D.apply w s with
    | none =>
      simp only [Disk.answering, applied]
      exact .refused (.inl applied)
    | some t =>
      simp only [Disk.answering, applied]
      exact .wrote applied

theorem answering_within {D : Disk σ W X Y} {answer : (x : X) → σ → Y x}
    (answers : ∀ x s, D.answers x s (answer x s)) : Within (D.answering answer) D.semantics :=
  fun _ s => answering_done fun x _ => answers x s

end PlatformConfig.CrashDisk
