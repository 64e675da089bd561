import PlatformConfig.CrashDisk

/-!
# Programs on a part of a disk

Two disks side by side, and a program that runs another one on the first of them: what is known of the
other program holds here as well, and the second disk stays as it is. A disk with fewer answers is such
a part as well.
-/
namespace PlatformConfig.CrashParts

open CrashProgram CrashDisk Prog

variable {σ τ W V X Z : Type} {Y : X → Type} {T : Z → Type} {ε ε' α β : Type}

/-- What holds of a program on one disk holds on another one with fewer answers and fewer failures. -/
theorem wp_narrow {D E : Disk σ W X Y} {G : Op W X → σ → σ → Prop} {p : Program σ W X Y ε α}
    {Q : Except ε α → σ → Prop} {s : σ} (apply : E.apply = D.apply)
    (answers : ∀ x s y, E.answers x s y → D.answers x s y) (fails : ∀ w, E.fails w → D.fails w)
    (torn : ∀ w s t, E.torn w s t → D.torn w s t) (h : wp D.semantics G p Q s) :
    wp E.semantics G p Q s := by
  induction p generalizing s with
  | ret a => exact h
  | fail e => exact h
  | call o next ih =>
    refine ⟨fun t cut => h.1 t ?_, fun r t step => ?_⟩
    · cases cut with
      | torn torn_ => exact .torn (torn _ _ _ torn_)
    have step' : Done D o s r t := by
      cases step with
      | look => exact .look _
      | ask answer => exact .ask (answers _ _ _ answer)
      | wrote applied => exact .wrote (apply ▸ applied)
      | refused refused => exact .refused (refused.imp (apply ▸ ·) (fails _))
    exact ⟨(h.2 r t step').1, ih r (h.2 r t step').2⟩

/-- A write that applies is refused only where it fails. -/
theorem fails_of_refused {D : Disk σ W X Y} {w : W} {s t : σ} (applied : D.apply w s = some t)
    (refused : D.apply w s = none ∨ D.fails w) : D.fails w := by
  refine refused.resolve_left fun none_ => ?_
  rw [applied] at none_
  cases none_

/-- Two disks side by side. -/
def beside (D : Disk σ W X Y) (E : Disk τ V Z T) : Disk (σ × τ) (W ⊕ V) (X ⊕ Z) (Sum.elim Y T) where
  apply
    | .inl w, s => (D.apply w s.1).map (·, s.2)
    | .inr v, s => (E.apply v s.2).map (s.1, ·)
  answers
    | .inl x, s, y => D.answers x s.1 y
    | .inr z, s, y => E.answers z s.2 y
  fails
    | .inl w => D.fails w
    | .inr v => E.fails v
  torn
    | .inl w, s, t => D.torn w s.1 t.1 ∧ t.2 = s.2
    | .inr v, s, t => E.torn v s.2 t.2 ∧ t.1 = s.1

/-- A program on the first of two disks, whose errors have other names there. -/
def first (name : ε → ε') :
    Program σ W X Y ε α → Program (σ × τ) (W ⊕ V) (X ⊕ Z) (Sum.elim Y T) ε' α
  | .ret a => .ret a
  | .fail e => .fail (name e)
  | .call .look next => .call .look fun s => first name (next s.1)
  | .call (.ask x) next => .call (.ask (.inl x)) fun y => first name (next y)
  | .call (.write w) next => .call (.write (.inl w)) fun done => first name (next done)

variable {D : Disk σ W X Y} {E : Disk τ V Z T} {s : σ} {r : τ} {name : ε → ε'} {P : Except ε α → σ → Prop}
  {Q : Except ε' β → σ × τ → Prop} {G : Op W X → σ → σ → Prop} {J : Op (W ⊕ V) (X ⊕ Z) → σ × τ → σ × τ → Prop}

/-- A program on the first disk, and what follows it. -/
theorem wp_first {p : Program σ W X Y ε α}
    {f : α → Program (σ × τ) (W ⊕ V) (X ⊕ Z) (Sum.elim Y T) ε' β}
    (inside : ∀ o o' t u, G o t u → J o' (t, r) (u, r)) (h : wp D.semantics G p P s)
    (failed : ∀ e t, P (.error e) t → Q (.error (name e)) (t, r))
    (rest : ∀ a t, P (.ok a) t → wp (beside D E).semantics J (f a) Q (t, r)) :
    wp (beside D E).semantics J ((first name p).bind f) Q (s, r) := by
  induction p generalizing s with
  | ret a => exact rest a s h
  | fail e => exact failed e s h
  | call o next ih =>
    cases o with
    | look =>
      obtain ⟨here, later⟩ := h.2 _ _ (Done.look s)
      refine ⟨fun u cut => (by cases cut), fun y u done => ?_⟩
      cases done
      exact ⟨inside _ _ _ _ here, ih _ later⟩
    | ask x =>
      refine ⟨fun u cut => (by cases cut), fun y u done => ?_⟩
      cases done with
      | ask answer =>
        obtain ⟨here, later⟩ := h.2 _ _ (Done.ask answer)
        exact ⟨inside _ _ _ _ here, ih _ later⟩
    | write w =>
      refine ⟨fun u cut => ?_, fun done u step => ?_⟩
      · cases cut with
        | torn torn =>
          obtain ⟨inner, same⟩ := torn
          obtain ⟨t, q⟩ := u
          obtain rfl : q = r := same
          exact inside _ _ _ _ (h.1 t (.torn inner))
      · cases step with
        | wrote applied =>
          obtain ⟨t, inner, rfl⟩ := Option.map_eq_some_iff.mp applied
          obtain ⟨here, later⟩ := h.2 _ _ (Done.wrote inner)
          exact ⟨inside _ _ _ _ here, ih _ later⟩
        | refused refused =>
          have none_ : D.apply w s = none ∨ D.fails w := refused.imp_left Option.map_eq_none_iff.mp
          obtain ⟨here, later⟩ := h.2 _ _ (Done.refused none_)
          exact ⟨inside _ _ _ _ here, ih _ later⟩

/-- A program on the first disk that changes nothing. -/
theorem reads_first {p : Program σ W X Y ε α} {R : α → Prop} {F : Prop} (h : Reads D s p R F) :
    Reads (beside D E) (s, r) (first name p) R F := by
  rw [← bind_ret_right (first name p)]
  refine wp_first (fun _ _ t u same => ?_) h (fun e t fails => ?_) fun a t read => ?_
  · rw [same.1, same.2]
    exact ⟨rfl, rfl⟩
  · exact ⟨by rw [fails.1], fails.2⟩
  · exact ⟨by rw [read.1], read.2⟩

end PlatformConfig.CrashParts
