import PlatformConfig.CrashProgram

/-!
# Interleaved processes under one lock

Processes act outside a lock on a side state and run whole programs on the store
while they hold the lock. Any process can be killed at any point, which frees the
lock. A history records each completed operation and each answered section.
-/
namespace PlatformConfig.CrashLock

open CrashProgram

/-- A process: actions outside the lock and sections named `ω` that hold it. -/
inductive Process (ω Op : Type) (Reply : Op → Type) (ε α Out : Type) (Answer : Out → Type)
  | stop
  | outside (o : Out) (next : Answer o → Process ω Op Reply ε α Out Answer)
  | locked (who : ω) (body : Prog Op Reply ε α) (next : α → Process ω Op Reply ε α Out Answer)

variable {ω Op : Type} {Reply : Op → Type} {ε α Out : Type} {Answer : Out → Type} {σ τ : Type}

/-- Every section of a process, after any answers, satisfies `P`. -/
def Process.Sections (P : ω → Prog Op Reply ε α → Prop) :
    Process ω Op Reply ε α Out Answer → Prop
  | .stop => True
  | .outside _ next => ∀ a, (next a).Sections P
  | .locked who body next => P who body ∧ ∀ a, (next a).Sections P

/-- What the history records: a completed operation, or the answer of a section. -/
inductive Event (ω Op : Type) (Reply : Op → Type) (α : Type)
  | did (who : ω) (o : Op) (r : Reply o)
  | answered (who : ω) (a : α)

/-- The answered sections of a history. -/
def answers : List (Event ω Op Reply α) → List (ω × α)
  | [] => []
  | .did _ _ _ :: l => answers l
  | .answered who a :: l => (who, a) :: answers l

/-- Each event satisfies `P` together with the events before it. -/
def Always (P : Event ω Op Reply α → List (Event ω Op Reply α) → Prop) :
    List (Event ω Op Reply α) → Prop
  | [] => True
  | e :: l => P e l ∧ Always P l

theorem always_iff {P : Event ω Op Reply α → List (Event ω Op Reply α) → Prop}
    {l : List (Event ω Op Reply α)} :
    Always P l ↔ ∀ newer e older, l = newer ++ e :: older → P e older := by
  induction l with
  | nil => simp [Always]
  | cons e l ih =>
    rw [Always, ih]
    constructor
    · rintro ⟨here, earlier⟩ (_ | ⟨n, newer⟩) e' older heq
      · obtain ⟨rfl, rfl⟩ := List.cons.inj heq
        exact here
      · exact earlier newer e' older (List.cons.inj heq).2
    · intro h
      exact ⟨h [] e l rfl, fun newer e' older heq => h (e :: newer) e' older (by rw [heq]; rfl)⟩

/-- The operations of section `who`, recorded in a history, newest first. -/
def logged (who : ω) (M : Semantics Op Reply σ) :
    Semantics Op Reply (σ × List (Event ω Op Reply α)) where
  done o p r p' := M.done o p.1 r p'.1 ∧ p'.2 = .did who o r :: p.2
  cut o p p' := M.cut o p.1 p'.1 ∧ p'.2 = p.2

/-- One recorded deterministic operation followed by the rest of a section. -/
theorem wp_logged {who : ω} {h : (o : Op) → σ → Reply o × σ} {cut : Op → σ → σ → Prop}
    {G : Op → σ × List (Event ω Op Reply α) → σ × List (Event ω Op Reply α) → Prop} {β : Type}
    {o : Op} {k : Reply o → Prog Op Reply ε β}
    {Q : Except ε β → σ × List (Event ω Op Reply α) → Prop}
    {s : σ} {l : List (Event ω Op Reply α)} :
    wp (logged who (interruptible h cut)) G (.call o k) Q (s, l) ↔
      (∀ s', cut o s s' → G o (s, l) (s', l)) ∧
      G o (s, l) ((h o s).2, .did who o (h o s).1 :: l) ∧
      wp (logged who (interruptible h cut)) G (k (h o s).1) Q
        ((h o s).2, .did who o (h o s).1 :: l) := by
  constructor
  · rintro ⟨hcut, hdone⟩
    exact ⟨fun s' hc => hcut (s', l) ⟨hc, rfl⟩, hdone _ (_, _) ⟨rfl, rfl⟩⟩
  · rintro ⟨hcut, hstep, hrest⟩
    refine ⟨?_, ?_⟩
    · rintro ⟨s', l'⟩ ⟨hc, rfl⟩
      exact hcut s' hc
    · rintro r ⟨s', l'⟩ ⟨hd, hl⟩
      have answer : h o s = (r, s') := hd
      rw [answer] at hstep hrest
      subst hl
      exact ⟨hstep, hrest⟩

/-- A section records its operations only, so the answers given before it stay the same. -/
theorem wp_answers {who : ω} {M : Semantics Op Reply σ} {β : Type}
    {G : Op → σ × List (Event ω Op Reply α) → σ × List (Event ω Op Reply α) → Prop}
    {p : Prog Op Reply ε β} {Q : Except ε β → σ × List (Event ω Op Reply α) → Prop}
    {s : σ × List (Event ω Op Reply α)} (h : wp (logged who M) G p Q s) :
    wp (logged who M) G p (fun out t => Q out t ∧ answers t.2 = answers s.2) s := by
  induction p generalizing s with
  | ret a => exact ⟨h, rfl⟩
  | fail e => exact ⟨h, rfl⟩
  | call o k ih =>
    refine ⟨h.1, fun r t hd => ⟨(h.2 r t hd).1, ?_⟩⟩
    refine wp_mono (ih r (h.2 r t hd).2) (fun _ _ _ hg => hg) fun out u hu => ⟨hu.1, ?_⟩
    rw [hu.2, hd.2]
    rfl

/-- The section that holds the lock: its name, what it still does and what follows. -/
structure Holder (ω Op : Type) (Reply : Op → Type) (ε α Out : Type) (Answer : Out → Type) where
  who : ω
  body : Prog Op Reply ε α
  next : α → Process ω Op Reply ε α Out Answer

structure Config (ω Op : Type) (Reply : Op → Type) (ε α Out : Type) (Answer : Out → Type)
    (σ τ : Type) where
  store : σ
  history : List (Event ω Op Reply α)
  side : τ
  holder : Option (Holder ω Op Reply ε α Out Answer)
  waiting : List (Process ω Op Reply ε α Out Answer)

/-- The operations of a system: on the store under the lock, on the side state outside it. -/
structure System (ω Op : Type) (Reply : Op → Type) (ε α Out : Type) (Answer : Out → Type)
    (σ τ : Type) where
  inside : Semantics Op Reply σ
  aside : (o : Out) → σ → τ → Answer o → τ → Prop
  start : Process ω Op Reply ε α Out Answer → Prop

inductive Step (S : System ω Op Reply ε α Out Answer σ τ) (permit : ω → σ → Prop) :
    Config ω Op Reply ε α Out Answer σ τ → Config ω Op Reply ε α Out Answer σ τ → Prop
  | spawn {c p} (start : S.start p) : Step S permit c { c with waiting := p :: c.waiting }
  | outside {c l o next r a t} (at_ : c.waiting = l ++ .outside o next :: r)
      (acts : S.aside o c.store c.side a t) :
      Step S permit c { c with side := t, waiting := l ++ next a :: r }
  | enter {c l who body next r} (free : c.holder = none)
      (at_ : c.waiting = l ++ .locked who body next :: r) (permitted : permit who c.store) :
      Step S permit c { c with holder := some ⟨who, body, next⟩, waiting := l ++ r }
  | op {c who o k next r s} (at_ : c.holder = some ⟨who, .call o k, next⟩)
      (done : S.inside.done o c.store r s) :
      Step S permit c { c with
        store := s, history := .did who o r :: c.history, holder := some ⟨who, k r, next⟩ }
  | leave {c who a next} (at_ : c.holder = some ⟨who, .ret a, next⟩) :
      Step S permit c { c with
        history := .answered who a :: c.history, holder := none, waiting := next a :: c.waiting }
  | raise {c who e next} (at_ : c.holder = some ⟨who, .fail e, next⟩) :
      Step S permit c { c with holder := none }
  | kill {c h} (at_ : c.holder = some h) : Step S permit c { c with holder := none }
  | cut {c who o k next s} (at_ : c.holder = some ⟨who, .call o k, next⟩)
      (cut : S.inside.cut o c.store s) :
      Step S permit c { c with store := s, holder := none }
  | abandon {c l p r} (at_ : c.waiting = l ++ p :: r) :
      Step S permit c { c with waiting := l ++ r }

/-- The configurations reached from an idle one, entering only permitted sections. -/
inductive Reach (S : System ω Op Reply ε α Out Answer σ τ) (permit : ω → σ → Prop) (s : σ) (t : τ) :
    Config ω Op Reply ε α Out Answer σ τ → Prop
  | idle : Reach S permit s t ⟨s, [], t, none, []⟩
  | step {c d} (prior : Reach S permit s t c) (step : Step S permit c d) : Reach S permit s t d

/-- What a section must end with to restore an invariant of store and history. -/
def Ends (I : σ → List (Event ω Op Reply α) → Prop) (who : ω) :
    Except ε α → σ × List (Event ω Op Reply α) → Prop
  | .ok a, p => I p.1 (.answered who a :: p.2)
  | .error _, p => I p.1 p.2

variable {S : System ω Op Reply ε α Out Answer σ τ} {permit : ω → σ → Prop}

/-- A section that keeps the invariant at each operation and restores it with its answer. -/
def Safe (S : System ω Op Reply ε α Out Answer σ τ) (permit : ω → σ → Prop)
    (I : σ → List (Event ω Op Reply α) → Prop) (who : ω) (body : Prog Op Reply ε α) : Prop :=
  ∀ s l, I s l → permit who s →
    wp (logged who S.inside) (fun _ _ p => I p.1 p.2) body (Ends I who) (s, l)

/-- The invariant, with what the holder still has to do and what the others may start. -/
structure Sound (S : System ω Op Reply ε α Out Answer σ τ) (permit : ω → σ → Prop)
    (I : σ → List (Event ω Op Reply α) → Prop)
    (c : Config ω Op Reply ε α Out Answer σ τ) : Prop where
  holds : I c.store c.history
  waiting : ∀ p ∈ c.waiting, p.Sections (Safe S permit I)
  holder : ∀ h ∈ c.holder, wp (logged h.who S.inside) (fun _ _ p => I p.1 p.2) h.body
    (Ends I h.who) (c.store, c.history) ∧ ∀ a, (h.next a).Sections (Safe S permit I)

theorem Sound.step {I : σ → List (Event ω Op Reply α) → Prop}
    {c d : Config ω Op Reply ε α Out Answer σ τ}
    (start : ∀ p, S.start p → p.Sections (Safe S permit I))
    (hc : Sound S permit I c) (hstep : Step S permit c d) : Sound S permit I d := by
  obtain ⟨holds, waiting, holder⟩ := hc
  cases hstep with
  | spawn hp =>
    refine ⟨holds, ?_, holder⟩
    rintro q (_ | ⟨_, hq⟩)
    · exact start _ hp
    · exact waiting _ hq
  | @outside l o next r a t at_ acts =>
    refine ⟨holds, fun q hq => ?_, holder⟩
    have old : ∀ a, (next a).Sections (Safe S permit I) := waiting (.outside o next) (by simp [at_])
    rw [List.mem_append, List.mem_cons] at hq
    rcases hq with left | rfl | right
    · exact waiting q (by simp [at_, left])
    · exact old a
    · exact waiting q (by simp [at_, right])
  | @enter l who body next r free at_ permitted =>
    have old := waiting (.locked who body next) (by simp [at_])
    refine ⟨holds, fun q hq => waiting q ?_, ?_⟩
    · rw [at_]
      rcases List.mem_append.mp hq with left | right <;> simp [*]
    · rintro h ⟨⟩
      exact ⟨old.1 _ _ holds permitted, old.2⟩
  | op at_ done =>
    obtain ⟨hwp, hnext⟩ := holder _ at_
    obtain ⟨hI, hrest⟩ := hwp.2 _ (_, _) ⟨done, rfl⟩
    refine ⟨hI, waiting, ?_⟩
    rintro h ⟨⟩
    exact ⟨hrest, hnext⟩
  | @leave who a next at_ =>
    obtain ⟨hwp, hnext⟩ := holder _ at_
    refine ⟨hwp, ?_, by simp⟩
    rintro q (_ | ⟨_, hq⟩)
    · exact hnext a
    · exact waiting _ hq
  | raise at_ => exact ⟨holds, waiting, by simp⟩
  | kill at_ => exact ⟨holds, waiting, by simp⟩
  | cut at_ cut =>
    obtain ⟨hwp, -⟩ := holder _ at_
    exact ⟨hwp.1 (_, _) ⟨cut, rfl⟩, waiting, by simp⟩
  | @abandon l p r at_ =>
    refine ⟨holds, fun q hq => waiting q ?_, holder⟩
    rw [at_]
    rcases List.mem_append.mp hq with left | right <;> simp [*]

/-- Sections that are safe one at a time are safe in every interleaving with kills. -/
theorem Reach.invariant {I : σ → List (Event ω Op Reply α) → Prop} {s : σ} {t : τ}
    {c : Config ω Op Reply ε α Out Answer σ τ}
    (start : ∀ p, S.start p → p.Sections (Safe S permit I)) (initial : I s [])
    (reach : Reach S permit s t c) : I c.store c.history := by
  suffices Sound S permit I c from this.holds
  induction reach with
  | idle => exact ⟨initial, by simp, by simp⟩
  | step _ hstep ih => exact ih.step start hstep

section Guarantees
variable {I : σ → Prop} {R : σ → σ → Prop}

/-- From the store `s` on, whatever steps of `R` the others take, the sections of a process take
steps of `R` only and keep `I`. -/
def Process.Guards (S : System ω Op Reply ε α Out Answer σ τ) (permit : ω → σ → Prop) (I : σ → Prop)
    (R : σ → σ → Prop) : Process ω Op Reply ε α Out Answer → σ → Prop
  | .stop, _ => True
  | .outside o next, s => ∀ u x a y, R s u → I u → S.aside o u x a y → (next a).Guards S permit I R u
  | .locked who body next, s => ∀ u, R s u → I u → permit who u →
      wp S.inside (fun _ s t => R s t ∧ I t) body
        (fun out t => ∀ a, out = .ok a → (next a).Guards S permit I R t) u

/-- Programs outside the lock, operation by operation. -/
def Process.unlocked {ε' β : Type} (next : β → Process ω Op Reply ε α Out Answer) :
    Prog Out Answer ε' β → Process ω Op Reply ε α Out Answer
  | .ret b => next b
  | .fail _ => .stop
  | .call o k => .outside o fun a => unlocked next (k a)

/-- Operations outside the lock, each on a store that the others have led to. -/
def watching (S : System ω Op Reply ε α Out Answer σ τ) (I : σ → Prop) (R : σ → σ → Prop) :
    Semantics Out Answer σ where
  done o s a t := R s t ∧ I t ∧ ∃ x y, S.aside o t x a y
  cut _ _ _ := False

theorem guards_unlocked {ε' β : Type} {next : β → Process ω Op Reply ε α Out Answer}
    {p : Prog Out Answer ε' β} {s : σ} (h : wp (watching S I R) (fun _ _ _ => True) p
      (fun out t => ∀ b, out = .ok b → (next b).Guards S permit I R t) s) :
    (Process.unlocked next p).Guards S permit I R s := by
  induction p generalizing s with
  | ret b => exact h b rfl
  | fail e => exact trivial
  | call o k ih => exact fun u x a y later here acts => ih a (h.2 a u ⟨later, here, x, y, acts⟩).2

theorem Process.Guards.mono (trans : ∀ {s t u}, R s t → R t u → R s u)
    {p : Process ω Op Reply ε α Out Answer} {s t : σ} (h : p.Guards S permit I R s) (later : R s t) :
    p.Guards S permit I R t := by
  cases p with
  | stop => exact trivial
  | outside o next => exact fun u x a y rel => h u x a y (trans later rel)
  | locked who body next => exact fun u rel => h u (trans later rel)

/-- Everything in a configuration keeps to the guarantee. -/
structure Guarded (S : System ω Op Reply ε α Out Answer σ τ) (permit : ω → σ → Prop) (I : σ → Prop)
    (R : σ → σ → Prop) (c : Config ω Op Reply ε α Out Answer σ τ) : Prop where
  holds : I c.store
  waiting : ∀ p ∈ c.waiting, p.Guards S permit I R c.store
  holder : ∀ h ∈ c.holder, wp S.inside (fun _ s t => R s t ∧ I t) h.body
    (fun out t => ∀ a, out = .ok a → (h.next a).Guards S permit I R t) c.store

variable (refl : ∀ s, R s s) (trans : ∀ {s t u}, R s t → R t u → R s u)
  (start : ∀ p s, S.start p → p.Guards S permit I R s)
include refl trans start

theorem Guarded.step {c d : Config ω Op Reply ε α Out Answer σ τ} (hc : Guarded S permit I R c)
    (step : Step S permit c d) : Guarded S permit I R d ∧ R c.store d.store := by
  obtain ⟨holds, waiting, holder⟩ := hc
  -- a process that waits behind the step has waited before it
  have others {l r : List (Process ω Op Reply ε α Out Answer)} {p : Process ω Op Reply ε α Out Answer}
      (at_ : c.waiting = l ++ p :: r) {q : Process ω Op Reply ε α Out Answer} (member : q ∈ l ++ r) :
      q.Guards S permit I R c.store := by
    refine waiting q ?_
    rw [at_]
    rcases List.mem_append.mp member with left | right <;> simp [*]
  cases step with
  | spawn started =>
    refine ⟨⟨holds, fun q member => ?_, holder⟩, refl _⟩
    rcases List.mem_cons.mp member with rfl | old
    · exact start _ _ started
    · exact waiting _ old
  | @outside l o next r a t at_ acts =>
    have old := waiting (.outside o next) (by simp [at_])
    refine ⟨⟨holds, fun q member => ?_, holder⟩, refl _⟩
    rw [List.mem_append, List.mem_cons] at member
    rcases member with left | rfl | right
    · exact others at_ (List.mem_append_left r left)
    · exact old _ _ _ _ (refl _) holds acts
    · exact others at_ (List.mem_append_right l right)
  | @enter l who body next r free at_ permitted =>
    have old := waiting (.locked who body next) (by simp [at_])
    refine ⟨⟨holds, fun q member => others at_ member, fun h same => ?_⟩, refl _⟩
    cases same
    exact old _ (refl _) holds permitted
  | op at_ done =>
    obtain ⟨⟨kept, here⟩, rest⟩ := (holder _ at_).2 _ _ done
    refine ⟨⟨here, fun q member => Process.Guards.mono (R := R) trans (waiting q member) kept, fun h same => ?_⟩, kept⟩
    cases same
    exact rest
  | @leave who a next at_ =>
    refine ⟨⟨holds, fun q member => ?_, by simp⟩, refl _⟩
    rcases List.mem_cons.mp member with rfl | old
    · exact holder _ at_ a rfl
    · exact waiting _ old
  | raise at_ => exact ⟨⟨holds, waiting, by simp⟩, refl _⟩
  | kill at_ => exact ⟨⟨holds, waiting, by simp⟩, refl _⟩
  | cut at_ cut =>
    obtain ⟨kept, here⟩ := (holder _ at_).1 _ cut
    exact ⟨⟨here, fun q member => Process.Guards.mono (R := R) trans (waiting q member) kept, by simp⟩, kept⟩
  | abandon at_ => exact ⟨⟨holds, fun q member => others at_ member, holder⟩, refl _⟩

theorem Reach.guarded {s : σ} {t : τ} {c : Config ω Op Reply ε α Out Answer σ τ} (initial : I s)
    (reach : Reach S permit s t c) : Guarded S permit I R c := by
  induction reach with
  | idle => exact ⟨initial, by simp, by simp⟩
  | step _ step ih => exact (ih.step refl trans start step).1

/-- What the sections guarantee holds between any two moments of a run. -/
theorem Reach.related {s : σ} {t : τ} {c d : Config ω Op Reply ε α Out Answer σ τ} (initial : I s)
    (reach : Reach S permit s t c) (later : Relation.ReflTransGen (Step S permit) c d) :
    R c.store d.store ∧ I d.store := by
  have here := reach.guarded refl trans start initial
  suffices Guarded S permit I R d ∧ R c.store d.store from ⟨this.2, this.1.holds⟩
  induction later with
  | refl => exact ⟨here, refl _⟩
  | tail _ step ih =>
    obtain ⟨next, related⟩ := ih.1.step refl trans start step
    exact ⟨next, trans ih.2 related⟩

end Guarantees

section Alone
variable {h : (o : Op) → σ → Reply o × σ} {g : (o : Out) → τ → Answer o × τ}

/-- A handler that records its operations. -/
def recording (who : ω) (h : (o : Op) → σ → Reply o × σ) (o : Op)
    (p : σ × List (Event ω Op Reply α)) : Reply o × (σ × List (Event ω Op Reply α)) :=
  ((h o p.1).1, (h o p.1).2, .did who o (h o p.1).1 :: p.2)

/-- The store, the history and the side state after a process ran alone to its end. -/
def alone (h : (o : Op) → σ → Reply o × σ) (g : (o : Out) → τ → Answer o × τ) :
    Process ω Op Reply ε α Out Answer → σ × List (Event ω Op Reply α) → τ →
      (σ × List (Event ω Op Reply α)) × τ
  | .stop, p, t => (p, t)
  | .outside o next, p, t => alone h g (next (g o t).1) p (g o t).2
  | .locked who body next, p, t =>
    match run (recording who h) body p with
    | (.ok a, p') => alone h g (next a) (p'.1, .answered who a :: p'.2) t
    | (.error _, p') => (p', t)

theorem Reach.body {s : σ} {t : τ} {c : Config ω Op Reply ε α Out Answer σ τ} {who : ω}
    {body : Prog Op Reply ε α} {next : α → Process ω Op Reply ε α Out Answer}
    (inside : ∀ o s, S.inside.done o s (h o s).1 (h o s).2) (reach : Reach S permit s t c)
    (held : c.holder = some ⟨who, body, next⟩) :
    match run (recording who h) body (c.store, c.history) with
    | (.ok a, p) => Reach S permit s t { c with
        store := p.1, history := .answered who a :: p.2, holder := none,
        waiting := next a :: c.waiting }
    | (.error _, p) => Reach S permit s t { c with
        store := p.1, history := p.2, holder := none } := by
  induction body generalizing c with
  | ret a => exact reach.step (.leave held)
  | fail e => exact reach.step (.raise held)
  | call o k ih => exact ih _ (reach.step (.op held (inside o c.store))) rfl

/-- A process that waits at the head of an idle configuration can run alone to its end. -/
theorem Reach.alone {s : σ} {t : τ} {c : Config ω Op Reply ε α Out Answer σ τ}
    {p : Process ω Op Reply ε α Out Answer} {rest : List (Process ω Op Reply ε α Out Answer)}
    (inside : ∀ o s, S.inside.done o s (h o s).1 (h o s).2)
    (aside : ∀ o s t, S.aside o s t (g o t).1 (g o t).2) (permitted : ∀ who s, permit who s)
    (reach : Reach S permit s t c) (free : c.holder = none) (at_ : c.waiting = p :: rest) :
    Reach S permit s t ⟨(alone h g p (c.store, c.history) c.side).1.1,
      (alone h g p (c.store, c.history) c.side).1.2,
      (alone h g p (c.store, c.history) c.side).2, none, rest⟩ := by
  induction p generalizing c with
  | stop =>
    have ended := reach.step (.abandon (l := []) at_)
    rwa [List.nil_append, free] at ended
  | outside o next ih =>
    exact ih _ (reach.step (.outside (l := []) at_ (aside o c.store c.side))) free rfl
  | locked who body next ih =>
    have entered := reach.step (.enter (l := []) free at_ (permitted who c.store))
    have ran := entered.body inside rfl
    simp only [CrashLock.alone]
    rcases hr : run (recording who h) body (c.store, c.history) with ⟨e | a, p⟩
    · rwa [hr] at ran
    · rw [hr] at ran
      exact ih a ran rfl rfl

end Alone

end PlatformConfig.CrashLock
