import PlatformConfig.TrustInstall

/-!
# Recovery of a trust installation

Every state that killed installations of one prepared ingress can leave is of one of six
shapes. From five of them the next installation succeeds; in the sixth the journal is left
without its stage, and every later installation is refused.
-/
namespace PlatformConfig.TrustRecovery

open GuardPlan CrashProgram CrashDisk TrustTree TrustInstall Prog

variable {sha256 : Data → String} {a : Args} {s : State}

section Lookup
variable {α : Type} {β : α → Type} [DecidableEq α]

theorem lookup_insert {x y : α} {b : β x} {l : AList β} (differs : y ≠ x) :
    (l.insert x b).lookup y = l.lookup y := AList.lookup_insert_ne differs

theorem entries_all {l : AList β} {P : Sigma β → Bool} :
    l.entries.all P = true ↔ ∀ x b, l.lookup x = some b → P ⟨x, b⟩ = true := by
  rw [List.all_eq_true]
  exact ⟨fun h x b found => h _ (AList.mem_lookup_iff.mp found),
    fun h e member => h e.1 e.2 (AList.mem_lookup_iff.mpr member)⟩

end Lookup

/-- A directory holds exactly the reviewed files. -/
def Valid (sha256 : Data → String) (a : Args) (d : Dir) : Prop :=
  (validateTree sha256 a d.files).isSome = true

/-- The trust root holds exactly the given names. -/
def Entries (s : State) (names : List Entry) : Prop := ∀ e, e ∈ s.trust ↔ e ∈ names

theorem entriesAre_iff {names : List Entry} : s.entriesAre names = true ↔ Entries s names := by
  simp only [State.entriesAre, Bool.and_eq_true, decide_eq_true_eq, Entries, AList.mem_keys]
  exact ⟨fun h e => ⟨h.1 e, h.2 e⟩, fun h => ⟨fun e => (h e).mp, fun e => (h e).mpr⟩⟩

/-- A reviewed ingress stands alone, before anything was staged. -/
structure Prepared (sha256 : Data → String) (a : Args) (i : Dir) (s : State) : Prop where
  others : s.others = []
  journal : s.journal = none
  entries : Entries s [.ingress]
  ingress : s.trust.lookup .ingress = some i
  reviewed : Valid sha256 a i

/-- The reviewed tree stands alone: the end of an installation. -/
structure Installed (sha256 : Data → String) (a : Args) (s : State) : Prop where
  others : s.others = []
  journal : s.journal = none
  entries : Entries s [.target]
  target : ∃ d, s.trust.lookup .target = some d ∧ Valid sha256 a d

/-- A stage `d` of a reviewed ingress, under its journal. -/
structure Staging (sha256 : Data → String) (a : Args) (i : Dir) (tx : Transaction) (d : Dir)
    (s : State) : Prop where
  others : s.others = []
  journal : s.journal = some (journalValues a tx i.id d.id)
  entries : Entries s [.ingress, .stage tx]
  ingress : s.trust.lookup .ingress = some i
  reviewed : Valid sha256 a i
  stage : s.trust.lookup (.stage tx) = some d

/-- The published tree `d` under its journal, with what is left of the ingress. -/
structure Published (sha256 : Data → String) (a : Args) (tx : Transaction) (id : Identity)
    (d : Dir) (s : State) : Prop where
  others : s.others = []
  journal : s.journal = some (journalValues a tx id d.id)
  entries : ∀ e ∈ s.trust, e = .target ∨ e = .ingress
  target : s.trust.lookup .target = some d
  reviewed : Valid sha256 a d
  ingress : ∀ i, s.trust.lookup .ingress = some i →
    i.id = id ∧ partialIngressSnapshots i.files = true

/-- A journal without its stage and without a target. -/
def Stranded (s : State) : Prop := s.journal.isSome = true ∧ .target ∉ s.trust ∧ s.stages = []

theorem stages_nil : s.stages = [] ↔ ∀ tx, .stage tx ∉ s.trust := by
  simp only [State.stages, List.filterMap_eq_nil_iff]
  refine ⟨fun h tx there => ?_, fun h e there => ?_⟩
  · have := h _ (AList.mem_keys.mp there)
    simp at this
  · cases e with
    | stage tx => exact absurd (AList.mem_keys.mpr there) (h tx)
    | _ => rfl

/-- The states that killed installations leave. -/
inductive Shape (sha256 : Data → String) (a : Args) (s : State) : Prop
  | prepared {i} (shape : Prepared sha256 a i s)
  | orphaned {i tx d} (others : s.others = []) (journal : s.journal = none)
      (entries : Entries s [.ingress, .stage tx]) (ingress : s.trust.lookup .ingress = some i)
      (reviewed : Valid sha256 a i) (stage : s.trust.lookup (.stage tx) = some d)
      (empty : d.files.keys = [])
  | staged {i tx d} (shape : Staging sha256 a i tx d s) (snapshots : stageSnapshots d.files = true)
  | stranded {i tx id} (others : s.others = [])
      (journal : s.journal = some (journalValues a tx i.id id)) (entries : Entries s [.ingress])
      (ingress : s.trust.lookup .ingress = some i) (reviewed : Valid sha256 a i)
  | published {tx id d} (shape : Published sha256 a tx id d s)
  | installed (shape : Installed sha256 a s)

section Unlink
variable {e : Entry} {id : Identity} {files : Files} {I : State → Prop} {β : Type}
  {Q : Except String β → State → Prop}

/-- A write of an installation is one whole step. -/
theorem holds_step {w : Write} {message : String} {t : State} {k : Unit → Run β}
    (applied : w.apply s = some t) (here : I t) (rest : Holds disk I (k ()) Q t) :
    Holds disk I ((write w message).bind k) Q s :=
  holds_wrote (fun h => h) (fun _ h => h.elim) applied here rest

@[simp] theorem put_journal (d : Dir) : (s.put e d).journal = s.journal := rfl
@[simp] theorem put_others (d : Dir) : (s.put e d).others = s.others := rfl
@[simp] theorem drop_journal : (s.drop e).journal = s.journal := rfl
@[simp] theorem drop_others : (s.drop e).others = s.others := rfl

theorem put_lookup (d : Dir) (e' : Entry) :
    (s.put e d).trust.lookup e' = if e' = e then some d else s.trust.lookup e' := by
  split
  next same => subst same; exact AList.lookup_insert _
  next differs => exact AList.lookup_insert_ne differs

theorem drop_lookup (e' : Entry) :
    (s.drop e).trust.lookup e' = if e' = e then none else s.trust.lookup e' := by
  split
  next same => subst same; exact AList.lookup_erase _ _
  next differs => exact AList.lookup_erase_ne differs

theorem put_put (d d' : Dir) : (s.put e d).put e d' = s.put e d' := by
  simp only [State.put, AList.insert_insert]

theorem change_some {change : Files → Option Files} {files' : Files} {id : Identity}
    (dir : s.trust.lookup e = some ⟨id, files⟩) (changed : change files = some files') :
    s.change e change = some (s.put e ⟨id, files'⟩) := by
  simp [State.change, dir, changed]

/-- Files of a directory are removed one by one. -/
theorem holds_unlinkAll {k : Unit → Run β} (names : List FileName) (files : Files)
    (dir : s.trust.lookup e = some ⟨id, files⟩) (distinct : names.Nodup)
    (present : ∀ f ∈ names, f ∈ files)
    (keeps : ∀ less : Files, (∀ f d, less.lookup f = some d → files.lookup f = some d) →
      I (s.put e ⟨id, less⟩))
    (rest : ∀ t less, t.journal = s.journal → t.others = s.others →
      (∀ e', t.trust.lookup e' = if e' = e then some ⟨id, less⟩ else s.trust.lookup e') →
      (∀ f, f ∈ less → f ∈ files ∧ f ∉ names) → Holds disk I (k ()) Q t) :
    Holds disk I ((unlinkAll e names).bind k) Q s := by
  induction names generalizing s files with
  | nil =>
    refine rest s files rfl rfl (fun e' => ?_) fun f hf => ⟨hf, List.not_mem_nil⟩
    split
    next same => rw [same, dir]
    · rfl
  | cons f names ih =>
    obtain ⟨fresh, distinct⟩ := List.nodup_cons.mp distinct
    have less : ∀ g d, (files.erase f).lookup g = some d → files.lookup g = some d := by
      intro g d found
      by_cases same : g = f
      · rw [same, AList.lookup_erase] at found
        cases found
      · rwa [AList.lookup_erase_ne same] at found
    simp only [unlinkAll, bind_eq]
    rw [bind_assoc]
    refine holds_step (change_some dir (if_pos (present f (by simp))))
      (keeps _ less) ?_
    refine ih (files.erase f) (by rw [put_lookup, if_pos rfl]) distinct (fun g hg => ?_)
      (fun less' sub => ?_) fun t less' journal others lookups remain => ?_
    · exact AList.mem_erase.mpr ⟨fun same => fresh (same ▸ hg), present g (by simp [hg])⟩
    · rw [put_put]
      exact keeps less' fun g d found => less g d (sub g d found)
    · refine rest t less' journal others (fun e' => ?_) fun g hg => ?_
      · rw [lookups, put_lookup]
        split <;> simp_all
      · obtain ⟨there, apart⟩ := remain g hg
        obtain ⟨differs, there⟩ := AList.mem_erase.mp there
        exact ⟨there, by simp [differs, apart]⟩

/-- A directory is removed with its files. -/
theorem holds_removeTree {d : Dir} {k : Unit → Run β} (dir : s.trust.lookup e = some d)
    (keeps : ∀ less : Files, (∀ f c, less.lookup f = some c → d.files.lookup f = some c) →
      I (s.put e ⟨d.id, less⟩))
    (rest : ∀ t, t.journal = s.journal → t.others = s.others →
      (∀ e', t.trust.lookup e' = if e' = e then none else s.trust.lookup e') →
      I t ∧ Holds disk I (k ()) Q t) :
    Holds disk I ((removeTree e d.files).bind k) Q s := by
  obtain ⟨id, files⟩ := d
  have sorted := List.mergeSort_perm files.keys fun f g => decide (f.text ≤ g.text)
  simp only [removeTree, bind_eq]
  rw [bind_assoc]
  refine holds_unlinkAll _ files dir (sorted.nodup_iff.mpr files.keys_nodup) (fun f hf => ?_) keeps
    fun t less journal others lookups none_ => ?_
  · exact AList.mem_keys.mpr (sorted.mem_iff.mp hf)
  · have empty : less.keys = [] := by
      refine List.eq_nil_iff_forall_not_mem.mpr fun f hf => ?_
      obtain ⟨there, apart⟩ := none_ f (AList.mem_keys.mpr hf)
      exact apart (sorted.mem_iff.mpr (AList.mem_keys.mp there))
    have here : t.trust.lookup e = some ⟨id, less⟩ := by rw [lookups, if_pos rfl]
    have after := rest (t.drop e) journal others fun e' => by
      rw [drop_lookup, lookups]
      split <;> rfl
    exact holds_step (by simp [Write.apply, here, empty]) after.1 after.2

end Unlink

theorem mapM_forall₂ {α β : Type} {f : α → Option β} {l : List α} {l' : List β}
    (h : l.mapM f = some l') : List.Forall₂ (fun x y => f x = some y) l l' := by
  induction l generalizing l' with
  | nil => cases h; exact .nil
  | cons x l ih =>
    rw [List.mapM_cons] at h
    obtain ⟨y, hy, h⟩ := Option.bind_eq_some_iff.mp h
    obtain ⟨tail, ht, h⟩ := Option.bind_eq_some_iff.mp h
    cases h
    exact .cons hy (ih ht)

theorem forall₂_right {α β : Type} {R : α → β → Prop} {l : List α} {l' : List β} {y : β}
    (h : List.Forall₂ R l l') (member : y ∈ l') : ∃ x ∈ l, R x y := by
  induction h with
  | nil => cases member
  | @cons x y' l l' head _ ih =>
    rcases List.mem_cons.mp member with rfl | later
    · exact ⟨x, List.mem_cons_self, head⟩
    · obtain ⟨x', hx, related⟩ := ih later
      exact ⟨x', List.mem_cons_of_mem _ hx, related⟩

theorem readTrust_some {files : Files} {b : TrustName × String} {c : TrustName × Data}
    (h : readTrust sha256 files b = some c) : c.1 = b.1 ∧ files.lookup (.trust b.1) = some c.2 ∧
      0 < c.2.length ∧ c.2.length ≤ maxTrustSize := by
  obtain ⟨d, found, checked⟩ := Option.bind_eq_some_iff.mp h
  obtain ⟨⟨positive, bounded, -⟩, same⟩ := Option.ite_none_right_eq_some.mp checked
  cases same
  exact ⟨rfl, found, positive, bounded⟩

theorem readTrust_names {files : Files} {bindings : List (TrustName × String)}
    {contents : List (TrustName × Data)}
    (h : List.Forall₂ (fun b c => readTrust sha256 files b = some c) bindings contents) :
    contents.map Prod.fst = bindings.map Prod.fst := by
  induction h with
  | nil => rfl
  | cons head _ ih => simp only [List.map_cons, ih, (readTrust_some head).1]

/-- What a validated directory holds: each name once, with bounded contents. -/
structure Reviewed (files : Files) (contents : List (TrustName × Data)) : Prop where
  distinct : (contents.map Prod.fst).Nodup
  found : ∀ n d, files.lookup (.trust n) = some d ↔ (n, d) ∈ contents
  bounded : ∀ n d, (n, d) ∈ contents → 0 < d.length ∧ d.length ≤ maxTrustSize
  named : ∀ f ∈ files, ∃ n, f = .trust n

theorem validateTree_reviewed {files : Files} {contents : List (TrustName × Data)}
    (h : validateTree sha256 a files = some contents) : Reviewed files contents := by
  obtain ⟨contents', read, checked⟩ := Option.bind_eq_some_iff.mp h
  obtain ⟨⟨named, -⟩, same⟩ := Option.ite_none_right_eq_some.mp checked
  cases same
  have pairs := mapM_forall₂ read
  have names := readTrust_names pairs
  have each : ∀ n d, (n, d) ∈ contents → files.lookup (.trust n) = some d ∧
      0 < d.length ∧ d.length ≤ maxTrustSize := by
    intro n d member
    obtain ⟨b, -, found⟩ := forall₂_right pairs member
    obtain ⟨same, found, bounds⟩ := readTrust_some found
    obtain rfl : n = b.1 := same
    exact ⟨found, bounds⟩
  refine ⟨names ▸ a.distinct, fun n d => ⟨fun found => ?_, fun member => (each n d member).1⟩,
    fun n d member => (each n d member).2, fun f hf => ?_⟩
  · obtain ⟨⟨n', d'⟩, member, same⟩ := List.mem_map.mp (names ▸ a.complete n)
    obtain rfl : n' = n := same
    rw [(each n' d' member).1] at found
    cases found
    exact member
  · obtain ⟨n, -, same⟩ := named f (AList.mem_keys.mp hf)
    exact ⟨n, same⟩

theorem validateTree_congr {files files' : Files}
    (same : ∀ f, files.lookup f = files'.lookup f) :
    validateTree sha256 a files = validateTree sha256 a files' := by
  have read : readTrust sha256 files = readTrust sha256 files' := by
    funext b
    simp only [readTrust, same]
  have names : ∀ f, f ∈ files.keys ↔ f ∈ files'.keys := by
    intro f
    rw [← AList.mem_keys, ← AList.mem_keys, ← AList.lookup_isSome, ← AList.lookup_isSome, same]
  simp only [validateTree, read, names]

/-- What is left of a reviewed ingress can still be removed. -/
theorem Reviewed.partial_ {files less : Files} {contents : List (TrustName × Data)}
    (h : Reviewed files contents)
    (sub : ∀ f d, less.lookup f = some d → files.lookup f = some d) :
    partialIngressSnapshots less = true := by
  refine entries_all.mpr fun f d found => ?_
  have there := sub f d found
  obtain ⟨n, rfl⟩ := h.named f (AList.lookup_isSome.mp (by rw [there]; rfl))
  have bounds := h.bounded n d ((h.found n d).mp there)
  simp [bounds]

theorem Entries.put {names : List Entry} {e : Entry} {d : Dir} (h : Entries s names)
    (member : e ∈ names) : Entries (s.put e d) names := by
  intro e'
  rw [State.put, AList.mem_insert, h e']
  exact ⟨fun either => either.elim (fun same => same ▸ member) fun there => there, .inr⟩

theorem Entries.drop {names rest : List Entry} {e : Entry} (h : Entries s names)
    (rest_ : ∀ e', e' ∈ rest ↔ e' ≠ e ∧ e' ∈ names) : Entries (s.drop e) rest := by
  intro e'
  rw [State.drop, AList.mem_erase, h e', rest_]

theorem Entries.lookup {names : List Entry} {e : Entry} (h : Entries s names)
    (absent : e ∉ names) : s.trust.lookup e = none :=
  AList.lookup_eq_none.mpr fun there => absent ((h e).mp there)

section Runs
variable {β : Type} {Q : Except String β → State → Prop} {I : State → Prop}

theorem holds_validateFinalState {k : Unit → Run β} (h : Installed sha256 a s) (here : I s)
    (rest : Holds disk I (k ()) Q s) :
    Holds disk I ((validateFinalState sha256 a).bind k) Q s := by
  obtain ⟨others, journal, entries, d, target, reviewed⟩ := h
  simp only [validateFinalState, bind_eq]
  rw [bind_assoc]
  refine holds_look here ?_
  rw [bind_assoc]
  refine holds_checked (by simp [others, journal]) ?_
  rw [bind_assoc]
  refine holds_checked (entriesAre_iff.mpr entries) ?_
  exact holds_checked (by rw [target]; exact reviewed) rest

theorem holds_removeJournal {j : Journal} {k : Unit → Run β} (journal : s.journal = some j)
    (here : I s) (after : I { s with journal := none })
    (rest : Holds disk I (k ()) Q { s with journal := none }) :
    Holds disk I ((removeJournal j).bind k) Q s := by
  simp only [removeJournal, bind_eq]
  rw [bind_assoc]
  refine holds_look here ?_
  rw [bind_assoc]
  refine holds_checked (by simp [journal]) ?_
  exact holds_step (by simp [Write.apply, journal]) after rest

variable {i : Dir} {tx : Transaction} {id : Identity}

theorem Staging.put {f g : Files} (h : Staging sha256 a i tx ⟨id, f⟩ s) :
    Staging sha256 a i tx ⟨id, g⟩ (s.put (.stage tx) ⟨id, g⟩) := by
  refine ⟨h.others, h.journal, h.entries.put (by simp), ?_, h.reviewed, ?_⟩
  · rw [put_lookup, if_neg (by simp)]
    exact h.ingress
  · rw [put_lookup, if_pos rfl]

theorem holds_recheck {j : Journal} {e : Entry} {d : Dir} {k : Unit → Run β}
    (ingress : s.trust.lookup .ingress = some i) (there : s.trust.lookup e = some d)
    (journal : s.journal = some j) (same : i.id = j.ingress ∧ d.id = j.stage) (here : I s)
    (rest : Holds disk I (k ()) Q s) : Holds disk I ((recheck j e).bind k) Q s := by
  simp only [recheck, bind_eq]
  rw [bind_assoc]
  refine holds_look here ?_
  rw [bind_assoc]
  refine holds_checked (by simp [ingress, same.1]) ?_
  rw [bind_assoc]
  refine holds_checked (by simp [there, same.2]) ?_
  exact holds_checked (by simp [journal]) rest

/-- The published names of a stage after the files `done`. -/
structure Copied (done : List (TrustName × Data)) (files : Files) : Prop where
  found : ∀ n d, files.lookup (.trust n) = some d ↔ (n, d) ∈ done
  named : ∀ f ∈ files, ∃ n, f = .trust n

theorem Copied.fresh {done : List (TrustName × Data)} {files : Files} (h : Copied done files)
    {n : TrustName} (absent : n ∉ done.map Prod.fst) : files.lookup (.trust n) = none := by
  cases found : files.lookup (.trust n) with
  | none => rfl
  | some d => exact absurd (List.mem_map.mpr ⟨_, (h.found n d).mp found, rfl⟩) absent

/-- One file after the other is written under a partial name and published. -/
theorem holds_populateStage {contents rest done : List (TrustName × Data)} {files files₀ : Files}
    {index : ℕ} {k : Unit → Run β} (h : Staging sha256 a i tx ⟨id, files⟩ s)
    (reviewed : Reviewed files₀ contents) (split : contents = done ++ rest)
    (copied : Copied done files)
    (keeps : ∀ t d, Staging sha256 a i tx d t → stageSnapshots d.files = true → I t)
    (next : ∀ t files, Staging sha256 a i tx ⟨id, files⟩ t → Copied contents files →
      Holds disk I (k ()) Q t) :
    Holds disk I ((populateStage tx index rest).bind k) Q s := by
  induction rest generalizing s files done index with
  | nil =>
    rw [List.append_nil] at split
    exact next s files h (split ▸ copied)
  | cons c rest ih =>
    obtain ⟨n, d⟩ := c
    have bounds := (reviewed.bounded n d (by simp [split])).2
    have absent : n ∉ done.map Prod.fst := by
      have distinct := reviewed.distinct
      rw [split, List.map_append, List.map_cons, List.nodup_append] at distinct
      exact fun member => distinct.2.2 n member n List.mem_cons_self rfl
    have unstaged : FileName.staging index ∉ files := fun there => by
      obtain ⟨m, same⟩ := copied.named _ there
      cases same
    let written := files.insert (.staging index) d
    let published := (written.erase (.staging index)).insert (.trust n) d
    have bounded : ∀ f e, files.lookup f = some e → (∃ m, f = .trust m) ∧ e.length ≤ maxTrustSize := by
      intro f e found
      obtain ⟨m, rfl⟩ := copied.named f (AList.lookup_isSome.mp (by rw [found]; rfl))
      exact ⟨⟨m, rfl⟩, (reviewed.bounded m e (by rw [split]; simp [(copied.found m e).mp found])).2⟩
    have lookups : ∀ f, published.lookup f = if f = .trust n then some d else files.lookup f := by
      intro f
      split
      next same => subst same; exact AList.lookup_insert _
      next differs =>
        rw [AList.lookup_insert_ne differs]
        by_cases same : f = .staging index
        · rw [same, AList.lookup_erase, AList.lookup_eq_none.mpr unstaged]
        · rw [AList.lookup_erase_ne same, AList.lookup_insert_ne same]
    have copied' : Copied (done ++ [(n, d)]) published := by
      refine ⟨fun m e => ?_, fun f there => ?_⟩
      · rw [lookups, List.mem_append, List.mem_singleton]
        split
        next same =>
          obtain rfl : m = n := by simpa using same
          have no_other : (m, e) ∉ done := fun member =>
            absent (List.mem_map.mpr ⟨_, member, rfl⟩)
          simp [no_other, eq_comm]
        next differs =>
          have apart : m ≠ n := fun same => differs (congrArg _ same)
          rw [copied.found]
          simp [apart]
      · have found := AList.lookup_isSome.mpr there
        rw [lookups] at found
        split at found
        next same => exact ⟨n, same⟩
        · exact copied.named f (AList.lookup_isSome.mp found)
    have snapshots : stageSnapshots written = true := by
      refine entries_all.mpr fun f e found => ?_
      by_cases same : f = .staging index
      · subst same
        rw [AList.lookup_insert] at found
        cases found
        simpa using bounds
      · rw [AList.lookup_insert_ne same] at found
        obtain ⟨⟨m, rfl⟩, small⟩ := bounded f e found
        simpa using small
    have snapshots' : stageSnapshots published = true := by
      refine entries_all.mpr fun f e found => ?_
      rw [lookups] at found
      split at found
      next same => cases found; subst same; simpa using bounds
      next differs =>
        obtain ⟨⟨m, rfl⟩, small⟩ := bounded f e found
        simpa using small
    have staged := h.put (g := written)
    have again := staged.put (g := published)
    simp only [populateStage, bind_eq]
    rw [bind_assoc]
    refine holds_step (change_some h.stage (if_neg unstaged)) (keeps _ _ staged snapshots) ?_
    rw [bind_assoc]
    refine holds_step (change_some staged.stage ?_) (keeps _ _ again snapshots') ?_
    · have free : FileName.trust n ∉ written := by
        rw [AList.mem_insert]
        rintro (same | there)
        · cases same
        · rw [← AList.lookup_isSome, copied.fresh absent] at there
          cases there
      simp [renameFile, written, free, published]
    · exact ih again (by rw [split]; simp) copied'

end Runs

/-- The end of a run that succeeded. -/
def Succeeds (sha256 : Data → String) (a : Args) (out : Except String Status) (t : State) : Prop :=
  (∃ status, out = .ok status) ∧ Installed sha256 a t

theorem Published.less {i d : Dir} {tx : Transaction} {less : Files}
    (h : Published sha256 a tx i.id d s) (partial_ : partialIngressSnapshots less = true) :
    Published sha256 a tx i.id d (s.put .ingress ⟨i.id, less⟩) := by
  refine ⟨h.others, h.journal, fun e there => ?_, ?_, h.reviewed, fun i' found => ?_⟩
  · rcases (AList.mem_insert _).mp there with rfl | there
    · exact .inr rfl
    · exact h.entries e there
  · rw [put_lookup, if_neg (by simp)]
    exact h.target
  · rw [put_lookup, if_pos rfl] at found
    cases found
    exact ⟨rfl, partial_⟩

theorem partial_less {files less : Files} (h : partialIngressSnapshots files = true)
    (sub : ∀ f c, less.lookup f = some c → files.lookup f = some c) :
    partialIngressSnapshots less = true :=
  entries_all.mpr fun f c found => entries_all.mp h f c (sub f c found)

theorem snapshots_less {files less : Files} (h : stageSnapshots files = true)
    (sub : ∀ f c, less.lookup f = some c → files.lookup f = some c) :
    stageSnapshots less = true :=
  entries_all.mpr fun f c found => entries_all.mp h f c (sub f c found)

/-- Once the ingress of a published target is gone, only the target is left. -/
theorem Published.entries_target {tx : Transaction} {id : Identity} {d : Dir} {t : State}
    (h : Published sha256 a tx id d s)
    (lookups : ∀ e, t.trust.lookup e = if e = .ingress then none else s.trust.lookup e) :
    Entries t [.target] ∧ t.trust.lookup .target = some d := by
  have target : t.trust.lookup .target = some d := by
    rw [lookups, if_neg (by simp)]
    exact h.target
  refine ⟨fun e => ⟨fun there => ?_, fun member => ?_⟩, target⟩
  · have found := AList.lookup_isSome.mpr there
    rw [lookups] at found
    split at found
    · cases found
    next differs =>
      rcases h.entries e (AList.lookup_isSome.mp found) with rfl | same
      · exact List.mem_singleton.mpr rfl
      · exact absurd same differs
  · obtain rfl := List.mem_singleton.mp member
    exact AList.lookup_isSome.mp (by rw [target]; rfl)

/-- The staging, publication and cleanup of a prepared ingress. -/
theorem publish_holds {i : Dir} {contents : List (TrustName × Data)} (h : Prepared sha256 a i s)
    (checked : validateTree sha256 a i.files = some contents) :
    Holds disk (Shape sha256 a) (publish sha256 a i contents) (Succeeds sha256 a) s := by
  have reviewed := validateTree_reviewed checked
  simp only [publish, bind_eq, pure_eq]
  refine holds_ask (.prepared h) fun tx _ => holds_ask (.prepared h) fun id _ => ?_
  have absent : .stage tx ∉ s.trust := fun there => by
    have := (h.entries _).mp there
    simp at this
  have entries : Entries (s.put (.stage tx) ⟨id, ∅⟩) [.ingress, .stage tx] := by
    intro e
    rw [State.put, AList.mem_insert, h.entries e]
    simp [or_comm]
  have ingress : (s.put (.stage tx) ⟨id, ∅⟩).trust.lookup .ingress = some i := by
    rw [put_lookup, if_neg (by simp)]
    exact h.ingress
  have stage : (s.put (.stage tx) ⟨id, ∅⟩).trust.lookup (.stage tx) = some ⟨id, ∅⟩ := by
    rw [put_lookup, if_pos rfl]
  refine holds_step (if_neg absent)
    (.orphaned h.others h.journal entries ingress h.reviewed stage rfl) ?_
  have staging : Staging sha256 a i tx ⟨id, ∅⟩ { s.put (.stage tx) ⟨id, ∅⟩ with
      journal := some (journalValues a tx i.id id) } :=
    ⟨h.others, rfl, entries, ingress, h.reviewed, stage⟩
  refine holds_step (by simp [Write.apply, h.journal]) (.staged staging rfl) ?_
  refine holds_recheck staging.ingress staging.stage rfl ⟨rfl, rfl⟩ (.staged staging rfl) ?_
  have empty : Copied [] (∅ : Files) := ⟨by simp, fun f there => by cases there⟩
  refine holds_populateStage staging reviewed rfl empty (fun t d ht => .staged ht)
    fun t files ht copied => ?_
  -- the stage holds what the ingress holds
  have same : ∀ f, files.lookup f = i.files.lookup f := by
    intro f
    by_cases named : ∃ n, f = .trust n
    · obtain ⟨n, rfl⟩ := named
      ext d
      rw [copied.found, reviewed.found]
    · rw [AList.lookup_eq_none.mpr fun there => named (copied.named f there),
        AList.lookup_eq_none.mpr fun there => named (reviewed.named f there)]
  have valid : Valid sha256 a ⟨id, files⟩ := by
    rw [Valid, validateTree_congr same, checked]
    rfl
  have snapshots : stageSnapshots files = true := by
    refine entries_all.mpr fun f d found => ?_
    obtain ⟨n, rfl⟩ := copied.named f (AList.lookup_isSome.mp (by rw [found]; rfl))
    simpa using (reviewed.bounded n d ((copied.found n d).mp found)).2
  have kept : Shape sha256 a t := .staged ht snapshots
  refine holds_look kept (holds_checked (by rw [ht.stage]; exact valid) ?_)
  refine holds_recheck ht.ingress ht.stage ht.journal ⟨rfl, rfl⟩ kept ?_
  have no_target : .target ∉ t.trust := fun there => by
    have := (ht.entries _).mp there
    simp at this
  refine holds_checked (by simpa using no_target) ?_
  let u := (t.drop (.stage tx)).put .target ⟨id, files⟩
  have lookups : ∀ e, u.trust.lookup e = if e = .target then some ⟨id, files⟩ else
      if e = .stage tx then none else t.trust.lookup e := by
    intro e
    simp only [u, put_lookup, drop_lookup]
  have published : Published sha256 a tx i.id ⟨id, files⟩ u := by
    refine ⟨ht.others, ht.journal, fun e there => ?_, by rw [lookups, if_pos rfl], valid,
      fun i' found => ?_⟩
    · have found := AList.lookup_isSome.mpr there
      rw [lookups] at found
      split at found
      next same => exact .inl same
      split at found
      · cases found
      next differs =>
        have member := (ht.entries e).mp (AList.lookup_isSome.mp found)
        simp [differs] at member
        exact .inr member
    · rw [lookups, if_neg (by simp), if_neg (by simp), ht.ingress] at found
      cases found
      exact ⟨rfl, reviewed.partial_ fun _ _ h => h⟩
  have ingress_u : u.trust.lookup .ingress = some i := by
    rw [lookups, if_neg (by simp), if_neg (by simp)]
    exact ht.ingress
  refine holds_step (t := u) (by simp [Write.apply, ht.stage, no_target, u]) (.published published) ?_
  refine holds_look (.published published)
    (holds_checked (by rw [published.target]; exact valid) ?_)
  refine holds_recheck ingress_u published.target published.journal ⟨rfl, rfl⟩
    (.published published) ?_
  refine holds_removeTree ingress_u
    (fun less sub => .published (published.less (reviewed.partial_ sub))) fun v journal others gone => ?_
  obtain ⟨entries_v, target_v⟩ := published.entries_target gone
  have left : Published sha256 a tx i.id ⟨id, files⟩ v := by
    refine ⟨others.trans published.others, journal.trans published.journal, fun e there => ?_,
      target_v, valid, fun i' found => ?_⟩
    · exact .inl (List.mem_singleton.mp ((entries_v e).mp there))
    · rw [gone, if_pos rfl] at found
      cases found
  have ended : Installed sha256 a { v with journal := none } :=
    ⟨left.others, rfl, entries_v, ⟨_, target_v, valid⟩⟩
  refine ⟨.published left, holds_removeJournal left.journal (.published left) (.installed ended) ?_⟩
  exact holds_validateFinalState ended (.installed ended) ⟨⟨_, rfl⟩, ended⟩

/-- The recovery of a published target finishes the installation. -/
theorem recoverPublished_holds {tx : Transaction} {id : Identity} {d : Dir}
    (h : Published sha256 a tx id d s) :
    Holds disk (Shape sha256 a) (recoverPublished sha256 a (journalValues a tx id d.id) s d)
      (fun out t => out = .ok true ∧ Installed sha256 a t) s := by
  simp only [recoverPublished, bind_eq, pure_eq]
  have entries : ∀ e ∈ s.trust.keys, e = .target ∨ e = .ingress :=
    fun e member => h.entries e (AList.mem_keys.mpr member)
  refine holds_checked (decide_eq_true entries) (holds_checked (by simp [journalValues])
    (holds_checked h.reviewed ?_))
  -- what is left of the ingress is removed, and then the journal
  have ending : ∀ t, t.journal = s.journal → t.others = s.others →
      (∀ e, t.trust.lookup e = if e = .ingress then none else s.trust.lookup e) →
      Shape sha256 a t ∧ Holds disk (Shape sha256 a)
        ((removeJournal (journalValues a tx id d.id)).bind fun _ => .ret true)
        (fun out t => out = .ok true ∧ Installed sha256 a t) t := by
    intro t journal others gone
    obtain ⟨entries, target⟩ := h.entries_target gone
    have left : Published sha256 a tx id d t := by
      refine ⟨others.trans h.others, journal.trans h.journal, fun e there => ?_, target,
        h.reviewed, fun i found => ?_⟩
      · exact .inl (List.mem_singleton.mp ((entries e).mp there))
      · rw [gone, if_pos rfl] at found
        cases found
    have ended : Installed sha256 a { t with journal := none } :=
      ⟨left.others, rfl, entries, d, target, h.reviewed⟩
    exact ⟨.published left, holds_removeJournal left.journal (.published left) (.installed ended)
      ⟨rfl, ended⟩⟩
  cases found : s.trust.lookup .ingress with
  | none =>
    simp only [removeIngress, found]
    refine (ending s rfl rfl fun e => ?_).2
    split
    next same => rw [same, found]
    · rfl
  | some i =>
    obtain ⟨same, snapshots⟩ := h.ingress i found
    subst same
    simp only [removeIngress, found, bind_eq]
    rw [Prog.bind_assoc]
    refine holds_checked (by simp [journalValues]) ?_
    rw [Prog.bind_assoc]
    refine holds_checked snapshots ?_
    exact holds_removeTree found
      (fun less sub => .published (h.less (partial_less snapshots sub))) ending

/-- The recovery of a stage leads back to the prepared ingress. -/
theorem recoverUnpublished_holds {i d : Dir} {tx : Transaction} (h : Staging sha256 a i tx d s)
    (snapshots : stageSnapshots d.files = true) :
    Holds disk (Shape sha256 a) (recoverUnpublished (journalValues a tx i.id d.id) s)
      (fun out t => out = .ok false ∧ Prepared sha256 a i t) s := by
  have stage : s.trust.lookup (.stage (journalValues a tx i.id d.id).transaction) = some d := h.stage
  simp only [recoverUnpublished, h.ingress, stage, bind_eq, pure_eq]
  refine holds_checked (by simp [journalValues]) (holds_checked (by simp [journalValues])
    (holds_checked snapshots ?_))
  refine holds_removeTree stage
    (fun less sub => .staged (h.put (g := less)) (snapshots_less snapshots sub))
    fun t journal others gone => ?_
  have entries : Entries t [.ingress] := by
    intro e
    rw [← AList.lookup_isSome, gone]
    have old := h.entries e
    rw [← AList.lookup_isSome] at old
    split
    next same => subst same; simp [journalValues]
    next differs =>
      rw [old]
      simp only [journalValues] at differs
      simp [differs]
  have ingress : t.trust.lookup .ingress = some i := by
    rw [gone, if_neg (by simp)]
    exact h.ingress
  have journal_t := journal.trans h.journal
  have prepared : Prepared sha256 a i { t with journal := none } :=
    ⟨others.trans h.others, rfl, entries, ingress, h.reviewed⟩
  have alone : Shape sha256 a t :=
    .stranded (others.trans h.others) journal_t entries ingress h.reviewed
  exact ⟨alone, holds_removeJournal journal_t alone (.prepared prepared) ⟨rfl, prepared⟩⟩

theorem Installed.absent (h : Installed sha256 a s) : .target ∈ s.trust :=
  (h.entries _).mpr (List.mem_singleton.mpr rfl)

/-- The last part of an installation, from a prepared ingress or a finished tree. -/
theorem installInitial_holds {check : Bool} (h : (∃ i, Prepared sha256 a i s) ∨ Installed sha256 a s) :
    Holds disk (Shape sha256 a) (installInitial sha256 a check)
      (fun out t => check = false → Succeeds sha256 a out t) s := by
  have here : Shape sha256 a s := by
    rcases h with ⟨i, h⟩ | h
    · exact .prepared h
    · exact .installed h
  simp only [installInitial, bind_eq, pure_eq]
  refine holds_look here ?_
  rcases h with ⟨i, h⟩ | h
  · have no_target : .target ∉ s.trust := fun there => by
      have := (h.entries _).mp there
      simp at this
    obtain ⟨contents, checked⟩ := Option.isSome_iff_exists.mp h.reviewed
    rw [if_neg no_target]
    refine holds_checked (by simp [entriesAre_iff.mpr h.entries, h.journal, h.others]) ?_
    simp only [h.ingress, checked]
    cases check with
    | true => exact nofun
    | false => exact wp_mono (publish_holds h checked) (fun _ _ _ h => h) fun _ _ h _ => h
  · rw [if_pos h.absent]
    exact holds_validateFinalState h here fun _ => ⟨⟨_, rfl⟩, h⟩

/-- The recovery of a journal: to a finished tree, or back to the prepared ingress. -/
theorem recover_holds {check : Bool} (h : Shape sha256 a s)
    (orphan : ∀ tx, s.journal = none → .stage tx ∉ s.trust) :
    Holds disk (Shape sha256 a) (recover sha256 a check)
      (fun out t => match out with
        | .ok true => Installed sha256 a t
        | .ok false => (∃ i, Prepared sha256 a i t) ∨ Installed sha256 a t
        | .error _ => check = true ∨ Stranded s) s := by
  simp only [recover, bind_eq, pure_eq]
  refine holds_look h ?_
  have checks : ∀ {j : Journal} {k : Run Bool} {Q : Except String Bool → State → Prop},
      s.others = [] → j = journalValues a j.transaction j.ingress j.stage →
      ¬(.stage j.transaction ∈ s.trust ∧ .target ∈ s.trust) →
      (check = true → ∀ e, Q (.error e) s) → (check = false → Holds disk (Shape sha256 a) k Q s) →
      Holds disk (Shape sha256 a)
        ((require (!check) "trust installation recovery is required before check mode can succeed").bind
        fun _ => (require (s.others = []) "trust recovery found unexpected state-root entries").bind
        fun _ => (require (j = journalValues a j.transaction j.ingress j.stage)
          "trust installation journal does not match the requested frozen trust identity").bind
        fun _ => (require (¬(.stage j.transaction ∈ s.trust ∧ .target ∈ s.trust))
          "trust recovery found both staged and published state").bind fun _ => k) Q s := by
    intro j k Q others own apart checking rest
    refine holds_check (fun refused => checking (by simpa using refused) _) fun passed => ?_
    refine holds_checked (by simpa using others) (holds_checked (by simpa using own)
      (holds_checked (decide_eq_true apart) (rest (by simpa using passed))))
  cases h with
  | prepared shape =>
    simp only [shape.journal]
    exact .inl ⟨_, shape⟩
  | @orphaned i tx d others journal entries ingress reviewed stage empty =>
    exact absurd ((entries (.stage tx)).mpr (by simp)) (orphan tx journal)
  | installed shape =>
    simp only [shape.journal]
    exact .inr shape
  | @staged i tx d shape snapshots =>
    have no_target : .target ∉ s.trust := fun there => by
      have := (shape.entries _).mp there
      simp at this
    simp only [shape.journal, AList.lookup_eq_none.mpr no_target]
    refine checks shape.others rfl (fun both => no_target both.2) (fun checking _ => .inl checking)
      fun _ => wp_mono (recoverUnpublished_holds shape snapshots) (fun _ _ _ h => h) ?_
    rintro out t ⟨rfl, prepared⟩
    exact .inl ⟨i, prepared⟩
  | @stranded i tx id others journal entries ingress reviewed =>
    have no_target : .target ∉ s.trust := fun there => by
      have := (entries _).mp there
      simp at this
    have no_stage : ∀ tx, .stage tx ∉ s.trust := fun tx there => by
      have := (entries _).mp there
      simp at this
    have stranded : Stranded s := ⟨by rw [journal]; rfl, no_target, stages_nil.mpr no_stage⟩
    simp only [journal, AList.lookup_eq_none.mpr no_target]
    refine checks others rfl (fun both => no_target both.2) (fun checking _ => .inl checking)
      fun _ => ?_
    have gone : s.trust.lookup (.stage (journalValues a tx i.id id).transaction) = none :=
      AList.lookup_eq_none.mpr (no_stage tx)
    simp only [recoverUnpublished, ingress, gone, bind_eq]
    exact holds_checked (by simp [journalValues]) (.inr stranded)
  | @published tx id d shape =>
    have no_stage : .stage tx ∉ s.trust := fun there => by
      have := shape.entries _ there
      simp at this
    simp only [shape.journal, shape.target]
    refine checks shape.others rfl (fun both => no_stage both.1) (fun checking _ => .inl checking)
      fun _ => wp_mono (recoverPublished_holds shape) (fun _ _ _ h => h) ?_
    rintro out t ⟨rfl, installed⟩
    exact installed

/-- An empty stage without a journal is removed; every other state is left as it is. -/
theorem recoverOrphan_holds (h : Shape sha256 a s) :
    Holds disk (Shape sha256 a) recoverOrphan
      (fun out t => out = .ok () ∧ Shape sha256 a t ∧ (Stranded t → Stranded s) ∧
        ∀ tx, t.journal = none → .stage tx ∉ t.trust) s := by
  simp only [recoverOrphan, bind_eq, pure_eq]
  refine holds_look h ?_
  have stays : (∀ tx, s.journal = none → .stage tx ∉ s.trust) →
      Holds disk (Shape sha256 a) (if s.journal.isSome = true then .ret () else
        recoverEmptyUnjournaledStage s) (fun out t => out = .ok () ∧ Shape sha256 a t ∧
          (Stranded t → Stranded s) ∧ ∀ tx, t.journal = none → .stage tx ∉ t.trust) s := by
    intro no_stage
    cases journal : s.journal with
    | some j => exact ⟨rfl, h, id, fun tx none_ => by rw [journal] at none_; cases none_⟩
    | none =>
      have empty : s.stages = [] := stages_nil.mpr fun tx => no_stage tx journal
      simp only [Option.isSome_none, recoverEmptyUnjournaledStage, empty]
      exact ⟨rfl, h, id, no_stage⟩
  cases h with
  | prepared shape =>
    refine stays fun tx _ there => ?_
    have := (shape.entries _).mp there
    simp at this
  | installed shape =>
    refine stays fun tx _ there => ?_
    have := (shape.entries _).mp there
    simp at this
  | staged shape => exact stays fun tx none_ => by rw [shape.journal] at none_; cases none_
  | stranded others journal => exact stays fun tx none_ => by rw [journal] at none_; cases none_
  | published shape => exact stays fun tx none_ => by rw [shape.journal] at none_; cases none_
  | @orphaned i tx d others journal entries ingress reviewed stage empty =>
    have one : s.stages = [tx] := by
      have distinct : s.stages.Nodup := by
        refine s.trust.keys_nodup.filterMap fun e e' tx' he he' => ?_
        rcases e with _ | _ | _ | _ <;> rcases e' with _ | _ | _ | _ <;> simp_all
      have members : ∀ tx', tx' ∈ s.stages ↔ tx' = tx := by
        intro tx'
        have listed := entries (.stage tx')
        rw [AList.mem_keys] at listed
        constructor
        · intro member
          obtain ⟨e, there, is_⟩ := List.mem_filterMap.mp member
          cases e <;> simp at is_
          subst is_
          simpa using listed.mp there
        · rintro rfl
          exact List.mem_filterMap.mpr ⟨_, listed.mpr (by simp), rfl⟩
      obtain ⟨l, hl⟩ : ∃ l, s.stages = l := ⟨_, rfl⟩
      rw [hl] at distinct members ⊢
      match l with
      | [] => simpa using members tx
      | [tx'] => rw [(members tx').mp (by simp)]
      | tx₁ :: tx₂ :: l =>
        have := (members tx₁).mp (by simp)
        have := (members tx₂).mp (by simp)
        simp_all
    have after : Prepared sha256 a i (s.drop (.stage tx)) := by
      refine ⟨others, journal, entries.drop fun e => ?_, ?_, reviewed⟩
      · rcases e with _ | _ | _ | _ <;> simp
      · rw [drop_lookup, if_neg (by simp)]
        exact ingress
    simp only [journal, Option.isSome_none, recoverEmptyUnjournaledStage, one, bind_eq]
    refine holds_checked (entriesAre_iff.mpr entries) (holds_checked (by simp [stage, empty]) ?_)
    rw [← bind_ret_right (write _ _)]
    refine holds_step (by simp [Write.apply, stage, empty]) (.prepared after)
      ⟨rfl, .prepared after, fun stranded => ?_, fun tx' _ there => ?_⟩
    · rw [Stranded, after.journal] at stranded
      cases stranded.1
    · have := (after.entries _).mp there
      simp at this

/-- Every installation keeps the shape of the state root, and it succeeds where the journal is
not left without its stage. -/
theorem install_holds {check : Bool} (h : Shape sha256 a s) :
    Holds disk (Shape sha256 a) (install sha256 a check)
      (fun out t => check = false → ¬Stranded s → Succeeds sha256 a out t) s := by
  simp only [install, bind_eq, pure_eq]
  refine wp_bind.mpr (wp_mono (recoverOrphan_holds h) (fun _ _ _ h => h) ?_)
  rintro out t ⟨rfl, shape, stranded, orphan⟩
  refine wp_bind.mpr (wp_mono (recover_holds shape orphan) (fun _ _ _ h => h) ?_)
  rintro (e | _ | _) u recovered
  · intro applying free
    rcases recovered with checking | left
    · rw [applying] at checking
      cases checking
    · exact absurd (stranded left) free
  · exact wp_mono (installInitial_holds recovered) (fun _ _ _ h => h) fun _ _ h applying _ =>
      h applying
  · exact holds_validateFinalState recovered (.installed recovered) fun _ _ =>
      ⟨⟨_, rfl⟩, recovered⟩

/-- A stranded journal makes every later installation fail. -/
theorem install_stranded {check : Bool} (h : Shape sha256 a s) (stranded : Stranded s) :
    Holds disk (Shape sha256 a) (install sha256 a check) (fun out _ => ∃ e, out = .error e) s := by
  obtain ⟨journaled, no_target, no_stage⟩ := stranded
  have absent := stages_nil.mp no_stage
  have target : s.trust.lookup .target = none := AList.lookup_eq_none.mpr no_target
  have kept := h
  simp only [install, recoverOrphan, bind_eq, pure_eq]
  rw [Prog.bind_assoc]
  refine holds_look kept ?_
  rw [if_pos journaled, bind_ret]
  refine wp_bind.mpr ?_
  simp only [recover, bind_eq, pure_eq]
  refine holds_look kept ?_
  cases h with
  | prepared shape => rw [shape.journal] at journaled; cases journaled
  | orphaned others journal => rw [journal] at journaled; cases journaled
  | installed shape => rw [shape.journal] at journaled; cases journaled
  | @staged i tx d shape => exact absurd ((shape.entries _).mpr (by simp)) (absent tx)
  | published shape => rw [shape.target] at target; cases target
  | @stranded i tx id others journal entries ingress =>
    have gone : s.trust.lookup (.stage (journalValues a tx i.id id).transaction) = none :=
      AList.lookup_eq_none.mpr (absent tx)
    simp only [journal, target, recoverUnpublished, ingress, gone, bind_eq]
    refine holds_check (fun _ => ⟨_, rfl⟩) fun _ => holds_check (fun _ => ⟨_, rfl⟩) fun _ =>
      holds_check (fun _ => ⟨_, rfl⟩) fun _ => holds_check (fun _ => ⟨_, rfl⟩) fun _ =>
      holds_check (fun _ => ⟨_, rfl⟩) fun _ => ⟨_, rfl⟩

/-- The installations of one reviewed tree, in apply or check mode. -/
def Installs (sha256 : Data → String) (a : Args) (p : Run Status) : Prop :=
  ∃ check, p = install sha256 a check

theorem runs_shape {i : Dir} {t : State} (prepared : Prepared sha256 a i s)
    (runs : Runs disk.semantics (Installs sha256 a) s t) : Shape sha256 a t := by
  refine runs.invariant ?_ (.prepared prepared)
  rintro p ⟨check, rfl⟩ u hu
  have kept := wp_invariant (I := Shape sha256 a) (fun _ _ _ _ h => h) hu
    (@install_holds _ _ _ check hu)
  exact wp_mono kept (fun _ _ _ h => h) fun _ _ h => h.2

lemma sampleTransaction_hex : matchesHex 32 "0123456789abcdef0123456789abcdef" = true := by decide +kernel

def sampleTransaction : Transaction := ⟨"0123456789abcdef0123456789abcdef", sampleTransaction_hex⟩

theorem disk_answers (x : Draw) (s : State) : ∃ y, disk.answers x s y := by
  cases x with
  | transaction => exact ⟨sampleTransaction, trivial⟩
  | identity => exact ⟨(0, 0), trivial⟩

/-- After any number of killed installations of a prepared ingress, the next installation runs
to its end and leaves exactly the reviewed tree, if and only if no journal was left without its
stage and without a target. -/
theorem install_recovers_iff {i : Dir} {s₀ : State} (prepared : Prepared sha256 a i s₀)
    (runs : Runs disk.semantics (Installs sha256 a) s₀ s) :
    (∀ out t, Exec disk.semantics (install sha256 a false) s out t → Succeeds sha256 a out t) ↔
      ¬Stranded s := by
  have shape := runs_shape prepared runs
  constructor
  · intro succeeds stranded
    obtain ⟨out, t, ran⟩ := exec_exists disk_answers (install sha256 a false) s
    obtain ⟨e, failed⟩ := wp_exec (install_stranded shape stranded) ran
    obtain ⟨⟨status, done⟩, -⟩ := succeeds out t ran
    rw [failed] at done
    cases done
  · exact fun free out t ran => wp_exec (install_holds shape) ran rfl free

/-- A reviewed tree with one principal for each role and an all-zero key. -/
def sampleArgs : Args where
  trustId := "reviewed-v1"
  requester := "host"
  response := "signer"
  bindings := [(.approvers, "digest"), (.policy, "digest"), (.requesters, "digest"),
    (.responses, "digest")]
  distinct := by decide
  complete n := by cases n <;> decide

def sampleSigner (principal : String) : Data := bytes (principal ++
  " ssh-ed25519 AAAAC3NzaC1lZDI1NTE5AAAAIAAAAAAAAAAAAAAAAAAAAAAAAAAAAAAAAAAAAAAAAAAA\n")

def sampleFiles : Files :=
  (((AList.singleton (FileName.trust .approvers) (sampleSigner "approver")).insert
    (FileName.trust .policy) (bytes ("\n".intercalate (policyPrefix ++
      ["approver_principal=approver", "response_principal=signer", ""])))).insert
    (FileName.trust .requesters) (sampleSigner "host")).insert
    (FileName.trust .responses) (sampleSigner "signer")

/-- The prepared ingress of the sample tree. -/
def sampleState : State := ⟨none, [], AList.singleton .ingress ⟨(1, 2), sampleFiles⟩⟩

theorem sample_prepared :
    Prepared (fun _ => "digest") sampleArgs ⟨(1, 2), sampleFiles⟩ sampleState := by
  refine ⟨rfl, rfl, entriesAre_iff.mp (by decide +kernel), rfl, ?_⟩
  change (validateTree (fun _ => "digest") sampleArgs sampleFiles).isSome = true
  decide +kernel

/-- One way the disk can answer and perform. -/
def sampleStep : (o : Op Write Draw) → State → Reply State Drawn o × State
  | .look, s => (s, s)
  | .ask .transaction, s => (sampleTransaction, s)
  | .ask .identity, s => ((1, 3), s)
  | .write w, s =>
    match w.apply s with
    | some t => (true, t)
    | none => (false, s)

theorem within_sampleStep : Within sampleStep disk.semantics := by
  intro o s
  cases o with
  | look => exact .look s
  | ask x => cases x <;> exact .ask trivial
  | write w =>
    cases applied : w.apply s with
    | none =>
      simp only [sampleStep, applied]
      exact .refused (.inl applied)
    | some t =>
      simp only [sampleStep, applied]
      exact .wrote applied

theorem install_recovers_prepared : ∃ out t,
    Exec disk.semantics (install (fun _ => "digest") sampleArgs false) sampleState out t ∧
    Succeeds (fun _ => "digest") sampleArgs out t := by
  obtain ⟨out, t, ran⟩ := exec_exists disk_answers (install (fun _ => "digest") sampleArgs false)
    sampleState
  have unstranded : ¬Stranded sampleState := by
    rintro ⟨journaled, -⟩
    cases journaled
  exact ⟨out, t, ran, (install_recovers_iff sample_prepared (.refl sampleState)).mpr unstranded
    out t ran⟩

/-- An installation killed after its journal, and a recovery killed between the removal of the
stage and that of the journal. -/
def sampleStranded : State :=
  after sampleStep 3 (install (fun _ => "digest") sampleArgs false)
    (after sampleStep 7 (install (fun _ => "digest") sampleArgs false) sampleState)

theorem stranded_journal_blocks : ¬∀ (i : Dir) (s₀ s : State),
    Prepared (fun _ => "digest") sampleArgs i s₀ →
    Runs disk.semantics (Installs (fun _ => "digest") sampleArgs) s₀ s → ∀ out t,
      Exec disk.semantics (install (fun _ => "digest") sampleArgs false) s out t →
      Succeeds (fun _ => "digest") sampleArgs out t := by
  intro recovers
  have runs : Runs disk.semantics (Installs (fun _ => "digest") sampleArgs) sampleState
      sampleStranded :=
    ((Runs.refl _).step ⟨false, rfl⟩ (within_sampleStep.killed 7 _ _)).step ⟨false, rfl⟩
      (within_sampleStep.killed 3 _ _)
  have stranded : sampleStranded.journal.isSome = true ∧ .target ∉ sampleStranded.trust ∧
      sampleStranded.stages = [] := by decide +kernel
  obtain ⟨out, t, ran⟩ := exec_exists disk_answers (install (fun _ => "digest") sampleArgs false)
    sampleStranded
  obtain ⟨e, failed⟩ := wp_exec (install_stranded (runs_shape sample_prepared runs) stranded) ran
  obtain ⟨⟨status, done⟩, -⟩ := recovers _ _ _ sample_prepared runs out t ran
  rw [failed] at done
  cases done

end PlatformConfig.TrustRecovery
