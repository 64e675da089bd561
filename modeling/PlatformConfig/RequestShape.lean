import PlatformConfig.RequestHelper

/-!
# What request runs leave

Every published request was validated by some run before it got its name, at most one of them has
no terminal record, and a staging directory stands only under its whole journal. Each write of the
helper keeps this where the helper performs it.
-/
namespace PlatformConfig.HostRequest

open CrashProgram CrashDisk Prog
open GuardPlan (matchesHex)
open RecordText

variable {t : Tools} {P : Args → ℕ → Prop} {root r r' : String} {s u v : State} {e e' : Entry} {n : Node}

/-! ## Entries of the pending root -/

@[simp] theorem put_journal : (s.put e n).journal = s.journal := rfl
@[simp] theorem drop_journal : (s.drop e).journal = s.journal := rfl

lemma node_some (there : s.node e = some n) : s.pending.isSome = true := by
  cases at_ : s.pending with
  | none => simp [State.node, at_] at there
  | some tree => rfl

lemma node_put (there : s.pending.isSome = true) :
    (s.put e n).node e' = if e' = e then some n else s.node e' := by
  obtain ⟨tree, at_⟩ := Option.isSome_iff_exists.mp there
  simp only [State.node, State.put, at_, Option.map_some, Option.bind_some]
  split_ifs with same
  · rw [same, AList.lookup_insert]
  · exact AList.lookup_insert_ne same

lemma node_drop : (s.drop e).node e' = if e' = e then none else s.node e' := by
  cases at_ : s.pending with
  | none => simp [State.node, State.drop, at_]
  | some tree =>
    simp only [State.node, State.drop, at_, Option.map_some, Option.bind_some]
    split_ifs with same
    · rw [same, AList.lookup_erase]
    · exact AList.lookup_erase_ne same

lemma mem_pending {tree : AList fun _ : Entry => Node} (at_ : s.pending = some tree) :
    e ∈ tree.keys ↔ (s.node e).isSome = true := by
  simp only [State.node, at_, Option.bind_some, AList.lookup_isSome, AList.mem_keys]

/-! ## Terminal records -/

/-- A terminal record of the request is in the state root. -/
def Recorded (s : State) (r : String) : Prop :=
  (∃ d q, s.terminal = some (.ok d) ∧ parseTargetTerminal d none = .ok q ∧ q.requestId = r) ∨
    ∃ h d q, s.history = some (.ok h) ∧ h.lookup r = some (.ok d) ∧
      parseTargetTerminal d (some r) = .ok q

lemma completedTerminal_eq {a : Args} {ids : List String} (read : completedTerminal a s = .ok ids) :
    r ∈ ids ↔ ∃ d q, s.terminal = some (.ok d) ∧ parseTargetTerminal d none = .ok q ∧ q.requestId = r := by
  unfold completedTerminal at read
  cases at_ : s.terminal with
  | none =>
    simp only [at_] at read
    cases read
    simp
  | some file =>
    simp only [at_] at read
    obtain ⟨d, safe, read⟩ := Fallible.bind_eq_ok.mp read
    obtain ⟨q, parsed, read⟩ := Fallible.bind_eq_ok.mp read
    obtain ⟨-, made⟩ := Fallible.ensure_bind_ok.mp read
    obtain ⟨same, -⟩ := readSafe_eq.mp safe
    cases same
    cases made
    rw [List.mem_singleton]
    constructor
    · rintro rfl
      exact ⟨d, q, rfl, parsed, rfl⟩
    · rintro ⟨d', q', same, parsed', rfl⟩
      cases same
      rw [parsed] at parsed'
      cases parsed'
      rfl

lemma completedEntry_eq {a : Args} {x : Sigma fun _ : String => File}
    (read : completedEntry a x = .ok r) :
    x.1 = r ∧ ∃ d q, x.2 = .ok d ∧ parseTargetTerminal d (some r) = .ok q := by
  obtain ⟨-, read⟩ := Fallible.ensure_bind_ok.mp read
  obtain ⟨d, safe, read⟩ := Fallible.bind_eq_ok.mp read
  obtain ⟨q, parsed, read⟩ := Fallible.bind_eq_ok.mp read
  obtain ⟨-, made⟩ := Fallible.ensure_bind_ok.mp read
  obtain ⟨same, -⟩ := readSafe_eq.mp safe
  cases made
  exact ⟨rfl, d, q, Option.some.inj same, parsed⟩

/-- The completed requests are the recorded ones. -/
theorem completed_eq {a : Args} {ids : List String} (read : completedTargetRequestIds a s = .ok ids) :
    r ∈ ids ↔ Recorded s r := by
  obtain ⟨current, first, read⟩ := Fallible.bind_eq_ok.mp read
  have terminal := completedTerminal_eq (r := r) first
  cases at_ : s.history with
  | none =>
    simp only [at_] at read
    cases read
    simp [Recorded, terminal, at_]
  | some h =>
    simp only [at_] at read
    obtain ⟨h, found, read⟩ := Fallible.bind_eq_ok.mp read
    obtain ⟨past, each, made⟩ := Fallible.bind_eq_ok.mp read
    have there := requireDir_eq.mp found
    cases made
    cases there
    rw [List.mem_append, terminal, Recorded]
    refine or_congr_right ⟨fun mem => ?_, ?_⟩
    · obtain ⟨x, in_, read⟩ := Fallible.mapM_right each mem
      obtain ⟨same, d, q, file, parsed⟩ := completedEntry_eq read
      refine ⟨h, d, q, at_, AList.mem_lookup_iff.mpr ?_, parsed⟩
      rwa [← file, ← same]
    · rintro ⟨h', d, q, same, found, parsed⟩
      rw [at_] at same
      cases same
      obtain ⟨r', in_, read⟩ := Fallible.mapM_left each (AList.mem_lookup_iff.mp found)
      obtain ⟨rfl, -⟩ := completedEntry_eq read
      exact in_

/-! ## The invariant -/

/-- The journal of the request `r` under the pending root `root`. -/
def journalFor (root r : String) : Data := journalContent r (stagingName r) root

/-- Some run found the directory to be the whole and valid request `r`. -/
def Sealed (t : Tools) (P : Args → ℕ → Prop) (r : String) (n : Node) : Prop :=
  ∃ a now result, P a now ∧ validatePendingDirectory t a now r (some n) = .ok result

/-- A staging directory holds no file but those that the helper writes. -/
def Staged (n : Node) : Prop :=
  ∃ files, n = .ok files ∧ ∀ f file, files.lookup f = some file → isStaged f = true ∧ ∃ d, file = .ok d

/-- The states that runs leave, where `P` says which arguments a run may have and what time it can
see. -/
structure Shape (t : Tools) (P : Args → ℕ → Prop) (root : String) (s : State) : Prop where
  journal : ∀ file, s.journal = some file →
    ∃ r front, matchesHex 32 r = true ∧ front <+: journalFor root r ∧ file = .ok front
  published : ∀ r n, s.node (.request r) = some n → Sealed t P r n
  staged : ∀ r n, s.node (.stage r) = some n →
    matchesHex 32 r = true ∧ s.journal = some (.ok (journalFor root r)) ∧ Staged n
  others : ∀ name, s.node (.other name) = none
  single : ∀ r r', (s.node (.request r)).isSome = true → (s.node (.request r')).isSome = true →
    ¬Recorded s r → ¬Recorded s r' → r = r'

/-- What a run leaves as it was: the records of the lifecycle and every published request. -/
structure Kept (s u : State) : Prop where
  active : u.active = s.active
  rollback : u.rollback = s.rollback
  terminal : u.terminal = s.terminal
  history : u.history = s.history
  others : u.others = s.others
  published : ∀ r n, s.node (.request r) = some n → u.node (.request r) = some n

lemma Kept.refl (s : State) : Kept s s := ⟨rfl, rfl, rfl, rfl, rfl, fun _ _ there => there⟩

lemma Kept.trans (h : Kept s u) (h' : Kept u v) : Kept s v :=
  ⟨h'.active.trans h.active, h'.rollback.trans h.rollback, h'.terminal.trans h.terminal,
    h'.history.trans h.history, h'.others.trans h.others,
    fun r n there => h'.published r n (h.published r n there)⟩

lemma Kept.recorded (h : Kept s u) : Recorded u r ↔ Recorded s r := by
  rw [Recorded, Recorded, h.terminal, h.history]

lemma Kept.completed {a : Args} (h : Kept s u) :
    completedTargetRequestIds a u = completedTargetRequestIds a s := by
  simp only [completedTargetRequestIds, completedTerminal, h.terminal, h.history]

/-! ## The journal -/

lemma hex_visible {c : Char} (h : GuardPlan.isLowerHex c = true) : isVisible c = true := by
  simp only [GuardPlan.isLowerHex, Bool.or_eq_true, Bool.and_eq_true, decide_eq_true_eq] at h
  simp only [isVisible, Bool.and_eq_true, decide_eq_true_eq]
  rcases h with digit | ⟨low, high⟩
  · simp only [Char.isDigit, Bool.and_eq_true, decide_eq_true_eq, UInt32.le_iff_toNat_le] at digit
    exact ⟨le_trans (by decide) digit.1, le_trans digit.2 (by decide)⟩
  · exact ⟨le_trans (by decide) low, le_trans high (by decide)⟩

lemma hex_token {k : ℕ} (pos : 0 < k) (h : matchesHex k r = true) : isToken r.toList = true := by
  simp only [matchesHex, Bool.and_eq_true, decide_eq_true_eq, List.all_eq_true] at h
  simp only [isToken, Bool.and_eq_true, decide_eq_true_eq, List.all_eq_true]
  refine ⟨fun none_ => ?_, fun c mem => hex_visible (h.2 c mem)⟩
  rw [none_] at h
  simp at h
  omega

lemma journal_tokens (hex : matchesHex 32 r = true) (token : isToken root.toList = true) :
    ∀ v ∈ [r, stagingName r, root], isToken v.toList = true := by
  have here := hex_token (by decide) hex
  have stage : isToken (stagingName r).toList = true := by
    simp only [isToken, Bool.and_eq_true, decide_eq_true_eq, List.all_eq_true] at here
    simp only [stagingName, String.toList_append, isToken, Bool.and_eq_true, decide_eq_true_eq,
      List.all_append, List.all_eq_true]
    exact ⟨by simp, List.all_eq_true.mp (by decide), here.2⟩
  simp [here, stage, token]

lemma parse_journalFor (hex : matchesHex 32 r = true) (token : isToken root.toList = true) :
    parseJournal (journalFor root r) = .ok ⟨"2", r, stagingName r, root⟩ :=
  parseJournal_content (journal_tokens hex token)

lemma journalFor_inj (hex : matchesHex 32 r = true) (hex' : matchesHex 32 r' = true)
    (token : isToken root.toList = true) (same : journalFor root r = journalFor root r') : r = r' := by
  have read := parse_journalFor hex token
  rw [same, parse_journalFor hex' token] at read
  cases read
  rfl

/-! ## The writes -/

lemma Kept.of_journal {j : Option File} : Kept s { s with journal := j } :=
  ⟨rfl, rfl, rfl, rfl, rfl, fun _ _ there => there⟩

lemma Shape.newJournal {front : Data} (h : Shape t P root s) (hex : matchesHex 32 r = true)
    (part : front <+: journalFor root r) (unstaged : ∀ r, s.node (.stage r) = none) :
    Shape t P root { s with journal := some (.ok front) } := by
  refine ⟨fun file there => ?_, h.published, fun r' n there => ?_, h.others, h.single⟩
  · cases there
    exact ⟨r, front, hex, part, rfl⟩
  · have none_ : s.node (.stage r') = some n := there
    rw [unstaged] at none_
    cases none_

lemma Shape.unlinkJournal (h : Shape t P root s) (unstaged : ∀ r, s.node (.stage r) = none) :
    Shape t P root { s with journal := none } := by
  refine ⟨fun file there => (by cases there), h.published, fun r' n there => ?_, h.others, h.single⟩
  have none_ : s.node (.stage r') = some n := there
  rw [unstaged] at none_
  cases none_

lemma node_empty (absent : s.pending = none) (e : Entry) :
    ({ s with pending := some ∅ } : State).node e = s.node e := by
  simp [State.node, absent]

lemma Shape.mkdirPending (h : Shape t P root s) (absent : s.pending = none) :
    Shape t P root { s with pending := some ∅ } := by
  have same := node_empty absent
  refine ⟨h.journal, fun r n there => ?_, fun r n there => ?_, fun name => ?_, fun r r' there there' => ?_⟩
  · exact h.published r n (by rwa [same] at there)
  · exact h.staged r n (by rwa [same] at there)
  · rw [same]
    exact h.others name
  · rw [same] at there there'
    exact h.single r r' there there'

lemma Kept.mkdirPending (absent : s.pending = none) : Kept s { s with pending := some ∅ } :=
  ⟨rfl, rfl, rfl, rfl, rfl, fun _ _ there => by rwa [node_empty absent]⟩

/-- A staging directory is created under its journal, or its files change. -/
lemma Shape.stage (h : Shape t P root s) (there : s.pending.isSome = true)
    (hex : matchesHex 32 r = true) (journal : s.journal = some (.ok (journalFor root r)))
    (staged : Staged n) : Shape t P root (s.put (.stage r) n) := by
  refine ⟨h.journal, fun r' n' at_ => ?_, fun r' n' at_ => ?_, fun name => ?_, fun r₁ r₂ at_ at_' => ?_⟩
  · rw [node_put there, if_neg (by simp)] at at_
    exact h.published r' n' at_
  · rw [node_put there] at at_
    split_ifs at at_ with same
    · cases same
      cases at_
      exact ⟨hex, journal, staged⟩
    · exact h.staged r' n' at_
  · rw [node_put there, if_neg (by simp)]
    exact h.others name
  · rw [node_put there, if_neg (by simp)] at at_ at_'
    exact h.single r₁ r₂ at_ at_'

lemma Kept.stage (there : s.pending.isSome = true) : Kept s (s.put (.stage r) n) :=
  ⟨rfl, rfl, rfl, rfl, rfl, fun _ _ at_ => by rwa [node_put there, if_neg (by simp)]⟩

lemma Shape.rmdirStage (h : Shape t P root s) : Shape t P root (s.drop (.stage r)) := by
  refine ⟨h.journal, fun r' n' at_ => ?_, fun r' n' at_ => ?_, fun name => ?_, fun r₁ r₂ at_ at_' => ?_⟩
  · rw [node_drop, if_neg (by simp)] at at_
    exact h.published r' n' at_
  · rw [node_drop] at at_
    split_ifs at at_ with same
    exact h.staged r' n' at_
  · rw [node_drop, if_neg (by simp)]
    exact h.others name
  · rw [node_drop, if_neg (by simp)] at at_ at_'
    exact h.single r₁ r₂ at_ at_'

lemma Kept.rmdirStage : Kept s (s.drop (.stage r)) :=
  ⟨rfl, rfl, rfl, rfl, rfl, fun _ _ at_ => by rwa [node_drop, if_neg (by simp)]⟩

/-- A staging directory under its published name. -/
def State.publish (s : State) (r : String) (n : Node) : State := (s.drop (.stage r)).put (.request r) n

lemma node_publish (there : s.pending.isSome = true) : (s.publish r n).node e =
    if e = .request r then some n else if e = .stage r then none else s.node e := by
  have there' : (s.drop (.stage r)).pending.isSome = true := by
    simpa [State.drop] using there
  rw [State.publish, node_put there', node_drop]

lemma Shape.publish (h : Shape t P root s) (staged : s.node (.stage r) = some n) (sealed_ : Sealed t P r n)
    (complete : ∀ r', (s.node (.request r')).isSome = true → Recorded s r') :
    Shape t P root (s.publish r n) := by
  have node : ∀ e, (s.publish r n).node e =
      if e = .request r then some n else if e = .stage r then none else s.node e :=
    fun e => node_publish (node_some staged)
  refine ⟨h.journal, fun r' n' at_ => ?_, fun r' n' at_ => ?_, fun name => ?_, fun r₁ r₂ at_ at_' new new' => ?_⟩
  · rw [node] at at_
    split_ifs at at_ with same
    · cases same
      cases at_
      exact sealed_
    · exact h.published r' n' at_
  · rw [node, if_neg (by simp)] at at_
    split_ifs at at_ with same
    exact h.staged r' n' at_
  · rw [node, if_neg (by simp), if_neg (by simp)]
    exact h.others name
  · -- Everything that was published before has its terminal record.
    have only : ∀ r', ((s.publish r n).node (.request r')).isSome = true → ¬Recorded s r' → r' = r := by
      intro r' there open_
      by_contra other
      rw [node, if_neg (by simp [other]), if_neg (by simp)] at there
      exact open_ (complete r' there)
    rw [only r₁ at_ new, only r₂ at_' new']

lemma Kept.publish (staged : s.node (.stage r) = some n) (free : s.node (.request r) = none) :
    Kept s (s.publish r n) := by
  refine ⟨rfl, rfl, rfl, rfl, rfl, fun r' n' at_ => ?_⟩
  rw [node_publish (node_some staged), if_neg, if_neg (by simp)]
  · exact at_
  · rintro ⟨⟩
    rw [free] at at_
    cases at_

lemma change_eq {f : Files → Option Files} : s.change r f = some u ↔
    ∃ files files', s.node (.stage r) = some (.ok files) ∧ f files = some files' ∧
      u = s.put (.stage r) (.ok files') := by
  unfold State.change
  rcases s.node (.stage r) with _ | (flaw | files)
  · simp
  · simp
  · simp only [Option.map_eq_some_iff, Option.some.injEq, Except.ok.injEq]
    constructor
    · rintro ⟨files', changed, rfl⟩
      exact ⟨files, files', rfl, changed, rfl⟩
    · rintro ⟨files, files', rfl, changed, rfl⟩
      exact ⟨files', changed, rfl⟩

lemma Staged.empty : Staged (.ok ∅) := ⟨∅, rfl, fun f file at_ => by simp at at_⟩

lemma Staged.insert {files : Files} {f : FileName} {d : Data} (h : Staged (.ok files))
    (known : isStaged f = true) : Staged (.ok (files.insert f (.ok d))) := by
  obtain ⟨files', same, each⟩ := h
  cases same
  refine ⟨_, rfl, fun f' file at_ => ?_⟩
  by_cases here : f' = f
  · rw [here, AList.lookup_insert] at at_
    cases at_
    exact ⟨here ▸ known, d, rfl⟩
  · rw [AList.lookup_insert_ne here] at at_
    exact each f' file at_

lemma Staged.erase {files : Files} (h : Staged (.ok files)) (f : FileName) :
    Staged (.ok (files.erase f)) := by
  obtain ⟨files', same, each⟩ := h
  cases same
  refine ⟨_, rfl, fun f' file at_ => ?_⟩
  by_cases here : f' = f
  · rw [here, AList.lookup_erase] at at_
    cases at_
  · rw [AList.lookup_erase_ne here] at at_
    exact each f' file at_

end PlatformConfig.HostRequest
