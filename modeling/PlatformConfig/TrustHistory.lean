import PlatformConfig.CrashTurns
import PlatformConfig.TrustRecovery

/-!
# The trust root over time

The trust root by its names, for any trust IDs. `prepare` and `install` run on it one at a
time; a write can fail, and a kill or a failure inside one can leave a partial file. A tree
that was published stays as it is, and no second one is published.
-/
namespace PlatformConfig.TrustHistory

open GuardPlan CrashProgram CrashDisk CrashTurns TrustTree TrustInstall Prog
open TrustRecovery (Valid put_lookup drop_lookup)

section Renaming
variable {α β γ : Type} [DecidableEq α] [DecidableEq β]

/-- The same entries under other names. -/
def rename (f : α → β) (l : AList fun _ : α => γ) : AList fun _ : β => γ :=
  (l.entries.map fun e => (⟨f e.1, e.2⟩ : Sigma fun _ : β => γ)).toAList

lemma dedupKeys_eq {l : List (Sigma fun _ : α => γ)} (nodup : l.NodupKeys) : l.dedupKeys = l := by
  induction l with
  | nil => rfl
  | cons e l ih =>
    obtain ⟨fresh, rest⟩ := List.nodupKeys_cons.mp nodup
    rw [List.dedupKeys_cons, ih rest, List.kinsert_def, List.kerase_of_notMem_keys fresh]

variable {f : α → β} {l : AList fun _ : α => γ}

lemma lookup_rename (injective : Function.Injective f) (x : α) :
    (rename f l).lookup (f x) = l.lookup x := by
  rw [rename, AList.lookup_to_alist, AList.lookup]
  induction l.entries with
  | nil => rfl
  | cons e rest ih =>
    obtain ⟨y, c⟩ := e
    by_cases same : x = y
    · subst same
      rw [List.map_cons, List.dlookup_cons_eq, List.dlookup_cons_eq]
    · have apart : f x ≠ f y := fun eq => same (injective eq)
      have left := List.dlookup_cons_ne rest (⟨y, c⟩ : Sigma fun _ : α => γ) same
      exact (List.dlookup_cons_ne _ (⟨f y, c⟩ : Sigma fun _ : β => γ) apart).trans (ih.trans left.symm)

omit [DecidableEq α] in
lemma mem_rename {e : β} : e ∈ rename f l ↔ ∃ x ∈ l, f x = e := by
  rw [← AList.lookup_isSome, rename, AList.lookup_to_alist, List.dlookup_isSome, List.keys, List.map_map]
  simp only [List.mem_map, Function.comp_apply, AList.mem_keys, AList.keys, List.keys]
  constructor
  · rintro ⟨x, mem, rfl⟩
    exact ⟨x.1, ⟨x, mem, rfl⟩, rfl⟩
  · rintro ⟨_, ⟨x, mem, rfl⟩, rfl⟩
    exact ⟨x, mem, rfl⟩

/-- Renaming back gives the same entries again. -/
lemma rename_back {g : β → α} (back : ∀ x ∈ l, g (f x) = x) : rename g (rename f l) = l := by
  have keys : ∀ e ∈ l.entries, g (f e.1) = e.1 := fun e mem =>
    back e.1 (AList.mem_keys.mpr (List.mem_map_of_mem mem))
  have nodup : (l.entries.map fun e => (⟨f e.1, e.2⟩ : Sigma fun _ : β => γ)).NodupKeys := by
    have distinct : (l.entries.map Sigma.fst).Nodup := l.nodupKeys
    have images : ((l.entries.map Sigma.fst).map f).Nodup := by
      refine List.Nodup.map_on (fun x mem y mem' same => ?_) distinct
      obtain ⟨e, there, rfl⟩ := List.mem_map.mp mem
      obtain ⟨e', there', rfl⟩ := List.mem_map.mp mem'
      rw [← keys e there, ← keys e' there', same]
    rw [List.NodupKeys, List.keys, List.map_map]
    rwa [List.map_map] at images
  apply AList.ext
  simp only [rename, AList.entries_toAList]
  rw [dedupKeys_eq nodup, List.map_map]
  have same : l.entries.map ((fun e => (⟨g e.1, e.2⟩ : Sigma fun _ : α => γ)) ∘
      fun e => (⟨f e.1, e.2⟩ : Sigma fun _ : β => γ)) = l.entries := by
    refine (List.map_congr_left fun e mem => ?_).trans (List.map_id _)
    obtain ⟨x, c⟩ := e
    have here : g (f x) = x := keys ⟨x, c⟩ mem
    simp [here]
  rw [same, dedupKeys_eq l.nodupKeys]

end Renaming

/-- `TRUST_ID_RE` -/
def isTrustId (s : String) : Bool :=
  match s.toList with
  | [] => false
  | c :: cs => c.isAlphanum && cs.length ≤ 127 &&
    cs.all fun c => c.isAlphanum || c = '.' || c = '_' || c = '-'

/-- The name of an entry of the trust root, for the trust ID `id`. -/
def entryName (id : String) : Entry → String
  | .ingress => ".ingress-" ++ id
  | .stage tx => ".stage-" ++ id ++ "-" ++ tx.val
  | .target => id
  | .other name => name

def stageOf (id name : String) : Option Transaction :=
  let tx := String.ofList (name.toList.drop (".stage-" ++ id ++ "-").toList.length)
  if h : matchesHex 32 tx = true ∧ ".stage-" ++ id ++ "-" ++ tx = name then some ⟨tx, h.1⟩ else none

/-- What a name of the trust root is for the trust ID `id`. -/
def classify (id name : String) : Entry :=
  if name = id then .target
  else if name = ".ingress-" ++ id then .ingress
  else match stageOf id name with
    | some tx => .stage tx
    | none => .other name

/-- The state root besides `lock` and `trust`, and the trust root by its names. -/
structure Root where
  journal : Option Journal
  others : List String
  trust : AList fun _ : String => Dir

/-- The state root as a run for the trust ID `id` sees it. -/
def Root.view (id : String) (r : Root) : State := ⟨r.journal, r.others, rename (classify id) r.trust⟩

/-- The state root that a run for the trust ID `id` leaves. -/
def Root.ofView (id : String) (s : State) : Root := ⟨s.journal, s.others, rename (entryName id) s.trust⟩

/-- The published tree of a trust ID. -/
def Root.tree (r : Root) (id : String) : Option Dir := r.trust.lookup id

/-- A journal that was only partly written: no trust ID and no binding reads so. -/
def partialJournal : Journal :=
  ⟨"", ⟨String.ofList (List.replicate 32 '0'), by decide⟩, (0, 0), (0, 0), []⟩

/-- What a kill or a failure inside a write leaves: a part of a file, or of the journal. -/
inductive Torn : Write → State → State → Prop
  | journal {j s} (free : s.journal = none) :
      Torn (.writeJournal j) s { s with journal := some partialJournal }
  | file {e f d s t} (n : ℕ) (created : s.change e (createFile f (d.take n)) = some t) :
      Torn (.writeFile e f d) s t

/-- The state root of an installation, with failing and with torn writes. -/
def rough : Disk State Write Draw Drawn where
  apply := Write.apply
  answers _ _ _ := True
  fails _ := True
  torn := Torn

/-- The writes to the trust root: those of a run for a trust ID, and the creation of its ingress. -/
inductive RootWrite
  | entry (id : String) (w : Write)
  | mkdirIngress (id : String) (i : Identity)

def RootWrite.apply : RootWrite → Root → Option Root
  | .entry id w, r => (w.apply (r.view id)).map (Root.ofView id)
  | .mkdirIngress id i, r =>
    if ".ingress-" ++ id ∈ r.trust then none
    else some { r with trust := r.trust.insert (".ingress-" ++ id) ⟨i, ∅⟩ }

inductive RootTorn : RootWrite → Root → Root → Prop
  | entry {id w r s} (torn : Torn w (r.view id) s) : RootTorn (.entry id w) r (.ofView id s)

def rootDisk : Disk Root RootWrite Draw Drawn where
  apply := RootWrite.apply
  answers _ _ _ := True
  fails _ := True
  torn := RootTorn

abbrev RootRun := Program Root RootWrite Draw Drawn String

/-- A run for the trust ID `id` on the whole root. -/
def onRoot {α : Type} (id : String) (p : Run α) : RootRun α := focus (Root.view id) (.entry id) p

/-- The names that `prepare` admits, after the recovery of a stage without a journal. -/
def admitted (id : String) (r : Root) : RootRun (List Entry) :=
  match r.journal with
  | some j => do
    require (j.trustId = id) "trust installation journal belongs to another trust identity"
    return [.ingress, .stage j.transaction]
  | none => do
    onRoot id (recoverEmptyUnjournaledStage (r.view id))
    return [.ingress]

/-- An ingress holds trust files only, each readable. -/
def checkIngress (files : Files) : RootRun Unit := do
  require (files.keys.all fun f => match f with
    | .trust _ => true
    | _ => false) "target trust ingress contains unexpected state"
  require (files.entries.all fun f => 0 < f.2.length && f.2.length ≤ maxTrustSize)
    "target trust ingress file has an unsafe size"

/-- `prepare`, on a state root whose lock and trust root are there. -/
def prepare (id : String) : RootRun Unit := do
  require (isTrustId id) "trust ID is not canonical"
  let r ← look
  require (r.others = []) "state root contains unexpected state"
  let names ← admitted id r
  let t ← look
  require (.target ∉ (t.view id).trust)
    "target trust is already installed; prepare cannot rotate or replace it"
  require (∀ e ∈ (t.view id).trust.keys, e ∈ names)
    "state trust root contains another trust ID or unexpected state"
  match (t.view id).trust.lookup .ingress with
  | some ingress => checkIngress ingress.files
  | none => do
    let i ← ask .identity
    write (.mkdirIngress id i) "cannot create target trust ingress"

/-- A run of the helper. -/
inductive Command
  | prepare (id : String)
  | install (a : Args) (check : Bool)

def Command.body (sha256 : Data → String) : Command → RootRun Unit
  | .prepare id => TrustHistory.prepare id
  | .install a check => do
    require (isTrustId a.trustId) "trust ID is not canonical"
    let _ ← onRoot a.trustId (TrustInstall.install sha256 a check)

/-- Between two runs anything can happen to ingresses, and to what other helpers keep beside them. -/
structure Changes (r t : Root) : Prop where
  journal : t.journal = r.journal
  trust : ∀ name, (∀ id, name ≠ ".ingress-" ++ id) → t.trust.lookup name = r.trust.lookup name

def helper (sha256 : Data → String) :
    Turns Command (Op RootWrite Draw) (Reply Root Drawn) String Unit Root where
  body := Command.body sha256
  semantics := rootDisk.semantics
  changes := Changes

/-! ## Names -/

variable {id name : String} {s t u : State} {sha256 : Data → String} {a : Args} {check : Bool}

lemma stageOf_some {tx : Transaction} : stageOf id name = some tx ↔ name = entryName id (.stage tx) := by
  simp only [stageOf, Option.dite_none_right_eq_some]
  constructor
  · rintro ⟨⟨-, same⟩, ⟨⟩⟩
    exact same.symm
  · rintro rfl
    have split : (entryName id (.stage tx)).toList = (".stage-" ++ id ++ "-").toList ++ tx.val.toList :=
      String.toList_append ..
    have rest : String.ofList ((entryName id (.stage tx)).toList.drop
        (".stage-" ++ id ++ "-").toList.length) = tx.val := by
      rw [split, List.drop_left, String.ofList_toList]
    refine ⟨⟨by rw [rest]; exact tx.property, by rw [rest, entryName]⟩, ?_⟩
    simp only [rest, Subtype.coe_eta]

lemma entryName_classify : entryName id (classify id name) = name := by
  unfold classify
  split_ifs with target ingress
  · exact target.symm
  · exact ingress.symm
  · cases found : stageOf id name with
    | none => rfl
    | some tx => exact (stageOf_some.mp found).symm

lemma classify_injective : Function.Injective (classify id) :=
  Function.LeftInverse.injective fun _ => entryName_classify

lemma length_ne {x y : String} (h : x.toList.length ≠ y.toList.length) : x ≠ y := by
  rintro rfl
  exact h rfl

/-- The names of a run's own entries are recognised. -/
lemma classify_entryName {e : Entry} (own : ∀ n, e ≠ .other n) : classify id (entryName id e) = e := by
  cases e with
  | target => simp [classify, entryName]
  | ingress =>
    have apart : ".ingress-" ++ id ≠ id := length_ne (by simp; omega)
    simp [classify, entryName, apart]
  | stage tx =>
    have apart : ".stage-" ++ id ++ "-" ++ tx.val ≠ id := length_ne (by simp; omega)
    have second : ".stage-" ++ id ++ "-" ++ tx.val ≠ ".ingress-" ++ id := by
      intro same
      have := congrArg String.toList same
      simp at this
    have found : stageOf id (".stage-" ++ id ++ "-" ++ tx.val) = some tx := stageOf_some.mpr rfl
    simp [classify, entryName, apart, second, found]
  | other n => exact absurd rfl (own n)

/-- Another trust ID is neither the run's own nor the name of one of its entries. -/
lemma classify_other {other : String} (valid : isTrustId other = true) (apart : other ≠ id) :
    classify id other = .other other := by
  have head : ∀ rest : String, ("." ++ rest) ≠ other := by
    rintro rest rfl
    simp [isTrustId] at valid
  have ingress : other ≠ ".ingress-" ++ id := fun same => head ("ingress-" ++ id) (by
    rw [same, ← String.append_assoc]
    rfl)
  have stage : stageOf id other = none := by
    cases found : stageOf id other with
    | none => rfl
    | some tx =>
      refine absurd ?_ (head ("stage-" ++ id ++ "-" ++ tx.val))
      rw [stageOf_some.mp found, entryName, ← String.append_assoc, ← String.append_assoc,
        ← String.append_assoc]
      rfl
  simp [classify, apart, ingress, stage]

lemma lookup_view {r : Root} : (r.view id).trust.lookup (classify id name) = r.trust.lookup name :=
  lookup_rename classify_injective name

/-- Every entry has the name that it is recognised by. -/
def Canonical (id : String) (s : State) : Prop := ∀ e ∈ s.trust, classify id (entryName id e) = e

lemma canonical_view (r : Root) : Canonical id (r.view id) := by
  intro e mem
  obtain ⟨name, -, rfl⟩ := mem_rename.mp mem
  rw [entryName_classify]

lemma view_ofView (h : Canonical id s) : (Root.ofView id s).view id = s := by
  simp only [Root.view, Root.ofView, rename_back h]

lemma Canonical.put {e : Entry} {d : Dir} (h : Canonical id s) (here : classify id (entryName id e) = e) :
    Canonical id (s.put e d) := by
  intro e' mem
  rw [State.put, AList.mem_insert] at mem
  rcases mem with rfl | mem
  · exact here
  · exact h e' mem

lemma Canonical.drop {e : Entry} (h : Canonical id s) : Canonical id (s.drop e) := by
  intro e' mem
  rw [State.drop, AList.mem_erase] at mem
  exact h e' mem.2

lemma Canonical.change {e : Entry} {change : Files → Option Files} (h : Canonical id s)
    (changed : s.change e change = some t) : Canonical id t := by
  obtain ⟨d, there, changed⟩ := Option.bind_eq_some_iff.mp changed
  obtain ⟨files, -, same⟩ := Option.bind_eq_some_iff.mp changed
  cases same
  exact h.put (h e (AList.lookup_isSome.mp (by rw [there]; rfl)))

lemma Canonical.apply {w : Write} (h : Canonical id s) (applied : w.apply s = some t) :
    Canonical id t := by
  cases w with
  | mkdirStage tx i =>
    obtain ⟨-, ⟨⟩⟩ := Option.ite_none_left_eq_some.mp applied
    exact h.put (classify_entryName (by simp))
  | writeJournal j =>
    obtain ⟨-, ⟨⟩⟩ := Option.ite_none_left_eq_some.mp applied
    exact h
  | writeFile e f d => exact h.change applied
  | publishFile e f g => exact h.change applied
  | publishTree tx =>
    obtain ⟨d, -, moved⟩ := Option.bind_eq_some_iff.mp applied
    obtain ⟨-, ⟨⟩⟩ := Option.ite_none_left_eq_some.mp moved
    exact h.drop.put (classify_entryName (by simp))
  | unlinkFile e f => exact h.change applied
  | rmdir e =>
    obtain ⟨d, -, removed⟩ := Option.bind_eq_some_iff.mp applied
    obtain ⟨-, ⟨⟩⟩ := Option.ite_none_right_eq_some.mp removed
    exact h.drop
  | unlinkJournal =>
    obtain ⟨-, ⟨⟩⟩ := Option.ite_none_right_eq_some.mp applied
    exact h

lemma Canonical.torn {w : Write} (h : Canonical id s) (torn : Torn w s t) : Canonical id t := by
  cases torn with
  | journal free => exact h
  | file n created => exact h.change created

/-- A run on its view of the root does to the root what it does to the view. -/
lemma root_focuses : Focuses rough rootDisk (Root.view id) (.entry id) where
  apply applied := by
    obtain ⟨s, written, rfl⟩ := Option.map_eq_some_iff.mp applied
    rw [view_ofView ((canonical_view _).apply written)]
    exact written
  refused refused := Option.map_eq_none_iff.mp refused
  answers _ := trivial
  fails _ := trivial
  torn torn := by
    cases torn with
    | entry torn =>
      rw [view_ofView ((canonical_view _).torn torn)]
      exact torn

/-! ## What a run does to the published trees -/

/-- An entry that is neither the run's ingress nor one of its stages. -/
def Apart : Entry → Prop
  | .ingress | .stage _ => False
  | .target | .other _ => True

/-- Every entry apart from the ingress and the stages of the run is as it was. -/
def Kept (s t : State) : Prop := ∀ e, Apart e → t.trust.lookup e = s.trust.lookup e

lemma Kept.refl (s : State) : Kept s s := fun _ _ => rfl

lemma Kept.trans (first : Kept s t) (second : Kept t u) : Kept s u := fun e apart =>
  (second e apart).trans (first e apart)

lemma kept_put {e : Entry} {d : Dir} (own : ¬Apart e) : Kept s (s.put e d) := by
  intro e' apart
  have differs : e' ≠ e := by
    rintro rfl
    exact own apart
  rw [put_lookup, if_neg differs]

lemma kept_drop {e : Entry} (own : ¬Apart e) : Kept s (s.drop e) := by
  intro e' apart
  have differs : e' ≠ e := by
    rintro rfl
    exact own apart
  rw [drop_lookup, if_neg differs]

lemma kept_change {e : Entry} {change : Files → Option Files} (own : ¬Apart e)
    (changed : s.change e change = some t) : Kept s t := by
  obtain ⟨d, -, changed⟩ := Option.bind_eq_some_iff.mp changed
  obtain ⟨files, -, same⟩ := Option.bind_eq_some_iff.mp changed
  cases same
  exact kept_put own

/-- A write to the journal, or inside an ingress or a stage. -/
def Minor : Write → Prop
  | .mkdirStage _ _ | .writeJournal _ | .unlinkJournal => True
  | .writeFile e _ _ | .publishFile e _ _ | .unlinkFile e _ | .rmdir e => ¬Apart e
  | .publishTree _ => False

lemma Minor.apply {w : Write} (minor : Minor w) (applied : w.apply s = some t) : Kept s t := by
  cases w with
  | mkdirStage tx i =>
    obtain ⟨-, ⟨⟩⟩ := Option.ite_none_left_eq_some.mp applied
    exact kept_put id
  | writeJournal j =>
    obtain ⟨-, ⟨⟩⟩ := Option.ite_none_left_eq_some.mp applied
    exact .refl s
  | writeFile e f d => exact kept_change minor applied
  | publishFile e f g => exact kept_change minor applied
  | publishTree tx => exact minor.elim
  | unlinkFile e f => exact kept_change minor applied
  | rmdir e =>
    obtain ⟨d, -, removed⟩ := Option.bind_eq_some_iff.mp applied
    obtain ⟨-, ⟨⟩⟩ := Option.ite_none_right_eq_some.mp removed
    exact kept_drop minor
  | unlinkJournal =>
    obtain ⟨-, ⟨⟩⟩ := Option.ite_none_right_eq_some.mp applied
    exact .refl s

lemma Minor.torn {w : Write} (minor : Minor w) (torn : Torn w s t) : Kept s t := by
  cases torn with
  | journal free => exact .refl s
  | file n created => exact kept_change minor created

/-- A program all of whose writes are minor. -/
def Quiet {β : Type} (p : Run β) : Prop :=
  ∀ s, wp rough.semantics (fun _ => Kept) p (fun _ t => Kept s t) s

section Quiet
variable {α β : Type}

lemma quiet_ret (b : β) : Quiet (.ret b : Run β) := Kept.refl

lemma quiet_fail (e : String) : Quiet (.fail e : Run β) := Kept.refl

lemma quiet_require (b : Bool) (e : String) : Quiet (require b e : Run Unit) := by
  cases b with
  | false => exact quiet_fail e
  | true => exact quiet_ret ()

lemma quiet_bind {p : Run α} {k : α → Run β} (first : Quiet p) (rest : ∀ a, Quiet (k a)) :
    Quiet (p.bind k) := by
  intro s
  refine wp_bind.mpr (wp_mono (first s) (fun _ _ _ h => h) fun out t kept => ?_)
  cases out with
  | error e => exact kept
  | ok a => exact wp_mono (rest a t) (fun _ _ _ h => h) fun _ u later => kept.trans later

lemma quiet_look {k : State → Run β} (rest : ∀ s, Quiet (k s)) : Quiet (look.bind k) := by
  intro s
  refine ⟨fun u cut => (by cases cut), fun r u done => ?_⟩
  cases done
  exact ⟨.refl s, rest s s⟩

lemma quiet_ask {x : Draw} {k : Drawn x → Run β} (rest : ∀ y, Quiet (k y)) : Quiet ((ask x).bind k) := by
  intro s
  refine ⟨fun u cut => (by cases cut), fun r u done => ?_⟩
  cases done
  exact ⟨.refl s, rest r s⟩

lemma quiet_check {b : Bool} {e : String} {k : Unit → Run β} (rest : Quiet (k ())) :
    Quiet ((require b e).bind k) := quiet_bind (quiet_require b e) fun _ => rest

lemma quiet_write {w : Write} {e : String} (minor : Minor w) : Quiet (write w e : Run Unit) := by
  intro s
  refine ⟨fun u cut => ?_, fun r u done => ?_⟩
  · cases cut with
    | torn torn => exact minor.torn torn
  · cases done with
    | wrote applied =>
      have kept := minor.apply applied
      exact ⟨kept, kept⟩
    | refused _ => exact ⟨.refl s, .refl s⟩

lemma quiet_unlinkAll {e : Entry} (own : ¬Apart e) (names : List FileName) :
    Quiet (unlinkAll e names) := by
  induction names with
  | nil => exact quiet_ret ()
  | cons f rest ih => exact quiet_bind (quiet_write own) fun _ => ih

lemma quiet_removeTree {e : Entry} (own : ¬Apart e) (files : Files) : Quiet (removeTree e files) :=
  quiet_bind (quiet_unlinkAll own _) fun _ => quiet_write own

lemma quiet_removeJournal (j : Journal) : Quiet (removeJournal j) :=
  quiet_look fun _ => quiet_check (quiet_write trivial)

lemma quiet_populateStage (tx : Transaction) (i : ℕ) (contents : List (TrustName × Data)) :
    Quiet (populateStage tx i contents) := by
  induction contents generalizing i with
  | nil => exact quiet_ret ()
  | cons c rest ih =>
    obtain ⟨n, d⟩ := c
    exact quiet_bind (quiet_write id) fun _ => quiet_bind (quiet_write id) fun _ => ih (i + 1)

lemma quiet_validateFinalState : Quiet (validateFinalState sha256 a) :=
  quiet_look fun _ => quiet_check (quiet_check (quiet_require _ _))

lemma quiet_recheck (j : Journal) (e : Entry) : Quiet (recheck j e) :=
  quiet_look fun _ => quiet_check (quiet_check (quiet_require _ _))

lemma quiet_recoverEmptyUnjournaledStage : Quiet (recoverEmptyUnjournaledStage s) := by
  unfold recoverEmptyUnjournaledStage
  split
  · exact quiet_ret ()
  · exact quiet_check (quiet_check (quiet_write id))
  · exact quiet_fail _

lemma quiet_recoverOrphan : Quiet recoverOrphan := by
  refine quiet_look fun s => ?_
  split
  · exact quiet_ret ()
  · exact quiet_recoverEmptyUnjournaledStage

lemma quiet_recoverPublished {j : Journal} {target : Dir} :
    Quiet (recoverPublished sha256 a j s target) := by
  have removed : Quiet (removeIngress j s) := by
    unfold removeIngress
    split
    · exact quiet_ret ()
    · exact quiet_check (quiet_check (quiet_removeTree id _))
  exact quiet_check <| quiet_check <| quiet_check <| quiet_bind removed fun _ =>
    quiet_bind (quiet_removeJournal j) fun _ => quiet_ret true

lemma quiet_recoverUnpublished {j : Journal} : Quiet (recoverUnpublished j s) := by
  unfold recoverUnpublished
  split
  · exact quiet_fail _
  · refine quiet_check ?_
    split
    · exact quiet_fail _
    · exact quiet_check <| quiet_check <| quiet_bind (quiet_removeTree id _) fun _ =>
        quiet_bind (quiet_removeJournal j) fun _ => quiet_ret false

lemma quiet_recover : Quiet (recover sha256 a check) := by
  refine quiet_look fun s => ?_
  split
  · exact quiet_ret false
  · refine quiet_check (quiet_check (quiet_check (quiet_check ?_)))
    split
    · exact quiet_recoverPublished
    · exact quiet_recoverUnpublished

end Quiet

/-- No published tree stands in the trust root. -/
def Bare (s : State) : Prop := ∀ e, Apart e → s.trust.lookup e = none

lemma Bare.kept (bare : Bare s) (kept : Kept s t) : Bare t := fun e apart =>
  (kept e apart).trans (bare e apart)

/-- One step of an installation: it keeps the published trees, or it publishes the first one, as
reviewed. -/
def Installs (sha256 : Data → String) (a : Args) (check : Bool) (s t : State) : Prop :=
  Kept s t ∨ check = false ∧ Bare s ∧ (∃ d, t.trust.lookup .target = some d ∧ Valid sha256 a d) ∧
    ∀ name, t.trust.lookup (.other name) = none

/-- Every step of a program is one of an installation. -/
abbrev Goes {β : Type} (sha256 : Data → String) (a : Args) (check : Bool) (p : Run β) (s : State) : Prop :=
  wp rough.semantics (fun _ => Installs sha256 a check) p (fun _ _ => True) s

section Goes
variable {α β : Type}

lemma goes_quiet {p : Run β} (quiet : Quiet p) : Goes sha256 a check p s :=
  wp_mono (quiet s) (fun _ _ _ => .inl) fun _ _ _ => trivial

/-- A minor program in front of another one. -/
lemma goes_after {p : Run α} {k : α → Run β} (quiet : Quiet p)
    (rest : ∀ b t, Kept s t → Goes sha256 a check (k b) t) : Goes sha256 a check (p.bind k) s := by
  refine wp_bind.mpr (wp_mono (quiet s) (fun _ _ _ => .inl) fun out t kept => ?_)
  cases out with
  | error e => exact trivial
  | ok b => exact rest b t kept

lemma goes_look {k : State → Run β} (rest : Goes sha256 a check (k s) s) :
    Goes sha256 a check (look.bind k) s := by
  refine ⟨fun u cut => (by cases cut), fun r u done => ?_⟩
  cases done
  exact ⟨.inl (.refl s), rest⟩

lemma goes_check {b : Bool} {e : String} {k : Unit → Run β}
    (rest : b = true → Goes sha256 a check (k ()) s) :
    Goes sha256 a check ((require b e).bind k) s := by
  rw [bind_require]
  exact wp_check (fun _ => trivial) rest

lemma goes_recheck {j : Journal} {e : Entry} {k : Unit → Run β} (rest : Goes sha256 a check (k ()) s) :
    Goes sha256 a check ((recheck j e).bind k) s := by
  simp only [recheck, bind_eq, bind_assoc]
  exact goes_look (goes_check fun _ => goes_check fun _ => goes_check fun _ => rest)

/-- The stage that was reviewed is published where no other tree stands. -/
lemma goes_publishTree {tx : Transaction} {k : Unit → Run β} {e : String} (bare : Bare s)
    (reviewed : (s.trust.lookup (.stage tx)).any (fun d => (validateTree sha256 a d.files).isSome) = true)
    (rest : Quiet (k ())) : Goes sha256 a false ((write (.publishTree tx) e).bind k) s := by
  refine ⟨fun u cut => ?_, fun r u done => ?_⟩
  · cases cut with
    | torn torn => cases torn
  · cases done with
    | refused _ => exact ⟨.inl (.refl s), trivial⟩
    | wrote applied =>
      refine ⟨.inr ⟨rfl, bare, ?_⟩, goes_quiet rest⟩
      obtain ⟨d, staged, moved⟩ := Option.bind_eq_some_iff.mp applied
      obtain ⟨-, ⟨⟩⟩ := Option.ite_none_left_eq_some.mp moved
      rw [staged, Option.any_some] at reviewed
      refine ⟨⟨d, by rw [put_lookup, if_pos rfl], reviewed⟩, fun name => ?_⟩
      rw [put_lookup, if_neg (by simp), drop_lookup, if_neg (by simp)]
      exact bare _ trivial

lemma goes_publish {ingress : Dir} {contents : List (TrustName × Data)} (bare : Bare s) :
    Goes sha256 a false (publish sha256 a ingress contents) s := by
  simp only [publish, bind_eq]
  refine goes_after (quiet_ask quiet_ret) fun tx t first => ?_
  refine goes_after (quiet_ask quiet_ret) fun i u second => ?_
  have bare := (bare.kept first).kept second
  refine goes_after (quiet_write trivial) fun _ t made => ?_
  refine goes_after (quiet_write trivial) fun _ u journaled => ?_
  refine goes_after (quiet_recheck _ _) fun _ v checked => ?_
  refine goes_after (quiet_populateStage tx 0 contents) fun _ w populated => ?_
  have bare := (((bare.kept made).kept journaled).kept checked).kept populated
  refine goes_look (goes_check fun reviewed => goes_recheck (goes_check fun _ => ?_))
  refine goes_publishTree bare reviewed ?_
  exact quiet_look fun _ => quiet_check <| quiet_bind (quiet_recheck _ _) fun _ =>
    quiet_bind (quiet_removeTree id _) fun _ => quiet_bind (quiet_removeJournal _) fun _ =>
    quiet_bind quiet_validateFinalState fun _ => quiet_ret _

/-- Every step of an installation keeps the published trees or publishes the first one. -/
lemma goes_install : Goes sha256 a check (install sha256 a check) s := by
  simp only [install, bind_eq]
  refine goes_after quiet_recoverOrphan fun _ t _ => goes_after quiet_recover fun recovered u _ => ?_
  split
  · exact goes_quiet (quiet_bind quiet_validateFinalState fun _ => quiet_ret _)
  simp only [installInitial, bind_eq]
  refine goes_look ?_
  split
  · exact goes_quiet (quiet_bind quiet_validateFinalState fun _ => quiet_ret _)
  refine goes_check fun alone => ?_
  have bare : Bare u := by
    intro e apart
    rw [Bool.and_eq_true, Bool.and_eq_true, TrustRecovery.entriesAre_iff] at alone
    cases found : u.trust.lookup e with
    | none => rfl
    | some d =>
      have mem := (alone.1.1 e).mp (AList.lookup_isSome.mp (by rw [found]; rfl))
      rw [List.mem_singleton.mp mem] at apart
      exact apart.elim
  split
  · exact goes_quiet (quiet_fail _)
  split
  · exact goes_quiet (quiet_fail _)
  cases check with
  | true => exact goes_quiet (quiet_ret _)
  | false => exact goes_publish bare

end Goes

/-! ## The trust root -/

/-- Every published tree is as it was, and none was added. -/
def SameTrees (r t : Root) : Prop := ∀ id, isTrustId id = true → t.tree id = r.tree id

/-- No tree is published. -/
def Unpublished (r : Root) : Prop := ∀ id, isTrustId id = true → r.tree id = none

/-- The only published tree is `d`, under `id`. -/
def Only (id : String) (d : Dir) (r : Root) : Prop :=
  ∀ other, isTrustId other = true → r.tree other = if other = id then some d else none

lemma SameTrees.refl (r : Root) : SameTrees r r := fun _ _ => rfl

lemma tree_view (id : String) {r : Root} {other : String} (valid : isTrustId other = true) : ∃ e, Apart e ∧
    (r.view id).trust.lookup e = r.tree other ∧ e = if other = id then .target else .other other := by
  have seen : (r.view id).trust.lookup (classify id other) = r.tree other := lookup_view
  by_cases own : other = id
  · rw [if_pos own]
    have target : classify id other = .target := by rw [own, classify, if_pos rfl]
    exact ⟨.target, trivial, target ▸ seen, rfl⟩
  · rw [if_neg own]
    exact ⟨.other other, trivial, classify_other valid own ▸ seen, rfl⟩

lemma Kept.trees {r t : Root} (kept : Kept (r.view id) (t.view id)) : SameTrees r t := by
  intro other valid
  obtain ⟨e, apart, before, named⟩ := tree_view id (r := r) valid
  obtain ⟨e', -, after, named'⟩ := tree_view id (r := t) valid
  rw [← before, ← after, named', ← named]
  exact kept e apart

lemma Bare.unpublished {r : Root} (bare : Bare (r.view id)) : Unpublished r := by
  intro other valid
  obtain ⟨e, apart, seen, -⟩ := tree_view id (r := r) valid
  rw [← seen]
  exact bare e apart

/-- One step of a run: the trees stay, or an installation publishes the first one as reviewed. -/
def Grows (sha256 : Data → String) (k : Command) (r t : Root) : Prop :=
  SameTrees r t ∨ ∃ a d, k = .install a false ∧ Unpublished r ∧ Valid sha256 a d ∧ Only a.trustId d t

lemma Installs.grows {r t : Root}
    (step : Installs sha256 a check (r.view a.trustId) (t.view a.trustId)) :
    Grows sha256 (.install a check) r t := by
  rcases step with kept | ⟨rfl, bare, ⟨d, published, reviewed⟩, alone⟩
  · exact .inl kept.trees
  · refine .inr ⟨a, d, rfl, bare.unpublished, reviewed, fun other valid => ?_⟩
    obtain ⟨e, -, seen, named⟩ := tree_view a.trustId (r := t) valid
    by_cases own : other = a.trustId
    · rw [if_pos own] at named ⊢
      rw [← seen, named]
      exact published
    · rw [if_neg own] at named ⊢
      rw [← seen, named]
      exact alone other

section Calm
variable {α β : Type}

/-- A program on the root that keeps the trees. -/
def Calm (p : RootRun β) : Prop :=
  ∀ r, wp rootDisk.semantics (fun _ => SameTrees) p (fun _ _ => True) r

lemma calm_require (b : Bool) (e : String) : Calm (require b e) := by
  intro r
  cases b <;> exact trivial

lemma calm_bind {p : RootRun α} {k : α → RootRun β} (first : Calm p) (rest : ∀ a, Calm (k a)) :
    Calm (p.bind k) := by
  intro r
  refine wp_bind.mpr (wp_mono (first r) (fun _ _ _ h => h) fun out t _ => ?_)
  cases out with
  | error e => exact trivial
  | ok a => exact rest a t

lemma calm_look {k : Root → RootRun β} (rest : ∀ r, Calm (k r)) : Calm (look.bind k) := by
  intro r
  refine ⟨fun u cut => (by cases cut), fun s u done => ?_⟩
  cases done
  exact ⟨.refl r, rest r r⟩

lemma calm_onRoot {p : Run β} (quiet : Quiet p) : Calm (onRoot id p) := by
  intro r
  refine wp_mono (wp_focus root_focuses (quiet (r.view id))) (fun _ s t kept => ?_) fun _ _ _ => trivial
  exact Kept.trees kept

lemma calm_mkdirIngress {i : Identity} {e : String} :
    Calm (write (.mkdirIngress id i) e : RootRun Unit) := by
  intro r
  refine ⟨fun u cut => ?_, fun s u done => ?_⟩
  · cases cut with
    | torn torn => cases torn
  · cases done with
    | refused _ => exact ⟨.refl r, trivial⟩
    | wrote applied =>
      refine ⟨fun other valid => ?_, trivial⟩
      obtain ⟨-, ⟨⟩⟩ := Option.ite_none_left_eq_some.mp applied
      refine AList.lookup_insert_ne ?_
      rintro rfl
      simp [isTrustId] at valid

lemma calm_prepare : Calm (prepare id) := by
  have admitted : ∀ r, Calm (admitted id r) := by
    intro r
    unfold TrustHistory.admitted
    split
    · exact calm_bind (calm_require _ _) fun _ _ => trivial
    · exact calm_bind (calm_onRoot quiet_recoverEmptyUnjournaledStage) fun _ _ => trivial
  refine calm_bind (calm_require _ _) fun _ => calm_look fun r => calm_bind (calm_require _ _) fun _ => ?_
  refine calm_bind (admitted r) fun names => calm_look fun t => ?_
  refine calm_bind (calm_require _ _) fun _ => calm_bind (calm_require _ _) fun _ => ?_
  split
  · exact calm_bind (calm_require _ _) fun _ => calm_require _ _
  · intro s
    refine ⟨fun u cut => (by cases cut), fun i u done => ?_⟩
    cases done
    exact ⟨.refl s, calm_mkdirIngress s⟩

end Calm

/-- Every step of every run. -/
lemma body_grows (k : Command) (r : Root) :
    wp rootDisk.semantics (fun _ => Grows sha256 k) (k.body sha256) (fun _ _ => True) r := by
  cases k with
  | prepare id => exact wp_mono (calm_prepare r) (fun _ _ _ => .inl) fun _ _ h => h
  | install a check =>
    simp only [Command.body, bind_eq, bind_require]
    refine wp_check (fun _ => trivial) fun _ => wp_bind.mpr ?_
    have installs : Goes sha256 a check (TrustInstall.install sha256 a check) (r.view a.trustId) :=
      goes_install
    refine wp_mono (wp_focus root_focuses installs) (fun _ _ _ step => Installs.grows step) fun out t _ => ?_
    cases out <;> exact trivial

/-- Exactly the four files of a reviewed tree, each with the digest that it is bound to. -/
structure Bound (sha256 : Data → String) (a : Args) (files : Files) : Prop where
  names : ∀ f, f ∈ files ↔ ∃ n, f = .trust n
  digests : ∀ b ∈ a.bindings, ∃ d, files.lookup (.trust b.1) = some d ∧ sha256 d = b.2

lemma valid_bound {d : Dir} (valid : Valid sha256 a d) : Bound sha256 a d.files := by
  obtain ⟨contents, validated⟩ := Option.isSome_iff_exists.mp valid
  obtain ⟨contents', read, checked⟩ := Option.bind_eq_some_iff.mp validated
  obtain ⟨⟨named, -⟩, ⟨⟩⟩ := Option.ite_none_right_eq_some.mp checked
  have digests : ∀ b ∈ a.bindings, ∃ t, d.files.lookup (.trust b.1) = some t ∧ sha256 t = b.2 := by
    intro b mem
    obtain ⟨c, -, read⟩ := TrustRecovery.forall₂_right (TrustRecovery.mapM_forall₂ read).flip mem
    obtain ⟨t, found, checked⟩ := Option.bind_eq_some_iff.mp read
    obtain ⟨⟨-, -, same⟩, -⟩ := Option.ite_none_right_eq_some.mp checked
    exact ⟨t, found, same⟩
  refine ⟨fun f => ⟨fun mem => ?_, ?_⟩, digests⟩
  · obtain ⟨n, -, same⟩ := named f (AList.mem_keys.mp mem)
    exact ⟨n, same⟩
  · rintro ⟨n, rfl⟩
    obtain ⟨b, mem, rfl⟩ := List.mem_map.mp (a.complete n)
    obtain ⟨t, found, -⟩ := digests b mem
    exact AList.lookup_isSome.mp (by rw [found]; rfl)

abbrev Moment := Config Command (Op RootWrite Draw) (Reply Root Drawn) String Unit Root

/-- Between the moments `x` and `w`, a run of `install` publishes the first tree, with the files
that its bindings name. -/
structure Publishes (sha256 : Data → String) (a : Args) (d : Dir) (x w : Moment) : Prop where
  command : ∃ p r, x = .running (.install a false) p r
  unpublished : Unpublished x.state
  step : Move (helper sha256) x w
  bound : Bound sha256 a d.files
  only : Only a.trustId d w.state

def fresh : Root := ⟨none, [], ∅⟩

lemma Changes.trees {r t : Root} (changes : Changes r t) : SameTrees r t := by
  intro id valid
  refine changes.trust id fun ingress same => ?_
  rw [same] at valid
  simp [isTrustId] at valid

/-- What one step of the helper does to the published trees. -/
lemma step_trees {y z : Moment}
    (stepped : Stepped (helper sha256) (Grows sha256) y z) : SameTrees y.state z.state ∨
      ∃ a d, (∃ p r, y = .running (.install a false) p r) ∧ Unpublished y.state ∧
        Valid sha256 a d ∧ Only a.trustId d z.state := by
  have grown : ∀ {k p r t}, Grows sha256 k r t → y = .running k p r → z.state = t →
      SameTrees y.state z.state ∨ ∃ a d, (∃ p r, y = .running (.install a false) p r) ∧
        Unpublished y.state ∧ Valid sha256 a d ∧ Only a.trustId d z.state := by
    rintro k p r t (same | ⟨a, d, rfl, bare, valid, only⟩) rfl rfl
    · exact .inl same
    · exact .inr ⟨a, d, ⟨p, r, rfl⟩, bare, valid, only⟩
  cases stepped with
  | same same => exact .inl (same ▸ .refl _)
  | changed changes => exact .inl (Changes.trees changes)
  | did kept => exact grown kept rfl rfl
  | torn kept => exact grown kept rfl rfl

/-- Where the published tree comes from. -/
lemma published_origin {y : Moment} (reached : Moves (helper sha256) (.idle fresh) y) :
    Unpublished y.state ∨ ∃ a d x w, Moves (helper sha256) (.idle fresh) x ∧
      Publishes sha256 a d x w ∧ Moves (helper sha256) w y ∧ Only a.trustId d y.state := by
  induction reached with
  | refl => exact .inl fun _ _ => rfl
  | @tail y z prior move ih =>
    have here := (steady_idle fresh).moves body_grows prior
    rcases step_trees (here.move body_grows move).2 with same | ⟨a, d, command, bare, valid, only⟩
    · rcases ih with free | ⟨a, d, x, w, before, publishes, after, only⟩
      · exact .inl fun id valid => (same id valid).trans (free id valid)
      · exact .inr ⟨a, d, x, w, before, publishes, after.tail move,
          fun id valid => (same id valid).trans (only id valid)⟩
    · exact .inr ⟨a, d, y, z, prior, ⟨command, bare, move, valid_bound valid, only⟩, .refl, only⟩

/-- A published tree stays as it was published, and it is the only one: it holds exactly the files
that the bindings of the publishing run name. -/
theorem published_trust_fixed {y z : Moment} (reached : Moves (helper sha256) (.idle fresh) y)
    (later : Moves (helper sha256) y z) :
    (∀ id d, isTrustId id = true → y.state.tree id = some d → z.state.tree id = some d) ∧
      (Unpublished y.state ∨ ∃ a d x w, Moves (helper sha256) (.idle fresh) x ∧
        Publishes sha256 a d x w ∧ Moves (helper sha256) w y ∧ Only a.trustId d y.state) := by
  refine ⟨fun id d valid there => ?_, published_origin reached⟩
  refine Moves.preserves (R := fun r t : Root => r.tree id = some d → t.tree id = some d)
    (fun _ h => h) (fun first second h => second (first h)) (fun r t changes h => ?_)
    (fun k r t grows h => ?_) body_grows ((steady_idle fresh).moves body_grows reached) later there
  · rw [changes.trees id valid]
    exact h
  · rcases grows with same | ⟨-, -, -, bare, -, -⟩
    · rw [same id valid]
      exact h
    · rw [bare id valid] at h
      cases h

/-- One way the disk of the trust root can answer and perform. -/
def rootStep : (o : Op RootWrite Draw) → Root → Reply Root Drawn o × Root
  | .look, r => (r, r)
  | .ask .transaction, r => (TrustRecovery.sampleTransaction, r)
  | .ask .identity, r => ((1, 3), r)
  | .write w, r =>
    match w.apply r with
    | some t => (true, t)
    | none => (false, r)

lemma within_rootStep : Within rootStep rootDisk.semantics := by
  intro o r
  cases o with
  | look => exact .look r
  | ask x => cases x <;> exact .ask trivial
  | write w =>
    cases applied : w.apply r with
    | none =>
      simp only [rootStep, applied]
      exact .refused (.inl applied)
    | some t =>
      simp only [rootStep, applied]
      exact .wrote applied

/-- The root after the first operations of a run. -/
def sampleRun (n : ℕ) (k : Command) (r : Root) : Root := after rootStep n (k.body fun _ => "digest") r

lemma sample_moves (n : ℕ) (k : Command) (r : Root) :
    Moves (helper fun _ => "digest") (.idle r) (.idle (sampleRun n k r)) :=
  moves_after within_rootStep n k r

/-- A prepared root, the reviewed files in its ingress, and the tree that a run published before it
was killed. -/
def samplePrepared : Root := sampleRun 4 (.prepare "reviewed-v1") fresh

def sampleFilled : Root := { samplePrepared with
  trust := samplePrepared.trust.insert ".ingress-reviewed-v1" ⟨(1, 3), TrustRecovery.sampleFiles⟩ }

def samplePublished : Root := sampleRun 19 (.install TrustRecovery.sampleArgs false) sampleFilled

theorem published_trust_reviewed : ∃ y, y = Config.idle samplePublished ∧ ∀ n z,
    z = Config.idle (sampleRun n (.prepare "other-v2") samplePublished) →
    ∀ id d, isTrustId id = true → (y : Moment).state.tree id = some d →
      (z : Moment).state.tree id = some d := by
  have filled : Move (helper fun _ => "digest") (.idle samplePrepared) (.idle sampleFilled) :=
    .change ⟨rfl, fun name other => AList.lookup_insert_ne (other "reviewed-v1")⟩
  have prepared : Moves (helper fun _ => "digest") (.idle fresh) (.idle samplePrepared) :=
    sample_moves 4 (.prepare "reviewed-v1") fresh
  have installed : Moves (helper fun _ => "digest") (.idle sampleFilled) (.idle samplePublished) :=
    sample_moves 19 (.install TrustRecovery.sampleArgs false) sampleFilled
  have reached := (prepared.tail filled).trans installed
  refine ⟨_, rfl, ?_⟩
  rintro n z rfl
  exact (published_trust_fixed reached (sample_moves n (.prepare "other-v2") samplePublished)).1

end PlatformConfig.TrustHistory
