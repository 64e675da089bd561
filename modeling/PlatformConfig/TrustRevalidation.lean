import PlatformConfig.LifecycleExpiry
import PlatformConfig.TrustRecovery

/-!
# Trust revalidation on a lifecycle state root

The trust helper and the lifecycle helper share one state root, each with its own list of the
names that may stand in it. `install --check` of the retained tree accepts exactly the roots
without a journal: it admits none of the three journals that the lifecycle helper admits.
-/
namespace PlatformConfig.TrustRevalidation

open CrashProgram CrashDisk TrustTree Prog
open TrustInstall (Run Status Dir finalNames)
open TrustRecovery (Valid)
open Lifecycle (Reaches Always Vacant Content)

/-- The names in the state root besides `lock`, `trust` and the trust journal. -/
def names (s : Lifecycle.State) : List String :=
  (if s.active.isSome then ["active"] else []) ++ (if s.rollback.isSome then ["rollback"] else []) ++
  (if s.terminal.isSome then ["target-terminal"] else []) ++
  (if s.history.isSome then ["target-terminal-history"] else []) ++
  (if s.journal.isSome then ["activation-journal"] else []) ++
  (if s.requestJournal then ["request.journal"] else []) ++
  (List.range s.leftovers).map fun i => ".lifecycle-" ++ toString i

/-- The same state root as the trust helper sees it, with the retained tree `d`; `j` is what its
own journal holds if there is one. -/
def trustRoot (j : TrustInstall.Journal) (d : Dir) (s : Lifecycle.State) : TrustInstall.State :=
  ⟨if s.trustJournal then some j else none, names s, AList.singleton .target d⟩

/-- A record that was written whole: never empty, and within the size limit. -/
def written {α : Type} : Content α → Bool
  | .whole _ => true
  | .torn => false

/-- The records that `validate_lifecycle_file` and `validate_target_terminal_history` read. -/
def recordsWritten (s : Lifecycle.State) : Bool :=
  s.terminal.all written && s.history.all fun h => h.entries.all fun e => written e.2

/-- `install --check` on the state root, with the reading of the lifecycle records at its end. -/
def revalidate (sha256 : Data → String) (a : Args) (s : Lifecycle.State) : Run Status := do
  let status ← TrustInstall.install sha256 a true
  require (recordsWritten s) "shared lifecycle file is not safe"
  return status

variable {sha256 : Data → String} {a : Args} {j : TrustInstall.Journal} {d : Dir}
  {s t : Lifecycle.State} {c : Lifecycle.Target} {k : Lifecycle.Conditions}

/-- The trust helper finds nothing that it does not admit. -/
def Admits (r : TrustInstall.State) : Prop :=
  r.journal = none ∧ r.others.all finalNames.contains = true

lemma mem_alone {e : TrustInstall.Entry} {d : Dir} :
    e ∈ (AList.singleton .target d : AList fun _ : TrustInstall.Entry => Dir) ↔ e = .target := by
  rw [AList.mem_keys, AList.keys_singleton, List.mem_singleton]

lemma reads_validateFinalState {r : TrustInstall.State} (intact : Valid sha256 a d)
    (tree : r.trust = AList.singleton .target d) :
    Reads TrustInstall.disk r (TrustInstall.validateFinalState sha256 a) (fun _ => Admits r)
      ¬Admits r := by
  have alone : r.entriesAre [.target] = true := by
    rw [TrustRecovery.entriesAre_iff, TrustRecovery.Entries, tree]
    exact fun e => mem_alone.trans List.mem_singleton.symm
  have valid : (r.trust.lookup .target).any (fun d => (validateTree sha256 a d.files).isSome) = true := by
    rw [tree]
    exact intact
  have admits : (r.journal.isNone && r.others.all finalNames.contains) = true ↔ Admits r := by
    rw [Bool.and_eq_true, Option.isNone_iff_eq_none, Admits]
  refine reads_look (reads_check (fun no accepted => ?_) fun yes => ?_)
  · rw [admits.mpr accepted] at no
    cases no
  · refine reads_check (fun no => ?_) fun _ => (reads_require fun no => ?_).mono
      (fun _ _ => admits.mp yes) id
    · rw [alone] at no
      cases no
    · rw [valid] at no
      cases no

/-- Check mode decides whether the state root is admitted, and changes nothing. -/
lemma reads_install {r : TrustInstall.State} (intact : Valid sha256 a d)
    (tree : r.trust = AList.singleton .target d) :
    Reads TrustInstall.disk r (TrustInstall.install sha256 a true)
      (fun status => status = .existing ∧ Admits r) ¬Admits r := by
  have there : TrustInstall.Entry.target ∈ r.trust := by
    rw [tree, mem_alone]
  have final : Reads TrustInstall.disk r ((TrustInstall.validateFinalState sha256 a).bind
      fun _ => .ret Status.existing) (fun status => status = .existing ∧ Admits r) ¬Admits r :=
    (reads_validateFinalState intact tree).bind id fun _ accepted => reads_ret ⟨rfl, accepted⟩
  have orphan : Reads TrustInstall.disk r TrustInstall.recoverOrphan (fun _ => True) ¬Admits r := by
    refine reads_look ?_
    have free : r.stages = [] := by
      rw [TrustRecovery.stages_nil, tree]
      simp [mem_alone]
    split
    · exact reads_ret trivial
    · unfold TrustInstall.recoverEmptyUnjournaledStage
      rw [free]
      exact reads_ret trivial
  have recovered : Reads TrustInstall.disk r (TrustInstall.recover sha256 a true)
      (fun done => done = false) ¬Admits r := by
    refine reads_look ?_
    cases journal : r.journal with
    | none => exact reads_ret rfl
    | some j =>
      refine reads_check (fun _ accepted => ?_) fun no => by cases no
      rw [Admits, journal] at accepted
      cases accepted.1
  refine orphan.bind id fun _ _ => recovered.bind id ?_
  rintro _ rfl
  refine reads_look ?_
  rw [if_pos there]
  exact final

/-- Of the names that the lifecycle helper admits, the journals are the ones that are not final. -/
lemma names_final (clean : s.leftovers = 0) :
    (names s).all finalNames.contains = true ↔ s.journal = none ∧ s.requestJournal = false := by
  have active : finalNames.contains "active" = true := by decide
  have rollback : finalNames.contains "rollback" = true := by decide
  have terminal : finalNames.contains "target-terminal" = true := by decide
  have history : finalNames.contains "target-terminal-history" = true := by decide
  have journal : finalNames.contains "activation-journal" = false := by decide
  have request : finalNames.contains "request.journal" = false := by decide
  have option : ∀ (b : Bool) (name : String), finalNames.contains name = true →
      (if b = true then [name] else []).all finalNames.contains = true := by
    intro b name final
    cases b with
    | false => rfl
    | true => rw [if_pos rfl, List.all_cons, final, List.all_nil, Bool.and_self]
  have refused : ∀ (b : Bool) (name : String), finalNames.contains name = false →
      ((if b = true then [name] else []).all finalNames.contains = true ↔ b = false) := by
    intro b name other
    cases b with
    | false => simp
    | true => rw [if_pos rfl, List.all_cons, other, Bool.false_and]; simp
  simp only [names, clean, List.all_append, Bool.and_eq_true, option _ _ active, option _ _ rollback,
    option _ _ terminal, option _ _ history, refused _ _ journal, refused _ _ request, List.range_zero,
    List.map_nil, List.all_nil, true_and, and_true, Option.isSome_eq_false_iff, Option.isNone_iff_eq_none]

/-- What a lifecycle command wrote can be read by the trust helper as well. -/
lemma legible_written (legible : t.legible) : recordsWritten t = true := by
  rw [recordsWritten, Bool.and_eq_true]
  constructor
  · cases terminal : t.terminal with
    | none => rfl
    | some x =>
      obtain ⟨o, rfl, -⟩ := legible.1 x terminal
      rfl
  · cases history : t.history with
    | none => rfl
    | some h =>
      refine TrustRecovery.entries_all.mpr fun r x there => ?_
      obtain ⟨o, rfl, -⟩ := legible.2 r x (by rw [Lifecycle.State.archived, history]; exact there)
      rfl

/-- A clean and legible state root is accepted exactly without a journal. -/
lemma revalidate_iff (clean : t.leftovers = 0) (legible : t.legible) (intact : Valid sha256 a d) :
    (∀ out u, Exec TrustInstall.disk.semantics (revalidate sha256 a t) (trustRoot j d t) out u →
      out = .ok .existing) ↔
    t.journal = none ∧ t.requestJournal = false ∧ t.trustJournal = false := by
  have admits : Admits (trustRoot j d t) ↔
      t.journal = none ∧ t.requestJournal = false ∧ t.trustJournal = false := by
    have trust : (trustRoot j d t).journal = none ↔ t.trustJournal = false := by
      cases found : t.trustJournal <;> simp [trustRoot, found]
    rw [Admits, trust]
    change _ ∧ (names t).all finalNames.contains = true ↔ _
    rw [names_final clean]
    exact ⟨fun h => ⟨h.2.1, h.2.2, h.1⟩, fun h => ⟨h.2.2, h.1, h.2.1⟩⟩
  have reads : Reads TrustInstall.disk (trustRoot j d t) (revalidate sha256 a t)
      (fun status => status = .existing ∧ Admits (trustRoot j d t)) ¬Admits (trustRoot j d t) := by
    refine (reads_install intact rfl).bind id fun status decided => ?_
    rw [legible_written legible]
    exact reads_ret decided
  rw [← admits]
  constructor
  · intro accepted
    obtain ⟨out, u, ran⟩ := exec_exists TrustRecovery.disk_answers (revalidate sha256 a t) (trustRoot j d t)
    have ended := wp_exec reads ran
    rw [accepted out u ran] at ended
    exact ended.2.2
  · intro accepted out u ran
    have ended := wp_exec reads ran
    cases out with
    | error e => exact absurd accepted ended.2
    | ok status => rw [ended.2.1]

/-- Over any run of lifecycle commands, the retained tree passes its revalidation exactly while no
activation, request or trust journal stands in the state root. -/
theorem trust_revalidates_iff (whole : ¬k.tears) (start : Vacant s) (run : Reaches c k Always s t)
    (intact : Valid sha256 a d) :
    (∀ out u, Exec TrustInstall.disk.semantics (revalidate sha256 a t) (trustRoot j d t) out u →
      out = .ok .existing) ↔
    t.journal = none ∧ t.requestJournal = false ∧ t.trustJournal = false :=
  revalidate_iff ((Lifecycle.reaches_clean whole run).trans start.clean)
    (Lifecycle.reaches_legible whole run start.legible) intact

/-- The trust journal of the sample tree. -/
def sampleJournal : TrustInstall.Journal :=
  TrustInstall.journalValues TrustRecovery.sampleArgs TrustRecovery.sampleTransaction (1, 2) (1, 3)

lemma installed_reached : Reaches Lifecycle.registry Lifecycle.untorn Always Lifecycle.unissued
    Lifecycle.installed :=
  .ran trivial (.ran trivial (.ran trivial (.refl _) trivial) trivial) trivial

lemma installed_free : Lifecycle.installed.journal = none ∧
    Lifecycle.installed.requestJournal = false ∧ Lifecycle.installed.trustJournal = false := by
  decide +kernel

theorem trust_revalidates_installed : (Lifecycle.installed.journal = none ∧
    Lifecycle.installed.requestJournal = false ∧ Lifecycle.installed.trustJournal = false) ∧
    ∀ out u, Exec TrustInstall.disk.semantics
      (revalidate (fun _ => "digest") TrustRecovery.sampleArgs Lifecycle.installed)
      (trustRoot sampleJournal ⟨(1, 2), TrustRecovery.sampleFiles⟩ Lifecycle.installed) out u →
      out = .ok .existing :=
  ⟨installed_free, (trust_revalidates_iff (fun h => h) Lifecycle.unissued_vacant installed_reached
    TrustRecovery.sample_prepared.reviewed).mpr installed_free⟩

/-- A first activation that was killed after its journal, and the check in front of its recovery. -/
theorem interrupted_activation_blocks : ¬∀ t, Reaches Lifecycle.registry Lifecycle.untorn Always
    Lifecycle.unissued t → ∀ out u, Exec TrustInstall.disk.semantics
      (revalidate (fun _ => "digest") TrustRecovery.sampleArgs t)
      (trustRoot sampleJournal ⟨(1, 2), TrustRecovery.sampleFiles⟩ t) out u → out = .ok .existing := by
  intro accepted
  have reached : Reaches Lifecycle.registry Lifecycle.untorn Always Lifecycle.unissued Lifecycle.halted :=
    .command installed_reached trivial
      ((Lifecycle.undisturbed_within (k := Lifecycle.untorn) (n := 1000) trivial).killed 40 _ _)
  have clean := (Lifecycle.reaches_clean (fun h => h) reached).trans Lifecycle.unissued_vacant.clean
  have legible := Lifecycle.reaches_legible (fun h => h) reached Lifecycle.unissued_vacant.legible
  obtain ⟨free, -⟩ := (revalidate_iff clean legible TrustRecovery.sample_prepared.reviewed).mp
    (accepted _ reached)
  have journal : Lifecycle.halted.journal.isSome = true := by decide +kernel
  rw [free] at journal
  cases journal

end PlatformConfig.TrustRevalidation
