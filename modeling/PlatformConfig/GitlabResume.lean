import PlatformConfig.GitlabDownload

/-!
# Interrupted downloads

A response download that was killed any number of times is run again. Of the helper's commands only
their specifications are used. What a kill can leave that no later download goes beyond is told
exactly.
-/
namespace PlatformConfig.HostGitlab

open CrashDisk CrashParts CrashProgram Prog
open Lifecycle (Awaits Beside Contents Data Dir FileName Files Going Identity Installed Installs Opened PartOf Pending
  Prepares Preparable Report Selected Target Timely VersionEntry agreeOn clientVersions readable responseNames
  versionNames)

variable {c : Target} {g : Config} {x : Conditions} {r : String} {p : Pending} {pkg : Files} {s : Station}
  {α β : Type} {tears : Prop}

/-- The response files of a package. -/
def offer (pkg : Files) : Contents := Dir.contents responseNames ⟨(0, 0), pkg⟩

lemma offer_narrow (f : FileName) (out : f ∉ responseNames) : offer pkg f = none := if_neg out

/-- A package that the facade accepts for the request. -/
structure Accepts (g : Config) (r : String) (pkg : Files) : Prop where
  full : Dir.exact downloadNames ⟨(0, 0), pkg⟩ = true
  manifest : g.validateManifest r pkg = true

lemma Accepts.offered (h : Accepts g r pkg) {f : FileName} (mem : f ∈ responseNames) :
    ∃ y, offer pkg f = some y ∧ readable y = true := by
  have full := h.full
  simp only [Dir.exact, Bool.and_eq_true, List.all_eq_true] at full
  obtain ⟨y, at_, fine⟩ := (Option.any_eq_true _ _).mp (full.2 f (List.mem_append_left _ mem))
  exact ⟨y, by rw [offer, Dir.contents, if_pos mem]; exact at_, fine⟩

/-! ## What the facade asks -/

lemma reads_askInspect : Reads (disk x) s inspect (fun _ => True) x.life.faults := by
  refine reads_ask fun passed answer => ?_
  refine (reads_require fun refused => ?_).mono (fun _ _ => trivial) id
  exact answer.resolve_left fun fine => by rw [refused] at fine; cases fine

lemma reads_option {a : Option α} {F : Prop} (absent : a = none → F) :
    Reads (disk x) s (ofOption a) (fun b => a = some b) F := by
  cases a with
  | none => exact reads_fail (absent rfl)
  | some b => exact reads_ret rfl

lemma reads_helper {q : Lifecycle.Run α} {R : α → Prop} {F : Prop}
    (h : Reads (Lifecycle.disk x.life) s.1 q R F) : Reads (disk x) s (helper q) R F :=
  reads_first (Lifecycle.reads_fresh h)

/-- The content of a download directory that is accepted. -/
def Whole (s : Station) (files : Files) : Prop := s.2 = some files ∧ Dir.exact downloadNames ⟨(0, 0), files⟩ = true

lemma reads_openDownload : Reads (disk x) s openDownload (Whole s) (x.life.faults ∨ ¬∃ files, Whole s files) := by
  refine reads_askInspect.bind .inl fun _ _ => reads_look ?_
  refine (reads_option (F := x.life.faults ∨ ¬∃ files, Whole s files) fun absent => .inr ?_).bind id fun files there => ?_
  · rintro ⟨files, there, -⟩
    rw [there] at absent
    cases absent
  refine reads_check (fun refused => .inr ?_) fun full => reads_ret ⟨there, full⟩
  rintro ⟨files', there', full⟩
  obtain rfl := Option.some.inj (there.symm.trans there')
  rw [full] at refused
  cases refused

/-! ## States between the downloads -/

variable {s₀ : Lifecycle.State} {f : Unit → Run β} {Q : Except String β → Station → Prop}

/-- Every change below the versions root was one of this request. -/
abbrev Keeps (c : Target) (tears : Prop) (r : String) (p : Pending) (pkg : Files) (s₀ : Lifecycle.State) (s : Station) :
    Prop :=
  Going c tears r p (offer pkg) s₀ s.1

lemma holds_spool {w : SpoolWrite} {after : Option Files} (h : Keeps c tears r p pkg s₀ s)
    (applied : w.apply s.2 = some after) (fault : ∀ e, x.life.faults → Q (.error e) s)
    (rest : Holds (disk x) (Keeps c tears r p pkg s₀) (f ()) Q (s.1, after)) :
    Holds (disk x) (Keeps c tears r p pkg s₀) ((write (.inr w) failed).bind f) Q s := by
  obtain ⟨life, download⟩ := s
  refine holds_write (fun u torn => ?_) (fun refused => ⟨h, fault _ ?_⟩) fun u made => ?_
  · obtain ⟨-, same⟩ := torn
    change Going _ _ _ _ _ _ u.1
    rw [same]
    exact h
  · have some_ : (disk x).apply (.inr w) (life, download) = some (life, after) :=
      Option.map_eq_some_iff.mpr ⟨after, applied, rfl⟩
    have fails : (spool x).fails w := fails_of_refused (D := disk x) some_ refused
    cases w with
    | fetched left => exact absurd fails id
    | unlink f => exact fails
    | rmdir => exact fails
  · obtain ⟨after', applied', rfl⟩ := Option.map_eq_some_iff.mp made
    obtain rfl := Option.some.inj (applied.symm.trans applied')
    exact ⟨h, rest⟩

lemma holds_unlinkFiles {l : List FileName} {files : Files} (h : Keeps c tears r p pkg s₀ s) (there : s.2 = some files)
    (distinct : l.Nodup) (all : ∀ y ∈ l, y ∈ files) (fault : ∀ e t, x.life.faults → Q (.error e) t)
    (rest : ∀ left : Files, (∀ y, y ∈ left ↔ y ∈ files ∧ y ∉ l) →
      Holds (disk x) (Keeps c tears r p pkg s₀) (f ()) Q (s.1, some left)) :
    Holds (disk x) (Keeps c tears r p pkg s₀) ((unlinkFiles l).bind f) Q s := by
  induction l generalizing s files with
  | nil =>
    obtain ⟨life, download⟩ := s
    obtain rfl : download = some files := there
    exact rest files (by simp)
  | cons y l ih =>
    rw [List.nodup_cons] at distinct
    simp only [unlinkFiles, bind_eq, Prog.bind_assoc]
    refine wp_reads (fun _ => h) reads_askInspect (fun e => fault e s) fun _ _ => ?_
    have applied : (SpoolWrite.unlink y).apply s.2 = some (some (files.erase y)) := by
      rw [there]
      exact if_pos (all y List.mem_cons_self)
    refine holds_spool h applied (fun e => fault e s) (ih h rfl distinct.2 (fun z mem => ?_) fun left kept => rest left fun z => ?_)
    · refine AList.mem_erase.mpr ⟨?_, all z (List.mem_cons_of_mem y mem)⟩
      rintro rfl
      exact distinct.1 mem
    · rw [kept, AList.mem_erase, List.mem_cons]
      tauto

/-- The removal of a download directory. -/
lemma holds_removeDownload {files : Files} (h : Keeps c tears r p pkg s₀ s) (whole : Whole s files)
    (fault : ∀ e t, x.life.faults → Q (.error e) t)
    (rest : Holds (disk x) (Keeps c tears r p pkg s₀) (f ()) Q (s.1, none)) :
    Holds (disk x) (Keeps c tears r p pkg s₀) (removeDownload.bind f) Q s := by
  simp only [removeDownload, bind_eq, Prog.bind_assoc]
  refine wp_reads (fun _ => h) reads_openDownload (fun e fails => fault e s ?_) fun files' read => ?_
  · exact fails.resolve_right fun none_ => none_ ⟨files, whole⟩
  have full := whole.2
  simp only [Dir.exact, Bool.and_eq_true, decide_eq_true_eq, List.all_eq_true] at full
  refine holds_unlinkFiles h whole.1 (by decide) (fun y mem => ?_) fault fun left kept => ?_
  · have named : y ∈ downloadNames := (by decide : ∀ y ∈ sortedNames, y ∈ downloadNames) y mem
    obtain ⟨z, at_, -⟩ := (Option.any_eq_true _ _).mp (full.2 y named)
    exact AList.lookup_isSome.mp (by rw [at_]; rfl)
  have empty : left.keys = [] := by
    refine List.eq_nil_iff_forall_not_mem.mpr fun y mem => ?_
    obtain ⟨in_, out⟩ := (kept y).mp mem
    exact out ((by decide : ∀ y ∈ downloadNames, y ∈ sortedNames) y (full.1 y in_))
  have keeps : Keeps c tears r p pkg s₀ (s.1, some left) := h
  refine wp_reads (fun _ => keeps) reads_askInspect (fun e => fault e _) fun _ _ => ?_
  exact holds_spool keeps (if_pos empty) (fun e => fault e _) rest

/-- The package client serves one package: where it succeeds, it leaves that package. -/
def Serves (g : Config) (r : String) (pkg : Files) (x : Conditions) : Prop :=
  ∀ d y, x.client d y → ∀ result, y.result = some result →
    y.left = some pkg ∧ g.validatePackageResult r result = true ∧ g.resultMatches result pkg = true

/-- The package client succeeds whenever it runs. -/
def Delivers (x : Conditions) : Prop := ∀ d y, x.client d y → y.result.isSome = true

lemma holds_fetchFiles {f : Files → Run β} (h : Keeps c tears r p pkg s₀ s) (accepts : Accepts g r pkg)
    (serves : Serves g r pkg x) (fault : ∀ e t, x.life.faults ∨ ¬Delivers x → Q (.error e) t)
    (rest : Holds (disk x) (Keeps c tears r p pkg s₀) (f pkg) Q (s.1, some pkg)) :
    Holds (disk x) (Keeps c tears r p pkg s₀) ((fetchFiles g r).bind f) Q s := by
  simp only [fetchFiles, bind_eq, Prog.bind_assoc]
  refine holds_ask h fun y answer => ?_
  have left : Keeps c tears r p pkg s₀ (s.1, y.left) := h
  have fetched : (SpoolWrite.fetched y.left).apply s.2 = some y.left := by cases s.2 <;> rfl
  refine holds_spool h fetched (fun e fails => fault e _ (.inl fails)) ?_
  refine wp_reads (fun _ => left) (reads_option fun none_ => ?_) (fun e undelivered => fault e _ (.inr undelivered)) ?_
  · intro delivers
    have some_ := delivers _ _ answer
    rw [none_] at some_
    cases some_
  intro result there
  obtain ⟨same, valid, agrees⟩ := serves _ _ answer result there
  rw [same] at left ⊢
  refine holds_checked valid ?_
  have whole : Whole (s.1, some pkg) pkg := ⟨rfl, accepts.full⟩
  refine wp_reads (fun _ => left) reads_openDownload (fun e fails => fault e _ ?_) fun files read => ?_
  · exact .inl (fails.resolve_right fun none_ => none_ ⟨pkg, whole⟩)
  obtain rfl := Option.some.inj read.1
  refine holds_checked ?_ rest
  rw [agrees, accepts.manifest]
  rfl

/-! ## The copy into the ingress -/

/-- The files of a directory that differ from those of the response. -/
def Differs (pkg : Files) (d : Dir) : Prop := ∃ y z, d.files.lookup y = some z ∧ offer pkg y ≠ some z

lemma keeps_write {d : Dir} {y : FileName} {z w : Data} (h : Keeps c tears r p pkg s₀ s) (root : s.1.root ≠ .absent)
    (found : s.1.versions.lookup (.ingress r) = some d) (named : y ∈ responseNames) (offered : offer pkg y = some z)
    (part : w = z ∨ tears ∧ w <+: z) :
    Keeps c tears r p pkg s₀ ({ s.1 with
      versions := s.1.versions.insert (.ingress r) { d with files := d.files.insert y w } }, s.2) := by
  refine Going.insert h root (.inr (.inl rfl)) (by rintro ⟨⟩) fun _ y' w' at_ => ?_
  by_cases same : y' = y
  · subst same
    rw [AList.lookup_insert] at at_
    obtain rfl := Option.some.inj at_
    exact ⟨named, z, offered, part⟩
  · exact h.ingress d found y' w' (by rwa [AList.lookup_insert_ne same] at at_)

/-- What the copy of some names makes of an ingress. -/
structure Copied (pkg : Files) (l : List FileName) (d d' : Dir) : Prop where
  files : ∀ y, d'.files.lookup y = if y ∈ l then offer pkg y else d.files.lookup y
  same : ∀ y ∈ l, ∀ z, d.files.lookup y = some z → offer pkg y = some z

lemma holds_copyFiles {l : List FileName} {d : Dir} (h : Keeps c tears r p pkg s₀ s) (accepts : Accepts g r pkg)
    (may : x.life.tears → tears) (root : s.1.root ≠ .absent) (found : s.1.versions.lookup (.ingress r) = some d)
    (distinct : l.Nodup) (named : ∀ y ∈ l, y ∈ responseNames)
    (failed : ∀ e t, x.life.faults ∨ Differs pkg d → Q (.error e) t)
    (rest : ∀ t d', Keeps c tears r p pkg s₀ t → Beside (.ingress r) s.1 t.1 → t.2 = s.2 →
      t.1.versions.lookup (.ingress r) = some d' → Copied pkg l d d' →
      Holds (disk x) (Keeps c tears r p pkg s₀) (f ()) Q t) :
    Holds (disk x) (Keeps c tears r p pkg s₀) ((copyFiles r (offer pkg) l).bind f) Q s := by
  induction l generalizing s d with
  | nil => exact rest s d h (.refl _ _) rfl found ⟨by simp, by simp⟩
  | cons y l ih =>
    rw [List.nodup_cons] at distinct
    have in_ : y ∈ responseNames := named y List.mem_cons_self
    obtain ⟨z, offered, fine⟩ := accepts.offered in_
    simp only [copyFiles, bind_eq, Prog.bind_assoc]
    refine wp_reads (fun _ => h) reads_askInspect (fun e fault => failed e s (.inl fault)) fun _ _ => holds_look h ?_
    rw [found]
    cases at_ : d.files.lookup y with
    | some w =>
      simp only [ofOption, bind_ret, at_, Prog.bind_assoc]
      refine wp_reads (fun _ => h) reads_askInspect (fun e fault => failed e s (.inl fault)) fun _ _ => ?_
      refine holds_check (fun refused => failed _ s (.inr ⟨y, w, at_, fun same => ?_⟩)) fun passed => ?_
      · obtain rfl := Option.some.inj (offered.symm.trans same)
        simp [fine, same] at refused
      have same : offer pkg y = some w := by
        simp only [Bool.and_eq_true, decide_eq_true_eq] at passed
        exact passed.2
      refine ih h root found distinct.2 (fun y' mem => named y' (List.mem_cons_of_mem y mem)) failed
        fun t d' keeps beside download found' copied => rest t d' keeps beside download found' ⟨fun y' => ?_, ?_⟩
      · rw [copied.files]
        by_cases here : y' = y
        · subst here
          rw [if_neg distinct.1, if_pos List.mem_cons_self, at_, same]
        · simp only [List.mem_cons, here, false_or]
      · rintro y' mem z' at'
        rcases List.mem_cons.mp mem with rfl | mem
        · rw [same, ← at_, at']
        · exact copied.same y' mem z' at'
    | none =>
      have applied : ∀ w, (Lifecycle.TreeWrite.writeFile (.ingress r) y w).apply s.1 = some { s.1 with
          versions := s.1.versions.insert (.ingress r) { d with files := d.files.insert y w } } := by
        intro w
        have new : y ∉ d.files := AList.lookup_eq_none.mp at_
        simp [Lifecycle.TreeWrite.apply, Lifecycle.State.change, found, new]
      simp only [ofOption, bind_ret, at_, Prog.bind_assoc, offered, Option.getD_some]
      refine holds_write (fun u torn => ?_) (fun refused => ⟨h, failed _ s (.inl ?_)⟩) fun u made => ?_
      · obtain ⟨⟨tears_, cut⟩, -⟩ := torn
        cases cut with
        | @file _ _ _ w _ _ front _ made =>
          have after := Option.some.inj ((applied w).symm.trans made)
          change Going _ _ _ _ _ _ u.1
          rw [← after]
          exact keeps_write h root found in_ offered (.inr ⟨may tears_, front⟩)
      · have some_ : (disk x).apply (.inl (.tree (.writeFile (.ingress r) y z))) s = some _ :=
          Option.map_eq_some_iff.mpr ⟨_, applied z, rfl⟩
        exact fails_of_refused (D := disk x) some_ refused
      · obtain ⟨life, made', rfl⟩ := Option.map_eq_some_iff.mp made
        obtain rfl := Option.some.inj ((applied z).symm.trans made')
        have keeps := keeps_write h root found in_ offered (.inl rfl)
        have value : ∀ y', y' ≠ y → (d.files.insert y z).lookup y' = d.files.lookup y' := fun y' other =>
          AList.lookup_insert_ne other
        refine ⟨keeps, ih keeps root (AList.lookup_insert _) distinct.2
          (fun y' mem => named y' (List.mem_cons_of_mem y mem)) (fun e t fails => failed e t (fails.imp_right ?_))
          fun t d' keeps' beside download found' copied => rest t d' keeps' ((Lifecycle.beside_insert _ _ _).trans beside)
            download found' ⟨fun y' => ?_, ?_⟩⟩
        · rintro ⟨y', z', at', other⟩
          by_cases here : y' = y
          · subst here
            rw [AList.lookup_insert] at at'
            exact absurd (offered.trans at') other
          · exact ⟨y', z', by rwa [value y' here] at at', other⟩
        · rw [copied.files]
          by_cases here : y' = y
          · subst here
            rw [if_neg distinct.1, if_pos List.mem_cons_self, offered]
            exact AList.lookup_insert _
          · simp only [List.mem_cons, here, false_or]
            rw [show (d.files.insert y z).lookup y' = d.files.lookup y' from value y' here]
        · rintro y' mem z' at'
          rcases List.mem_cons.mp mem with rfl | mem
          · rw [at_] at at'
            cases at'
          · refine copied.same y' mem z' ?_
            rw [value y' fun here => distinct.1 (here ▸ mem)]
            exact at'

/-- A part of the response that has all of its files. -/
lemma PartOf.full {d : Dir} (h : PartOf tears (offer pkg) d) (accepts : Accepts g r pkg)
    (files : ∀ y ∈ responseNames, d.files.lookup y = offer pkg y) :
    d.exact responseNames = true ∧ d.contents responseNames = offer pkg := by
  constructor
  · simp only [Dir.exact, Bool.and_eq_true, decide_eq_true_eq, List.all_eq_true]
    refine ⟨fun y mem => ?_, fun y mem => ?_⟩
    · obtain ⟨z, at_⟩ := Option.isSome_iff_exists.mp (AList.lookup_isSome.mpr mem)
      exact (h y z at_).1
    · obtain ⟨z, there, fine⟩ := accepts.offered mem
      rw [files y mem, there]
      exact fine
  · funext y
    by_cases mem : y ∈ responseNames
    · rw [Dir.contents, if_pos mem, files y mem]
    · rw [Dir.contents, if_neg mem, offer_narrow y mem]

lemma holds_copyResponse {d : Dir} (h : Keeps c tears r p pkg s₀ s) (accepts : Accepts g r pkg)
    (may : x.life.tears → tears) (root : s.1.root ≠ .absent) (found : s.1.versions.lookup (.ingress r) = some d)
    (failed : ∀ e t, x.life.faults ∨ Differs pkg d → Q (.error e) t)
    (rest : ∀ t d', Keeps c tears r p pkg s₀ t → Beside (.ingress r) s.1 t.1 → t.2 = s.2 →
      t.1.versions.lookup (.ingress r) = some d' → d'.exact responseNames = true →
      d'.contents responseNames = offer pkg → ¬Differs pkg d →
      Holds (disk x) (Keeps c tears r p pkg s₀) (f ()) Q t) :
    Holds (disk x) (Keeps c tears r p pkg s₀) ((copyResponse r d.id (offer pkg)).bind f) Q s := by
  simp only [copyResponse, bind_eq, Prog.bind_assoc]
  refine wp_reads (fun _ => h) reads_askInspect (fun e fault => failed e s (.inl fault)) fun _ _ => holds_look h ?_
  rw [found]
  refine holds_checked ?_ ?_
  · simp only [decide_true, Bool.true_and, List.all_eq_true, decide_eq_true_eq]
    intro y mem
    obtain ⟨z, at_⟩ := Option.isSome_iff_exists.mp (AList.lookup_isSome.mpr mem)
    exact (h.ingress d found y z at_).1
  refine holds_copyFiles h accepts may root found (by decide) (fun _ mem => mem) failed
    fun t d' keeps beside download found' copied => ?_
  have files : ∀ y ∈ responseNames, d'.files.lookup y = offer pkg y := fun y mem => by rw [copied.files, if_pos mem]
  obtain ⟨full, same⟩ := PartOf.full (keeps.ingress d' found') accepts files
  refine wp_reads (fun _ => keeps) reads_askInspect (fun e fault => failed e t (.inl fault)) fun _ _ => holds_look keeps ?_
  rw [found']
  refine holds_checked ?_ (rest t d' keeps beside download found' full same ?_)
  · simp [full, same, agreeOn]
  · rintro ⟨y, z, at_, other⟩
    exact other (copied.same y (h.ingress d found y z at_).1 z at_)

/-! ## What a download needs -/

/-- A state in which nothing of an earlier download is in the way: the versions root has its owner, an
ingress that is still needed holds whole files of the response, a client has no stage and beside its
version a whole ingress, and where the version is there the download directory is whole. -/
structure Unblocked (c : Target) (g : Config) (r : String) (pkg : Files) (s : Station) : Prop where
  root : s.1.root ≠ .unowned
  ingress : (.version r ∈ s.1.versions → c.adapter = .client) →
    ∀ d, s.1.versions.lookup (.ingress r) = some d → ¬Differs pkg d
  stage : c.adapter = .client → ∀ tx, .stage r tx ∉ s.1.versions
  retained : c.adapter = .client → .version r ∈ s.1.versions →
    ∀ d, s.1.versions.lookup (.ingress r) = some d → ∀ y ∈ responseNames, y ∈ d.files
  download : .version r ∈ s.1.versions → (c.adapter = .client → .ingress r ∉ s.1.versions) →
    ∀ files, s.2 = some files → Dir.exact downloadNames ⟨(0, 0), files⟩ = true ∧ g.validateManifest r files = true

/-- An ingress without a differing file can be completed. -/
lemma partial_of_same {d : Dir} (part : PartOf tears (offer pkg) d) (accepts : Accepts g r pkg) (same : ¬Differs pkg d) :
    d.partialResponse = true := by
  simp only [Dir.partialResponse, Bool.and_eq_true, decide_eq_true_eq, List.all_eq_true]
  refine ⟨fun y mem => ?_, fun y mem => ?_⟩
  all_goals
    obtain ⟨z, at_⟩ := Option.isSome_iff_exists.mp (AList.lookup_isSome.mpr mem)
  · exact (part y z at_).1
  · obtain ⟨w, there, fine⟩ := accepts.offered (part y z at_).1
    have offered : offer pkg y = some z := by
      by_contra other
      exact same ⟨y, z, at_, other⟩
    obtain rfl := Option.some.inj (there.symm.trans offered)
    rw [at_]
    exact fine

lemma mem_of_lookup {e : VersionEntry} {d : Dir} {versions : AList fun _ : VersionEntry => Dir}
    (found : versions.lookup e = some d) : e ∈ versions :=
  AList.lookup_isSome.mp (by rw [found]; rfl)

lemma Unblocked.clientFit (h : Unblocked c g r pkg s) (keeps : Keeps c tears r p pkg s₀ s) (accepts : Accepts g r pkg)
    (client : c.adapter = .client) : Lifecycle.ClientFit r p s.1 := by
  cases root : s.1.root with
  | absent => exact .inl root
  | unowned => exact absurd root h.root
  | ready =>
    refine .inr ⟨root, (keeps.clientVersions_iff client).mpr ⟨h.stage client, fun d found => ?_⟩⟩
    have same := h.ingress (fun _ => client) d found
    refine ⟨partial_of_same (keeps.ingress d found) accepts same, fun version => ?_⟩
    have there := h.retained client version d found
    simp only [agreeOn, List.all_eq_true, decide_eq_true_eq]
    refine ⟨there, fun y mem => ?_⟩
    obtain ⟨z, at_⟩ := Option.isSome_iff_exists.mp (AList.lookup_isSome.mpr (there y mem))
    rw [Dir.contents, if_pos mem, at_]
    by_contra other
    exact same ⟨y, z, at_, Ne.symm other⟩

lemma Unblocked.preparable (h : Unblocked c g r pkg s) (keeps : Keeps c tears r p pkg s₀ s) (accepts : Accepts g r pkg)
    (there : c.adapter = .client → .version r ∈ s.1.versions → .ingress r ∈ s.1.versions) : Preparable c r p s.1 :=
  ⟨h.root, fun client => ⟨h.clientFit keeps accepts client, there client⟩,
    fun needed d found => partial_of_same (keeps.ingress d found) accepts (h.ingress needed d found)⟩

lemma clientFit_stage (fit : Lifecycle.ClientFit r p s.1) (keeps : Keeps c tears r p pkg s₀ s) (client : c.adapter = .client)
    (tx : String) : .stage r tx ∉ s.1.versions := by
  rcases fit with absent | ⟨-, fit⟩
  · rw [keeps.bare absent]
    exact AList.notMem_empty _
  · exact ((keeps.clientVersions_iff client).mp fit).1 tx

/-- What is prepared and copied was not blocked. -/
lemma unblocked_of_copied (fit : Preparable c r p s.1) (keeps : Keeps c tears r p pkg s₀ s)
    (needed : .version r ∈ s.1.versions → c.adapter = .client)
    (same : ∀ d, s.1.versions.lookup (.ingress r) = some d → ¬Differs pkg d) : Unblocked c g r pkg s := by
  refine ⟨fit.root, fun _ => same, fun client => clientFit_stage (fit.client client).1 keeps client,
    fun client version d found y mem => ?_, fun version ingress => ?_⟩
  · rcases (fit.client client).1 with absent | ⟨-, ready⟩
    · rw [keeps.bare absent] at version
      exact absurd version (AList.notMem_empty _)
    · have full := (((keeps.clientVersions_iff client).mp ready).2 d found).2 version
      simp only [List.all_eq_true, decide_eq_true_eq] at full
      exact full.1 y mem
  · have client := needed version
    exact absurd ((fit.client client).2 version) (ingress client)

/-- Behind an installation a client can go on. -/
lemma clientFit_installed {t : Station} (installed : Installed r s.1 t.1) (fit : Lifecycle.ClientFit r p s.1)
    (client : c.adapter = .client) (keeps : Keeps c tears r p pkg s₀ s)
    (keeps' : Keeps c tears r p pkg s₀ t) : Lifecycle.ClientFit r p t.1 := by
  refine .inr ⟨installed.root, (keeps'.clientVersions_iff client).mpr ⟨fun tx there => ?_, fun d found => ?_⟩⟩
  · refine clientFit_stage fit keeps client tx ?_
    rw [← AList.lookup_isSome] at there ⊢
    rwa [← installed.others _ (by rintro ⟨⟩) (by rintro ⟨⟩)]
  · exact absurd (mem_of_lookup found) installed.ingress

/-! ## The parts of a download -/

/-- How a download ends. -/
inductive Downloads (c : Target) (g : Config) (x : Conditions) (r : String) (p : Pending) (pkg : Files)
    (s₀ : Lifecycle.State) (s : Station) : Except String String → Station → Prop
  | done {o : String} {t : Station} (free : Unblocked c g r pkg s) (version : .version r ∈ t.1.versions)
      (ingress : (.version r ∈ s.1.versions → c.adapter = .client) → .ingress r ∉ t.1.versions)
      (download : t.2 = none) : Downloads c g x r p pkg s₀ s (.ok o) t
  | refused {e : String} {t : Station} (unfit : x.life.faults ∨ ¬Timely c x.life r p (offer pkg) s₀ ∨ ¬Delivers x ∨
      ¬Unblocked c g r pkg s) : Downloads c g x r p pkg s₀ s (.error e) t

lemma Downloads.late {e : String} {t : Station} (h : x.life.faults ∨ ¬Timely c x.life r p (offer pkg) s₀) :
    Downloads c g x r p pkg s₀ s (.error e) t :=
  .refused (h.imp_right .inl)

lemma reads_published (keeps : Keeps c tears r p pkg s₀ s) (client : c.adapter = .client) : Reads (disk x) s published
    (fun b => b = true ↔ .version r ∈ s.1.versions) x.life.faults := by
  refine reads_look ?_
  by_cases absent : s.1.root = .absent
  · rw [if_pos absent]
    refine reads_ret ?_
    rw [keeps.bare absent]
    simp
  · rw [if_neg absent]
    refine reads_askInspect.bind id fun _ _ => reads_ret ?_
    rw [List.any_eq_true]
    constructor
    · rintro ⟨e, mem, is⟩
      rcases keeps.only client e mem with rfl | rfl | ⟨tx, rfl⟩
      · exact mem
      · cases is
      · cases is
    · intro there
      exact ⟨.version r, there, rfl⟩

lemma reads_stageStatus {v : Dir} (keeps : Keeps c tears r p pkg s₀ s) (start : Awaits c r p s₀)
    (client : c.adapter = .client) (version : s.1.versions.lookup (.version r) = some v) :
    Reads (disk x) s (clientStageStatus c)
      (fun o => Lifecycle.ClientFit r p s.1 ∧ o = ((Lifecycle.stagedStatus r s.1).selected, r))
      (x.life.faults ∨ ¬Timely c x.life r p (offer pkg) s₀ ∨ ¬Lifecycle.ClientFit r p s.1) := by
  simp only [clientStageStatus, bind_eq]
  refine (reads_helper (keeps.reads_clientStageStatus start client version offer_narrow)).bind id ?_
  rintro o ⟨fit, rfl⟩
  have action : stageAction (Lifecycle.stagedStatus r s.1).selected = some (Lifecycle.stagedStatus r s.1).action := by
    unfold Lifecycle.stagedStatus
    split <;> rfl
  have named : (Lifecycle.stagedStatus r s.1).requestId = some r := by
    unfold Lifecycle.stagedStatus
    split <;> rfl
  refine reads_check (fun refused => ?_) fun _ => ?_
  · rw [action] at refused
    simp at refused
  · rw [named]
    exact reads_ret ⟨fit, rfl⟩

/-- What a client knows of its version before the preparation. -/
def Discovers (c : Target) (r : String) (p : Pending) (s : Station) (o : Option (Selected × String)) : Prop :=
  (o = none ∧ (c.adapter = .client → .version r ∉ s.1.versions)) ∨
    (c.adapter = .client ∧ .version r ∈ s.1.versions ∧ Lifecycle.ClientFit r p s.1 ∧
      o = some ((Lifecycle.stagedStatus r s.1).selected, r))

lemma reads_discovered (keeps : Keeps c tears r p pkg s₀ s) (start : Awaits c r p s₀) : Reads (disk x) s (discovered c)
    (Discovers c r p s) (x.life.faults ∨ ¬Timely c x.life r p (offer pkg) s₀ ∨
      c.adapter = .client ∧ ¬Lifecycle.ClientFit r p s.1) := by
  unfold discovered
  by_cases client : c.adapter = .client
  · rw [if_pos client]
    refine (reads_published keeps client).bind .inl fun b version => ?_
    cases b with
    | false => exact reads_ret (.inl ⟨rfl, fun _ there => by simpa using version.mpr there⟩)
    | true =>
      have there := version.mp rfl
      obtain ⟨v, found⟩ := Option.isSome_iff_exists.mp (AList.lookup_isSome.mpr there)
      refine (reads_stageStatus keeps start client found).bind (fun fails => ?_) fun o status => ?_
      · exact fails.imp_right fun fails => fails.imp_right fun unfit => ⟨client, unfit⟩
      · obtain ⟨fit, rfl⟩ := status
        exact reads_ret (.inr ⟨client, there, fit, rfl⟩)
  · rw [if_neg client]
    exact reads_ret (.inl ⟨rfl, fun is => absurd is client⟩)

/-- How the preparation by the helper ends. -/
inductive PreparedAs (c : Target) (k : Lifecycle.Conditions) (r : String) (p : Pending) (offer : Contents)
    (s : Lifecycle.State) : Except String Prepared → Lifecycle.State → Prop
  | installed (fit : Preparable c r p s) (server : c.adapter ≠ .client) (there : .version r ∈ s.versions) :
      PreparedAs c k r p offer s (.ok ⟨.installed, r, none⟩) { s with root := .ready }
  | ready {o : Report} {t : Lifecycle.State} {d : Dir} (fit : Preparable c r p s) (status : o = .prepared ∨ o = .existing)
      (version : .version r ∈ s.versions → c.adapter = .client) (opened : Opened r s t d) :
      PreparedAs c k r p offer s (.ok ⟨o, r, some d.id⟩) t
  | refused {e : String} {t : Lifecycle.State} (unfit : k.faults ∨ ¬Timely c k r p offer s ∨ ¬Preparable c r p s) :
      PreparedAs c k r p offer s (.error e) t

lemma holds_prepareOutput {k : Lifecycle.Conditions} {offer : Contents} {s : Lifecycle.State}
    (h : Going c tears r p offer s₀ s) (awaits : Awaits c r p s) :
    Holds (Lifecycle.freshDisk k) (Going c tears r p offer s₀) (prepareOutput c) (PreparedAs c k r p offer s) s := by
  simp only [prepareOutput, bind_eq]
  refine wp_reads (fun _ => h) (Lifecycle.reads_fresh awaits.reads_pendingRequestId) (fun e fault => .refused (.inl fault)) ?_
  rintro r rfl
  refine wp_bind.mpr (wp_mono (wp_invariant (I := Going c tears r p offer s₀) (fun _ _ _ _ going => going) h
    (h.responsePrepare awaits)) (fun _ _ _ going => going) fun out t ended => ?_)
  obtain ⟨ended, going⟩ := ended
  cases ended with
  | refused unfit => exact .refused unfit
  | installed fit server there => exact .installed fit server there
  | @ready o _ d fit status version opened =>
    have other : o ≠ .installed := by rcases status with rfl | rfl <;> decide
    change Holds _ _ (if o = .installed then _ else _) _ _
    rw [if_neg other]
    refine holds_look going ?_
    rw [opened.ingress]
    exact .ready fit status version opened

/-- A download directory that can be removed beside an installed version. -/
def Removable (g : Config) (r : String) (s : Station) : Prop :=
  ∀ files, s.2 = some files → Dir.exact downloadNames ⟨(0, 0), files⟩ = true ∧ g.validateManifest r files = true

/-- The end of a download whose response is installed. -/
lemma holds_finishInstalled {o : Option (Selected × String)} {t : Station} (h : Keeps c tears r p pkg s₀ t)
    (same : t.2 = s.2) (finished : c.adapter = .client → o = some (.staged, r)) (version : .version r ∈ t.1.versions)
    (gone : (.version r ∈ s.1.versions → c.adapter = .client) → .ingress r ∉ t.1.versions)
    (free : Unblocked c g r pkg s ↔ Removable g r s) : Holds (disk x) (Keeps c tears r p pkg s₀)
      (finishInstalled c g o ⟨.installed, r, none⟩) (Downloads c g x r p pkg s₀ s) t := by
  simp only [finishInstalled, bind_eq]
  refine holds_checked ?_ (holds_look h ?_)
  · by_cases client : c.adapter = .client
    · simp [finished client]
    · simp [client]
  cases download : t.2 with
  | none =>
    have removable : Removable g r s := fun files there => by
      rw [← same, download] at there
      cases there
    exact .done (free.mpr removable) version gone download
  | some files =>
    have there : s.2 = some files := same ▸ download
    simp only [Option.isSome_some, if_true]
    have blocked {e : String} {u : Station} (h : x.life.faults ∨ ¬Removable g r s) : Downloads c g x r p pkg s₀ s (.error e) u :=
      .refused (h.imp_right fun kept => .inr (.inr (mt free.mp kept)))
    refine wp_reads (fun _ => h) reads_openDownload (fun e fails => blocked ?_) fun files' read => ?_
    · exact fails.imp_right fun none_ removable => none_ ⟨files, download, (removable files there).1⟩
    obtain rfl := Option.some.inj (download.symm.trans read.1)
    refine holds_check (fun refused => blocked (.inr fun removable => ?_)) fun valid => ?_
    · rw [(removable files there).2] at refused
      cases refused
    have removable : Removable g r s := fun files' there' => by
      obtain rfl := Option.some.inj (there.symm.trans there')
      exact ⟨read.2, valid⟩
    refine holds_removeDownload h read (fun e u fault => blocked (.inl fault)) ?_
    exact .done (free.mpr removable) version gone rfl

lemma reads_versionDigests {d : Dir} (found : s.1.versions.lookup (.version r) = some d) :
    Reads (Lifecycle.disk x.life) s.1 (versionDigests c r) (fun digests => digests = (c.digest (d.contents responseNames)
      .artifact, c.digest (d.contents responseNames) .crt, (d.contents responseNames .crt).bind c.leafSpki)) False := by
  refine reads_look ?_
  rw [found]
  exact reads_ret rfl

/-- The installation of a copied response. -/
lemma holds_installResponse {d : Dir} {t : Station} (keeps : Keeps c tears r p pkg s₀ t)
    (start : Awaits c r p s₀) (accepts : Accepts g r pkg) (root : t.1.root = .ready)
    (found : t.1.versions.lookup (.ingress r) = some d) (full : d.exact responseNames = true)
    (same : d.contents responseNames = offer pkg) (download : t.2 = some pkg)
    (fit : c.adapter = .client → Lifecycle.ClientFit r p t.1) (free : Unblocked c g r pkg s) :
    Holds (disk x) (Keeps c tears r p pkg s₀) (installResponse c r) (Downloads c g x r p pkg s₀ s) t := by
  simp only [installResponse, bind_eq]
  have install := wp_invariant (I := Going c tears r p (offer pkg) s₀) (fun _ _ _ _ going => going) keeps
    (keeps.install (k := x.life) start root found full same)
  obtain ⟨life, downloaded⟩ := t
  obtain rfl : downloaded = some pkg := download
  refine wp_first (fun _ _ t u going => going) install (fun e u ended => ?_) fun o u ended => ?_
  · cases ended.1 with
    | refused unfit =>
      refine .refused (unfit.imp_right fun unfit => ?_)
      exact unfit.imp_right fun unfit => absurd (fit unfit.1) unfit.2
  obtain ⟨ended, going⟩ := ended
  cases ended with
  | done client status installed =>
    have keeps' : Keeps c tears r p pkg s₀ (u, some pkg) := going
    have finish : ∀ msg, Holds (disk x) (Keeps c tears r p pkg s₀) (removeDownload.bind fun _ => (.ret msg : Run String))
        (Downloads c g x r p pkg s₀ s) (u, some pkg) := fun msg =>
      holds_removeDownload keeps' ⟨rfl, accepts.full⟩ (fun e t fault => .refused (.inl fault))
        (.done free installed.version (fun _ => installed.ingress) rfl)
    by_cases is : c.adapter = .client
    · have fits := clientFit_installed (s := (life, some pkg)) (t := (u, some pkg)) installed (client is) is keeps keeps'
      obtain ⟨v, version⟩ := Option.isSome_iff_exists.mp (AList.lookup_isSome.mpr installed.version)
      have digests := reads_versionDigests (c := c) (x := x) (s := (u, some pkg)) version
      rw [if_pos is]
      refine holds_checked (by simp [status, Lifecycle.installReport, is]) ?_
      refine wp_reads (fun _ => keeps') (reads_helper digests) (fun _ false_ => false_.elim) ?_
      rintro _ rfl
      refine wp_reads (fun _ => keeps') (reads_stageStatus keeps' start is version) (fun e fails => .refused ?_) ?_
      · exact fails.imp_right fun fails => fails.imp_right fun unfit => absurd fits unfit
      rintro _ ⟨-, rfl⟩
      refine wp_reads (fun _ => keeps') (reads_helper digests) (fun _ false_ => false_.elim) ?_
      rintro _ rfl
      refine holds_checked ?_ (finish _)
      simp [Lifecycle.stagedStatus, installed.ingress]
    · rw [if_neg is]
      refine holds_checked ?_ (finish _)
      rw [status, Lifecycle.installReport, if_neg is]
      split <;> rfl

/-! ## A whole download -/

/-- Where a server has its version, only the download directory is left to be in the way. -/
lemma unblocked_installed (server : c.adapter ≠ .client) (fit : Preparable c r p s.1) (there : .version r ∈ s.1.versions) :
    Unblocked c g r pkg s ↔ Removable g r s := by
  refine ⟨fun free => free.download there fun client => absurd client server, fun removable => ⟨fit.root, fun needed => ?_,
    fun client => absurd client server, fun client => absurd client server, fun _ _ => removable⟩⟩
  exact absurd (needed there) server

lemma unblocked_staged (keeps : Keeps c tears r p pkg s₀ s) (client : c.adapter = .client)
    (fit : Lifecycle.ClientFit r p s.1) (there : .version r ∈ s.1.versions) (absent : .ingress r ∉ s.1.versions) :
    Unblocked c g r pkg s ↔ Removable g r s := by
  have none_ {d : Dir} (found : s.1.versions.lookup (.ingress r) = some d) : False := absent (mem_of_lookup found)
  refine ⟨fun free => free.download there fun _ => absent, fun removable => ⟨?_, fun _ d found => (none_ found).elim,
    fun _ => clientFit_stage fit keeps client, fun _ _ d found => (none_ found).elim, fun _ _ => removable⟩⟩
  rcases fit with root | ⟨root, -⟩ <;> rw [root] <;> decide

/-- From the prepared ingress to the end. -/
lemma holds_receive {o : Option (Selected × String)} {status : Report} {d : Dir} {t : Station}
    (h : Keeps c tears r p pkg s₀ s) (keeps : Keeps c tears r p pkg s₀ t) (start : Awaits c r p s₀)
    (accepts : Accepts g r pkg) (serves : Serves g r pkg x) (may : x.life.tears → tears) (fit : Preparable c r p s.1)
    (reported : status = .prepared ∨ status = .existing) (needed : .version r ∈ s.1.versions → c.adapter = .client)
    (opened : Opened r s.1 t.1 d) : Holds (disk x) (Keeps c tears r p pkg s₀)
      (receive c g o ⟨status, r, some d.id⟩) (Downloads c g x r p pkg s₀ s) t := by
  have made : t.1.root ≠ .absent := by rw [opened.root]; decide
  have other : status ≠ .installed := by rcases reported with rfl | rfl <;> decide
  simp only [receive, bind_eq, ofOption, bind_ret]
  rw [if_neg other]
  refine holds_checked (by simpa using reported) ?_
  refine holds_fetchFiles keeps accepts serves (fun e u fails => .refused ?_) ?_
  · exact fails.imp_right fun undelivered => .inr (.inl undelivered)
  have fetched : Keeps c tears r p pkg s₀ (t.1, some pkg) := keeps
  refine holds_copyResponse fetched accepts may made opened.ingress (fun e u fails => ?_)
    fun u d' keeps' beside download found full same whole => ?_
  · refine .refused (fails.imp_right fun differs => .inr (.inr fun free => ?_))
    cases there : s.1.versions.lookup (.ingress r) with
    | some d' =>
      obtain rfl := opened.kept d' there
      exact free.ingress needed d there differs
    | none =>
      obtain ⟨y, z, at_, -⟩ := differs
      rw [opened.new there] at at_
      cases at_
  have free : Unblocked c g r pkg s := by
    refine unblocked_of_copied fit h needed fun d'' there => ?_
    rw [← opened.kept d'' there]
    exact whole
  have root : u.1.root = .ready := beside.root.trans opened.root
  refine holds_installResponse keeps' start accepts root found full same download (fun client => ?_) free
  refine .inr ⟨root, (keeps'.clientVersions_iff client).mpr ⟨fun tx there => ?_, fun d'' there => ?_⟩⟩
  · refine clientFit_stage (fit.client client).1 h client tx ?_
    rw [← AList.lookup_isSome] at there ⊢
    rwa [← opened.others _ (by rintro ⟨⟩), ← beside.others _ (by rintro ⟨⟩)]
  · obtain rfl := Option.some.inj (found.symm.trans there)
    obtain ⟨part, all⟩ := Lifecycle.exact_partial full
    exact ⟨part, fun _ => ⟨all, by rw [same]; simp [agreeOn]⟩⟩

theorem holds_downloadResponse (h : Keeps c tears r p pkg s₀ s) (start : Awaits c r p s₀) (accepts : Accepts g r pkg)
    (serves : Serves g r pkg x) (may : x.life.tears → tears) : Holds (disk x) (Keeps c tears r p pkg s₀)
      (downloadResponse c g) (Downloads c g x r p pkg s₀ s) s := by
  have awaits := h.awaits start
  simp only [downloadResponse, bind_eq]
  refine wp_reads (fun _ => h) (reads_discovered h start) (fun e fails => .refused ?_) fun o discovers => ?_
  · exact fails.imp_right fun fails => fails.imp_right fun unfit =>
      .inr fun free => unfit.2 (free.clientFit h accepts unfit.1)
  have prepare : (c.adapter = .client → .version r ∈ s.1.versions → .ingress r ∈ s.1.versions) →
      (∀ y ∈ o, y.2 = r) → Holds (disk x) (Keeps c tears r p pkg s₀)
        ((helper (prepareOutput c)).bind fun prepared => (require (o.all fun y => y.2 = prepared.requestId) failed).bind
          fun _ => receive c g o prepared) (Downloads c g x r p pkg s₀ s) s := by
    intro there named
    obtain ⟨life, download⟩ := s
    have output := wp_invariant (I := Going c tears r p (offer pkg) s₀) (fun _ _ _ _ going => going) h
      (holds_prepareOutput (k := x.life) h awaits)
    refine wp_first (fun _ _ t u going => going) output (fun e u ended => ?_) fun prepared u ended => ?_
    · cases ended.1 with
      | refused unfit =>
        refine .refused (unfit.imp_right fun unfit => unfit.imp (mt h.timely.mpr) fun unfit => .inr fun free => ?_)
        exact unfit (free.preparable h accepts there)
    obtain ⟨ended, going⟩ := ended
    have all : ∀ q : Prepared, q.requestId = r → (o.all fun y => y.2 = q.requestId) = true := by
      rintro q rfl
      rw [Option.all_eq_true]
      exact fun y mem => decide_eq_true (named y mem)
    cases ended with
    | installed fit server version =>
      refine holds_checked (all _ rfl) ?_
      exact holds_finishInstalled (t := (_, download)) going rfl (fun client => absurd client server) version
        (fun needed => absurd (needed version) server) (unblocked_installed server fit version)
    | ready fit status version opened =>
      refine holds_checked (all _ rfl) ?_
      exact holds_receive (t := (_, download)) h going start accepts serves may fit status version opened
  rcases discovers with ⟨rfl, absent⟩ | ⟨client, version, fit, rfl⟩
  · exact prepare (fun client version => absurd version (absent client)) (by simp)
  · by_cases there : .ingress r ∈ s.1.versions
    · have status : Lifecycle.stagedStatus r s.1 = ⟨.stagedPending, some r, .installResponse⟩ := if_pos there
      rw [status] at prepare ⊢
      exact prepare (fun _ _ => there) (by simp)
    · have status : Lifecycle.stagedStatus r s.1 = ⟨.staged, some r, .none⟩ := if_neg there
      rw [status]
      refine holds_checked (by simp) ?_
      exact holds_finishInstalled h rfl (fun _ => rfl) version (fun _ => there) (unblocked_staged h client fit version there)

end PlatformConfig.HostGitlab
