import PlatformConfig.LifecycleCommands

/-!
# The response commands change the versions root only

Preparation, import and installation make no move outside the versions root, and below it they
never touch a published version.
-/
namespace PlatformConfig.Lifecycle

open CrashProgram CrashDisk Prog

variable {c : Target} {k : Conditions} {s t : State} {r : String} {α β : Type}
  {A : Label → State → Prop} {Q : Except String β → State → Prop}

lemma kept_insert {e : VersionEntry} (other : ∀ r, e ≠ .version r) (d : Dir) (r : String) :
    (s.versions.insert e d).lookup (.version r) = s.versions.lookup (.version r) :=
  AList.lookup_insert_ne (other r).symm

lemma kept_erase {e : VersionEntry} (other : ∀ r, e ≠ .version r) (r : String) :
    (s.versions.erase e).lookup (.version r) = s.versions.lookup (.version r) :=
  AList.lookup_erase_ne (other r).symm

lemma change_move {e : VersionEntry} {g : Files → Option Files} (other : ∀ r, e ≠ .version r)
    (applied : s.change e g = some t) : Move c .tree s t := by
  obtain ⟨d, -, applied⟩ := Option.bind_eq_some_iff.mp applied
  obtain ⟨files, -, applied⟩ := Option.bind_eq_some_iff.mp applied
  cases applied
  exact .files (kept_insert other _)

lemma writeFile_move {e : VersionEntry} {f : FileName} {d : Data} (other : ∀ r, e ≠ .version r)
    (applied : (TreeWrite.writeFile e f d).apply s = some t) : Move c .tree s t := by
  simp only [TreeWrite.apply] at applied
  exact change_move other applied

lemma unlinkFile_move {e : VersionEntry} {f : FileName} (other : ∀ r, e ≠ .version r)
    (applied : (TreeWrite.unlinkFile e f).apply s = some t) : Move c .tree s t := by
  simp only [TreeWrite.apply] at applied
  exact change_move other applied

lemma mkdir_move {e : VersionEntry} {id : Identity} (other : ∀ r, e ≠ .version r)
    (applied : (TreeWrite.mkdir e id).apply s = some t) : Move c .tree s t := by
  simp only [TreeWrite.apply] at applied
  split at applied
  · cases applied
  · cases applied
    exact .files (kept_insert other _)

lemma rmdir_move {e : VersionEntry} (other : ∀ r, e ≠ .version r)
    (applied : (TreeWrite.rmdir e).apply s = some t) : Move c .tree s t := by
  simp only [TreeWrite.apply] at applied
  obtain ⟨d, -, applied⟩ := Option.bind_eq_some_iff.mp applied
  split at applied
  · cases applied
    exact .files (kept_erase other)
  · cases applied

/-- A change below the versions root, in front of the rest. -/
lemma does_tree {w : TreeWrite} {e : String} {f : Unit → Run β} (tree : ∀ t, A .tree t)
    (move : ∀ t, w.apply s = some t → Move c .tree s t) (failed : ∀ e, Q (.error e) s)
    (rest : ∀ t, w.apply s = some t → Does c k A (f ()) Q t) :
    Does c k A ((write (.tree w) e).bind f) Q s :=
  does_write (fun _ => failed _) fun t applied => ⟨.move (tree s) (move t applied), rest t applied⟩

lemma reads_openVersionsRoot : Reads (disk k) s openVersionsRoot (fun _ => s.root = .ready)
    (k.faults ∨ s.root ≠ .ready) := by
  refine reads_inspect.bind .inl fun _ _ => reads_look ?_
  refine (reads_require fun refused => .inr ?_).mono (fun _ ready => of_decide_eq_true ready) id
  exact of_decide_eq_false refused

lemma reads_clientStagingPreflight : Reads (disk k) s (clientStagingPreflight c) (fun _ => True)
    True := by
  refine reads_stateEntries.bind (fun _ => trivial) fun s' _ => ?_
  refine reads_check (fun _ => trivial) fun _ => ?_
  refine reads_pendingRequestId.bind (fun _ => trivial) fun r _ => reads_inspect.bind (fun _ => trivial) fun _ _ => ?_
  refine reads_validatePending.bind (fun _ => trivial) fun p _ => ?_
  refine reads_check (fun _ => trivial) fun _ => reads_check (fun _ => trivial) fun _ => reads_look ?_
  by_cases absent : s.root = .absent
  · rw [if_pos absent]
    exact reads_inspect.mono (fun _ _ => trivial) fun _ => trivial
  · rw [if_neg absent]
    refine reads_openVersionsRoot.bind (fun _ => trivial) fun _ _ => ?_
    refine reads_inspect.bind (fun _ => trivial) fun _ _ => ?_
    exact (reads_require fun _ => trivial).mono (fun _ _ => trivial) id

lemma reads_commonOpen : Reads (disk k) s (commonOpen c) (fun _ => True) True := by
  refine reads_inspect.bind (fun _ => trivial) fun _ _ => ?_
  by_cases client : c.adapter = .client
  · rw [if_pos client]
    exact reads_clientStagingPreflight
  · rw [if_neg client]
    exact reads_ret trivial

lemma reads_receivable : Reads (disk k) s (receivable c r)
    (fun p => ∃ n, k.clock n ∧ s.pendingAt c r n = some p) True := by
  refine reads_validatePending.bind (fun _ => trivial) fun p there => ?_
  refine reads_check (fun _ => trivial) fun _ => reads_check (fun _ => trivial) fun _ => ?_
  exact reads_check (fun _ => trivial) fun _ => reads_ret there

lemma reads_readIngress : Reads (disk k) s (readIngress r) (fun _ => True) True := by
  refine reads_inspect.bind (fun _ => trivial) fun _ _ => reads_look ?_
  refine (reads_ofOption (F := True) fun _ => trivial).bind id fun d _ => ?_
  exact (reads_require fun _ => trivial).mono (fun _ _ => trivial) id

/-- The end of a program about which nothing needs to be known. -/
abbrev Any : Except String β → State → Prop := fun _ _ => True

lemma does_end {p : Run α} {R : α → Prop} {F : Prop} (h : Reads (disk k) s p R F) :
    Does c k A p Any s := by
  rw [← bind_ret_right p]
  exact does_reads h (fun _ _ => trivial) fun _ _ => trivial

lemma does_createVersionsRoot {f : Unit → Run β} (tree : ∀ t, A .tree t)
    (rest : ∀ t, Does c k A (f ()) Any t) : Does c k A ((createVersionsRoot c).bind f) Any s := by
  have make : ∀ {made t u}, (TreeWrite.makeRoot made).apply t = some u → Move c .tree t u := by
    rintro made t u ⟨⟩
    exact .root made
  have opened : ∀ t, Does c k A (openVersionsRoot.bind f) Any t := fun t =>
    does_reads reads_openVersionsRoot (fun _ _ => trivial) fun _ _ => rest t
  simp only [createVersionsRoot]
  by_cases openbao : c.adapter = .openbao
  · simp only [if_pos openbao, bind_eq, Prog.bind_assoc]
    refine does_tree tree (fun _ => make) (fun _ => trivial) fun t _ => ?_
    exact does_tree tree (fun _ => make) (fun _ => trivial) fun t _ => opened t
  · simp only [if_neg openbao, bind_eq, Prog.bind_assoc]
    exact does_tree tree (fun _ => make) (fun _ => trivial) fun t _ => opened t

lemma does_preparedRoot {check : Bool} {f : Unit → Run β} (tree : check = false → ∀ t, A .tree t)
    (rest : ∀ t, Does c k A (f ()) Any t) :
    Does c k A ((preparedRoot c check s).bind f) Any s := by
  have opened : ∀ t, Does c k A (openVersionsRoot.bind f) Any t := fun t =>
    does_reads reads_openVersionsRoot (fun _ _ => trivial) fun _ _ => rest t
  simp only [preparedRoot, bind_eq]
  by_cases absent : s.root = .absent
  · simp only [if_pos absent, Prog.bind_assoc]
    refine does_check (fun _ => trivial) fun unchecked => ?_
    exact does_createVersionsRoot (tree (by simpa using unchecked)) opened
  · simp only [if_neg absent]
    exact opened s

lemma does_prepareIngress {check : Bool} (tree : check = false → ∀ t, A .tree t) :
    Does c k A (prepareIngress c check r s) Any s := by
  simp only [prepareIngress]
  by_cases there : .ingress r ∈ s.versions
  · rw [if_pos there]
    exact does_reads reads_readIngress (fun _ _ => trivial) fun _ _ => trivial
  · rw [if_neg there]
    refine does_check (fun _ => trivial) fun _ => ?_
    cases check with
    | true => trivial
    | false =>
      simp only [Bool.false_eq_true, if_false, bind_eq]
      have asked : Reads (disk k) s (ask Ask.identity : Run Identity) (fun _ => True) True := by
        rw [← bind_ret_right (ask Ask.identity)]
        exact reads_ask fun _ _ => reads_ret trivial
      refine does_reads asked (fun _ _ => trivial) fun id _ => ?_
      refine does_tree (tree rfl) (fun t => mkdir_move (by rintro r ⟨⟩)) (fun _ => trivial) fun t _ => ?_
      exact does_reads reads_readIngress (fun _ _ => trivial) fun _ _ => trivial

theorem does_targetResponsePrepare {check : Bool} (tree : check = false → ∀ t, A .tree t) :
    Does c k A (targetResponsePrepare c check) Any s := by
  simp only [targetResponsePrepare, bind_eq]
  refine does_reads reads_pendingRequestId (fun _ _ => trivial) fun r _ => ?_
  simp only [responsePrepare, bind_eq]
  refine does_reads reads_commonOpen (fun _ _ => trivial) fun _ _ => ?_
  refine does_reads reads_stateEntries (fun _ _ => trivial) ?_
  rintro s ⟨rfl, -⟩
  refine does_check (fun _ => trivial) fun _ => does_preparedRoot tree fun t => does_look ?_
  by_cases installed : .version r ∈ t.versions ∧ c.adapter ≠ .client
  · rw [if_pos installed]
    exact does_reads reads_validateVersion (fun _ _ => trivial) fun _ _ => trivial
  · rw [if_neg installed]
    refine does_reads reads_inspect (fun _ _ => trivial) fun _ _ => ?_
    refine does_reads reads_receivable (fun _ _ => trivial) fun _ _ => ?_
    exact does_prepareIngress tree

lemma ingress_ne (r r' : String) : VersionEntry.ingress r ≠ .version r' := by rintro ⟨⟩

lemma stage_ne (r tx r' : String) : VersionEntry.stage r tx ≠ .version r' := by rintro ⟨⟩

lemma does_writeMissing {source : Contents} {l : List FileName} {f : Unit → Run β}
    (tree : ∀ t, A .tree t) (failed : ∀ e t, Q (.error e) t) (rest : ∀ t, Does c k A (f ()) Q t) :
    Does c k A ((writeMissing r source l).bind f) Q s := by
  induction l generalizing s with
  | nil => exact rest s
  | cons name l ih =>
    simp only [writeMissing, bind_eq, Prog.bind_assoc]
    refine does_reads reads_inspect (fun e _ => failed e s) fun _ _ => ?_
    exact does_tree tree (fun t => writeFile_move (ingress_ne r)) (fun e => failed e s) fun t _ => ih

lemma does_removeCreated {l : List FileName} {f : Unit → Run β} (tree : ∀ t, A .tree t)
    (rest : ∀ t, Does c k A (f ()) Q t) : Does c k A ((removeCreated r l).bind f) Q s := by
  induction l generalizing s with
  | nil => exact rest s
  | cons name l ih =>
    simp only [removeCreated, bind_eq, Prog.bind_assoc]
    refine does_look ?_
    by_cases there : ((s.versions.lookup (.ingress r)).any fun d => name ∈ d.files) = true
    · simp only [if_pos there]
      rw [Prog.bind_assoc]
      refine wp_bind.mpr (wp_handle.mpr ?_)
      rw [← bind_ret_right (write _ _)]
      exact does_tree tree (fun t => unlinkFile_move (ingress_ne r)) (fun e => ih) fun t _ => ih
    · simp only [if_neg there]
      exact ih

lemma reads_recheckImport {p : Pending} {source : Contents} {l : List FileName} : Reads (disk k) s
    (recheckImport c r p source l) (fun _ => True) True := by
  refine reads_inspect.bind (fun _ => trivial) fun _ _ => ?_
  refine reads_validatePending.bind (fun _ => trivial) fun p' _ => reads_check (fun _ => trivial) ?_
  refine fun _ => reads_pendingRequestId.bind (fun _ => trivial) fun r' _ => reads_check (fun _ => trivial) fun _ => ?_
  refine reads_inspect.bind (fun _ => trivial) fun _ _ => reads_look ?_
  refine (reads_ofOption (F := True) fun _ => trivial).bind id fun d _ => ?_
  exact (reads_require fun _ => trivial).mono (fun _ _ => trivial) id

lemma does_importFiles {check : Bool} {p : Pending} {source : Contents} {d : Dir}
    (tree : check = false → ∀ t, A .tree t) :
    Does c k A (importFiles c check r p source d) Any s := by
  simp only [importFiles, bind_eq]
  refine wp_bind.mpr (wp_handle.mpr ?_)
  cases check with
  | true =>
    simp only [if_true, pure_eq, bind_ret]
    rw [← bind_ret_right (recheckImport _ _ _ _ _)]
    exact does_reads reads_recheckImport (fun _ _ => trivial) fun _ _ => trivial
  | false =>
    simp only [Bool.false_eq_true, if_false]
    have undo : ∀ e t, Does c k A
        ((removeCreated r (responseNames.filter fun f => f ∉ d.files)).bind fun _ => .fail e)
        (andThen (disk k).semantics (fun _ s t => Step c k A s t) (fun _ : Unit =>
          (pure (if (responseNames.filter fun f => f ∉ d.files).isEmpty then .existing
            else .imported) : Run Report)) Any) t := fun e t =>
      does_removeCreated (tree rfl) fun _ => trivial
    refine does_writeMissing (tree rfl) undo fun t => ?_
    rw [← bind_ret_right (recheckImport _ _ _ _ _)]
    exact does_reads reads_recheckImport (fun e _ => undo e t) fun _ _ => trivial

theorem does_targetResponseImport {check : Bool} (tree : check = false → ∀ t, A .tree t) :
    Does c k A (targetResponseImport c check) Any s := by
  simp only [targetResponseImport, bind_eq]
  refine does_reads reads_commonOpen (fun _ _ => trivial) fun _ _ => ?_
  refine does_reads reads_stateEntries (fun _ _ => trivial) ?_
  rintro s ⟨rfl, -⟩
  refine does_check (fun _ => trivial) fun _ => ?_
  refine does_reads reads_pendingRequestId (fun _ _ => trivial) fun r _ => ?_
  refine does_reads reads_inspect (fun _ _ => trivial) fun _ _ => ?_
  refine does_reads reads_receivable (fun _ _ => trivial) fun p _ => ?_
  refine does_reads reads_inspect (fun _ _ => trivial) fun _ _ => ?_
  refine does_reads reads_openVersionsRoot (fun _ _ => trivial) fun _ _ => ?_
  have offered : Reads (disk k) s (ask Ask.source : Run (Option Files)) (fun _ => True) True := by
    rw [← bind_ret_right (ask Ask.source)]
    exact reads_ask fun _ _ => reads_ret trivial
  refine does_reads offered (fun _ _ => trivial) fun o _ => ?_
  refine does_reads (reads_ofOption (F := True) fun _ => trivial) (fun _ _ => trivial) fun files _ => ?_
  refine does_check (fun _ => trivial) fun _ => ?_
  refine does_reads reads_inspect (fun _ _ => trivial) fun _ _ => does_look ?_
  refine does_reads (reads_ofOption (F := True) fun _ => trivial) (fun _ _ => trivial) fun d _ => ?_
  exact does_check (fun _ => trivial) fun _ => does_importFiles tree

lemma does_unlinkAll {l : List FileName} {f : Unit → Run β} (tree : ∀ t, A .tree t)
    (rest : ∀ t, Does c k A (f ()) Any t) :
    Does c k A ((unlinkAll (.ingress r) l).bind f) Any s := by
  induction l generalizing s with
  | nil => exact rest s
  | cons name l ih =>
    simp only [unlinkAll, bind_eq, Prog.bind_assoc]
    refine does_reads reads_inspect (fun _ _ => trivial) fun _ _ => ?_
    exact does_tree tree (fun t => unlinkFile_move (ingress_ne r)) (fun _ => trivial) fun t _ => ih

lemma does_removeExactTree {f : Unit → Run β} (tree : ∀ t, A .tree t)
    (rest : ∀ t, Does c k A (f ()) Any t) :
    Does c k A ((removeExactTree r).bind f) Any s := by
  simp only [removeExactTree, bind_eq, Prog.bind_assoc]
  refine does_unlinkAll tree fun t => ?_
  refine does_reads reads_inspect (fun _ _ => trivial) fun _ _ => ?_
  exact does_tree tree (fun t => rmdir_move (ingress_ne r)) (fun _ => trivial) fun t _ => rest t

/-- Only the versions root differs. -/
def Rooted (s t : State) : Prop := ∃ v, t = { s with versions := v }

lemma does_writeStage {tx : String} {files : Contents} {l : List FileName} {f : Unit → Run β}
    (tree : ∀ t, A .tree t) (rest : ∀ t, Rooted s t → Does c k A (f ()) Any t) :
    Does c k A ((writeStage (.stage r tx) files l).bind f) Any s := by
  induction l generalizing s with
  | nil => exact rest s ⟨s.versions, rfl⟩
  | cons name l ih =>
    simp only [writeStage, bind_eq, Prog.bind_assoc]
    refine does_tree tree (fun t => writeFile_move (stage_ne r tx)) (fun _ => trivial) fun t applied => ?_
    refine ih fun u rooted => rest u ?_
    obtain ⟨d, -, applied⟩ := Option.bind_eq_some_iff.mp applied
    obtain ⟨files, -, applied⟩ := Option.bind_eq_some_iff.mp applied
    cases applied
    obtain ⟨v, rfl⟩ := rooted
    exact ⟨v, rfl⟩

/-- A version is published from a stage that holds the files of its publication. -/
lemma does_publishVersion {p : Pending} {response : Contents} {n m : ℕ} {v : Validated}
    {f : Unit → Run β} (tree : ∀ t, A .tree t) (pending : s.pendingAt c r n = some p)
    (valid : c.validateResponseFiles response p m = some v)
    (rest : ∀ t, Does c k A (f ()) Any t) :
    Does c k A ((publishVersion c r (publication p.files response)).bind f) Any s := by
  simp only [publishVersion, bind_eq, Prog.bind_assoc]
  have asked : Reads (disk k) s (ask Ask.transaction : Run String) (fun _ => True) True := by
    rw [← bind_ret_right (ask Ask.transaction)]
    exact reads_ask fun _ _ => reads_ret trivial
  have asked' : Reads (disk k) s (ask Ask.identity : Run Identity) (fun _ => True) True := by
    rw [← bind_ret_right (ask Ask.identity)]
    exact reads_ask fun _ _ => reads_ret trivial
  refine does_reads asked (fun _ _ => trivial) fun tx _ => ?_
  refine does_reads asked' (fun _ _ => trivial) fun id _ => ?_
  refine does_tree tree (fun t => mkdir_move (stage_ne r tx)) (fun _ => trivial) fun t made => ?_
  refine does_writeStage tree fun u written => ?_
  have rooted : Rooted s u := by
    simp only [TreeWrite.apply] at made
    split at made
    · cases made
    · cases made
      obtain ⟨v, rfl⟩ := written
      exact ⟨v, rfl⟩
  refine does_reads reads_inspect (fun _ _ => trivial) fun _ _ => does_look ?_
  refine does_reads (reads_ofOption (F := True) fun _ => trivial) (fun _ _ => trivial) fun d stage => ?_
  refine does_check (fun _ => trivial) fun whole => ?_
  simp only [Bool.and_eq_true] at whole
  refine does_reads reads_validatePending (fun _ _ => trivial) fun _ _ => ?_
  refine does_reads reads_inspect (fun _ _ => trivial) fun _ _ => ?_
  refine does_tree tree (fun w applied => ?_) (fun _ => trivial) fun w _ => ?_
  · simp only [TreeWrite.apply] at applied
    obtain ⟨d', stage', applied⟩ := Option.bind_eq_some_iff.mp applied
    obtain rfl : d' = d := Option.some.inj (stage'.symm.trans stage)
    split at applied
    · cases applied
    · next absent =>
      cases applied
      obtain ⟨v', rfl⟩ := rooted
      exact .publish stage absent ⟨p, response, n, m, v, pending, valid, whole⟩
  · refine does_reads reads_inspect (fun _ _ => trivial) fun _ _ => ?_
    refine does_reads reads_validateVersion (fun _ _ => trivial) fun _ _ => ?_
    exact does_removeExactTree tree rest

theorem does_responseInstall {check : Bool} (tree : check = false → ∀ t, A .tree t) :
    Does c k A (responseInstall c check r) Any s := by
  simp only [responseInstall, bind_eq]
  refine does_reads reads_commonOpen (fun _ _ => trivial) fun _ _ => ?_
  refine does_reads reads_stateEntries (fun _ _ => trivial) ?_
  rintro s ⟨rfl, -⟩
  refine does_check (fun _ => trivial) fun _ => ?_
  refine does_reads reads_inspect (fun _ _ => trivial) fun _ _ => ?_
  refine does_reads reads_receivable (fun _ _ => trivial) ?_
  rintro p ⟨n, -, pending⟩
  refine does_reads reads_openVersionsRoot (fun _ _ => trivial) fun _ _ => ?_
  refine does_reads reads_inspect (fun _ _ => trivial) fun _ _ => does_look ?_
  refine does_reads (reads_ofOption (F := True) fun _ => trivial) (fun _ _ => trivial) fun d _ => ?_
  refine does_check (fun _ => trivial) fun _ => ?_
  refine does_reads reads_validateResponseFiles (fun _ _ => trivial) ?_
  rintro v ⟨m, -, valid⟩
  by_cases there : .version r ∈ s.versions
  · simp only [if_pos there]
    refine does_reads reads_validateVersion (fun _ _ => trivial) fun _ _ => ?_
    refine does_check (fun _ => trivial) fun _ => ?_
    cases check with
    | true => trivial
    | false =>
      simp only [Bool.false_eq_true, if_false]
      exact does_removeExactTree (tree rfl) fun _ => trivial
  · simp only [if_neg there]
    cases check with
    | true => trivial
    | false =>
      simp only [Bool.false_eq_true, if_false]
      exact does_publishVersion (tree rfl) pending valid fun _ => trivial

lemma reads_clientIngressStatus {p : Pending} {published : Bool} {d : Dir} {o : Status} :
    Reads (disk k) s (clientIngressStatus c r p published d o) (fun _ => True) True := by
  simp only [clientIngressStatus]
  refine reads_inspect.bind (fun _ => trivial) fun _ _ => reads_check (fun _ => trivial) fun _ => ?_
  by_cases full : (responseNames.all (· ∈ d.files)) = true
  · rw [if_pos full]
    exact reads_validateResponseFiles.bind (fun _ => trivial) fun _ _ => reads_ret trivial
  · rw [if_neg full]
    exact reads_check (fun _ => trivial) fun _ => reads_ret trivial

lemma reads_clientVersionStatus {p : Pending} :
    Reads (disk k) s (clientVersionStatus c r p s) (fun _ => True) True := by
  simp only [clientVersionStatus]
  by_cases there : .version r ∈ s.versions
  · rw [if_pos there]
    refine reads_validateVersion.bind (fun _ => trivial) fun d _ => ?_
    exact reads_validateResponseFiles.bind (fun _ => trivial) fun _ _ => reads_ret trivial
  · rw [if_neg there]
    exact reads_check (fun _ => trivial) fun _ => reads_ret trivial

lemma reads_clientStageStatus {staged : Bool} : Reads (disk k) s (clientStageStatus c staged)
    (fun _ => True) True := by
  simp only [clientStageStatus, bind_eq]
  refine reads_check (fun _ => trivial) fun _ => reads_commonOpen.bind id fun _ _ => ?_
  refine reads_pendingRequestId.bind (fun _ => trivial) fun r _ => reads_inspect.bind (fun _ => trivial) fun _ _ => ?_
  refine reads_validatePending.bind (fun _ => trivial) fun p _ => reads_look ?_
  refine reads_clientVersionStatus.bind id fun o _ => ?_
  have ended : ∀ o : Status, Reads (disk k) s ((require (!staged || o.selected = .staged)
      "client installation has no authenticated clean staged version").bind fun _ =>
      (pure o : Run Status)) (fun _ => True) True := fun o =>
    reads_check (fun _ => trivial) fun _ => reads_ret trivial
  cases s.versions.lookup (.ingress r) with
  | none => exact ended o
  | some d => exact reads_clientIngressStatus.bind id fun o' _ => ended o'

theorem does_targetResponseInstall {check : Bool} (tree : check = false → ∀ t, A .tree t) :
    Does c k A (targetResponseInstall c check) Any s := by
  simp only [targetResponseInstall, bind_eq]
  refine does_reads reads_pendingRequestId (fun _ _ => trivial) fun r _ => does_look ?_
  by_cases absent : c.adapter = .client ∧ .ingress r ∉ s.versions
  · rw [if_pos absent]
    exact does_reads reads_clientStageStatus (fun _ _ => trivial) fun _ _ => trivial
  · rw [if_neg absent]
    refine does_reads reads_artifactDigest (fun _ _ => trivial) fun _ _ => ?_
    exact does_responseInstall tree

end PlatformConfig.Lifecycle
