import PlatformConfig.LifecycleState

/-!
# Publication of a file set

The import of a response and the collection of a request write a fixed set of files into a
directory that may hold some of them already. Creation, metadata, every partial write and every
removal of a file is one step that can fail; what fails is cleaned up by the writer of the file
and by the loop that created the files before it.
-/
namespace PlatformConfig.FilePublication

open CrashProgram CrashDisk Prog Lifecycle

/-- A file with the metadata that identify it. -/
structure File where
  inode : ℕ
  uid : ℕ
  gid : ℕ
  regular : Bool
  mode : ℕ
  links : ℕ
  changed : ℕ
  data : Data
  deriving DecidableEq

/-- `file_identity` -/
structure FileIdentity where
  inode : ℕ
  uid : ℕ
  gid : ℕ
  regular : Bool
  mode : ℕ
  links : ℕ
  size : ℕ
  changed : ℕ
  deriving DecidableEq

def File.identity (f : File) : FileIdentity :=
  ⟨f.inode, f.uid, f.gid, f.regular, f.mode, f.links, f.data.length, f.changed⟩

abbrev Directory := AList fun _ : FileName => File

/-- The directory that is read, the one that is written, and the time of the next change. -/
structure State where
  source : Directory
  output : Directory
  time : ℕ

inductive Write
  | create (n : FileName) (mode : ℕ)
  | chmod (n : FileName) (mode : ℕ)
  | chown (n : FileName) (uid gid : ℕ)
  | append (n : FileName) (d : Data)
  | unlink (n : FileName)

/-- Change a file of the output directory. -/
def State.modify (s : State) (n : FileName) (change : File → File) : Option State :=
  (s.output.lookup n).map fun f =>
    { s with output := s.output.insert n { change f with changed := s.time }, time := s.time + 1 }

/-- The file that the creation of `n` leaves. -/
def State.blank (s : State) (mode : ℕ) : File := ⟨s.time, 0, 0, true, mode, 1, s.time, []⟩

def Write.apply : Write → State → Option State
  | .create n mode, s => if n ∈ s.output then none else
    some { s with output := s.output.insert n (s.blank mode), time := s.time + 1 }
  | .chmod n mode, s => s.modify n fun f => { f with mode := mode }
  | .chown n uid gid, s => s.modify n fun f => { f with uid := uid, gid := gid }
  | .append n d, s => s.modify n fun f => { f with data := f.data ++ d }
  | .unlink n, s => if n ∈ s.output then
    some { s with output := s.output.erase n, time := s.time + 1 } else none

/-- What a publication asks: whether a check or a synchronisation passes, how many of the bytes
that are left a write accepts, and whether a file that is to be removed can be inspected. -/
inductive Ask
  | passes
  | accepts (bytes : ℕ)
  | inspected

abbrev Answer : Ask → Type
  | .passes => Bool
  | .accepts _ => ℕ
  | .inspected => Bool

/-- Every check and every write can fail; where `stuck` does not hold, a removal cannot. -/
def disk (stuck : Prop) : Disk State Write Ask Answer where
  apply := Write.apply
  answers
    | .passes, _, _ => True
    | .accepts bytes, _, n => n ≤ bytes
    | .inspected, _, there => there = true ∨ stuck
  fails
    | .unlink _ => stuck
    | _ => True
  torn _ _ _ := False

abbrev Run := Program State Write Ask Answer String

def check (e : String) : Run Unit := (ask Ask.passes).bind fun passed => require passed e

def ofOption {α : Type} (a : Option α) (e : String) : Run α :=
  match a with
  | some a => .ret a
  | none => .fail e

/-- The result of a program, with its failure as a value. -/
def attempt {α : Type} (p : Run α) : Run (Except String α) :=
  (p.bind fun a => .ret (.ok a)).handle fun e => .ret (.error e)

def maxSize : ℕ := 1024 * 1024

/-- The metadata and the size that `read_at` accepts. -/
def File.acceptable (f : File) (uid : ℕ) (gid : Option ℕ) : Bool :=
  f.regular && f.uid = uid && gid.all (f.gid = ·) && f.links = 1 && f.mode = 0o600 &&
    f.data ≠ [] && f.data.length ≤ maxSize

/-- A file as it was read or written. -/
structure Snapshot where
  name : FileName
  data : Data
  identity : FileIdentity

/-- `read_at` -/
def readAt (directory : State → Directory) (uid : ℕ) (gid : Option ℕ) (n : FileName) :
    Run Snapshot := do
  check "cannot open file"
  let s ← look
  let f ← ofOption ((directory s).lookup n) "cannot open file"
  require (f.acceptable uid gid) "file has unsafe metadata"
  check "file changed while being read"
  pure ⟨n, f.data, f.identity⟩

def readEach (directory : State → Directory) (uid : ℕ) (gid : Option ℕ) :
    List FileName → Run (List Snapshot)
  | [] => pure []
  | n :: rest => do
    let x ← readAt directory uid gid n
    let l ← readEach directory uid gid rest
    pure (x :: l)

/-- `require_snapshot` -/
def requireSnapshot (directory : State → Directory) (n : FileName) (i : FileIdentity) : Run Unit := do
  check "cannot reinspect file"
  let s ← look
  require (((directory s).lookup n).map File.identity = some i) "file path binding changed"

/-- The loop of `write_new_at`, which needs at most one write for each byte. -/
def fill (n : FileName) : ℕ → Data → Run Unit
  | _, [] => pure ()
  | 0, _ :: _ => .fail "cannot write file"
  | fuel + 1, d => do
    let written : ℕ ← ask (Ask.accepts d.length)
    require (0 < written) "cannot write file"
    write (.append n (d.take written)) "cannot write file"
    fill n fuel (d.drop written)

/-- Remove a file that still has its identity; a failure is not reported. -/
def remove (n : FileName) (i : FileIdentity) : Run Unit := do
  let there : Bool ← ask Ask.inspected
  let s ← look
  if there && (s.output.lookup n).map File.identity = some i then do
    let _ ← attempt (write (.unlink n) "cannot remove file")
    pure ()
  else pure ()

/-- The part of `write_new_at` behind the creation of the file. -/
def finishNew (owner : ℕ) (n : FileName) (d : Data) : Run FileIdentity := do
  write (.chmod n 0o600) "cannot create file"
  write (.chown n owner 0) "cannot create file"
  check "injected lifecycle failure at after-write-new-metadata"
  fill n d.length d
  check "cannot create file"
  let s ← look
  let f ← ofOption (s.output.lookup n) "cannot create file"
  check "cannot create file"
  requireSnapshot State.output n f.identity
  pure f.identity

/-- `write_new_at` -/
def writeNewAt (owner : ℕ) (n : FileName) (d : Data) : Run FileIdentity := do
  write (.create n 0o600) "cannot create file"
  (finishNew owner n d).handle fun e => do
    let s ← look
    match s.output.lookup n with
    | some f => remove n f.identity
    | none => pure ()
    .fail e

/-- The loop that creates files, each behind a check of its own. What it has created is returned
beside its failure. -/
def createEach (owner : ℕ) (before : FileName → Run Unit) :
    List (FileName × Data) → List Snapshot → Run (List Snapshot × Except String Unit)
  | [], created => pure (created, .ok ())
  | (n, d) :: rest, created => do
    match ← attempt (do before n; writeNewAt owner n d) with
    | .ok i => createEach owner before rest (created ++ [⟨n, d, i⟩])
    | .error e => pure (created, .error e)

def removeEach : List Snapshot → Run Unit
  | [] => pure ()
  | x :: rest => do
    remove x.name x.identity
    removeEach rest

/-- The directory holds exactly these files. -/
def verifyNames (files : List Snapshot) : Run Unit := do
  check "cannot inspect directory"
  let s ← look
  require (s.output.keys.all (· ∈ files.map (·.name)) && files.all (·.name ∈ s.output.keys))
    "directory changed during publication"

def verifyEach (owner : ℕ) (gid : Option ℕ) : List Snapshot → Run Unit
  | [] => pure ()
  | x :: rest => do
    let y ← readAt State.output owner gid x.name
    require (y.data = x.data && y.identity = x.identity) "published bytes changed"
    verifyEach owner gid rest

/-- The checks of a whole set of files that was read or created. -/
def checkSet (create : Bool) (owner : ℕ) (gid : Option ℕ) (recheck final : Run Unit)
    (files : List Snapshot) : Run Unit := do
  if create then check "cannot sync directory" else pure ()
  recheck
  verifyNames files
  verifyEach owner gid files
  final

/-- The end of a publication: after a failure the files that were created are removed. -/
def conclude (cleared : Run Unit) (created : List Snapshot) : Except String Unit → Run Unit
  | .ok _ => pure ()
  | .error e => do
    removeEach created
    cleared
    .fail e

/-- Create the missing files of a set whose other files are known, and check the whole set. -/
def publishMissing (create : Bool) (owner : ℕ) (gid : Option ℕ) (before : FileName → Run Unit)
    (recheck final cleared : Run Unit) (known : List Snapshot) (missing : List (FileName × Data)) :
    Run Unit := do
  let (created, ended) ← if create then createEach owner before missing [] else pure ([], .ok ())
  match ended with
  | .ok _ => do
    let out ← attempt (checkSet create owner gid recheck final (known ++ created))
    conclude cleared created out
  | .error e => conclude cleared created (.error e)

/-- What a publication reports. -/
inductive Report
  | existing | imported | wouldImport | collected | wouldCollect
  deriving DecidableEq

/-- A number of checks of the surroundings. -/
def checks : List String → Run Unit
  | [] => pure ()
  | e :: rest => do
    check e
    checks rest

/-- The files of the source are still those that were read. -/
def requireEach : List Snapshot → Run Unit
  | [] => pure ()
  | x :: rest => do
    requireSnapshot State.source x.name x.identity
    requireEach rest

/-- `target_response_import`, with the checks of its surroundings as answers. -/
def targetResponseImport (inputOwner : ℕ) (dry : Bool) : Run Report := do
  checks ["unresolved lifecycle state blocks response import",
    "target-local operation requires exactly one nonterminal pending request",
    "selected trust is invalid", "pending request is invalid",
    "expired pending request cannot import a response",
    "pending request differs from response import bindings",
    "exchange root must be disjoint from lifecycle roots", "exchange root aliases a lifecycle root",
    "cannot open filesystem response source"]
  let s ← look
  require (s.source.keys.all (· ∈ responseNames) && responseNames.all (· ∈ s.source.keys))
    "filesystem response source does not contain the exact fixed file set"
  let source ← readEach State.source inputOwner none responseNames
  checks ["filesystem response source changed", "response ingress directory has unsafe metadata"]
  let s ← look
  require (s.output.keys.all (· ∈ responseNames)) "response ingress contains unexpected entries"
  let existing ← readEach State.output 0 (some 0) (responseNames.filter (· ∈ s.output.keys))
  require (existing.all fun x => source.any fun y => y.name = x.name && y.data = x.data)
    "existing response ingress conflicts with filesystem source"
  let missing := (source.filter (·.name ∉ s.output.keys)).map fun x => (x.name, x.data)
  publishMissing (!dry) 0 (some 0) (fun n => requireEach (source.filter (·.name = n)))
    (checks ["injected lifecycle failure at before-response-import-recheck",
      "selected trust changed during response import", "pending request changed during response import",
      "response ingress path binding changed"])
    (do requireEach source; checks ["filesystem response source changed", "exchange root changed"])
    (do let _ ← attempt (check "cannot sync directory"); pure ()) existing missing
  pure (if missing.isEmpty then .existing else if dry then .wouldImport else .imported)

/-- `prepare_collection_output` -/
def prepareCollectionOutput (outputOwner : ℤ) (dry : Bool) (names : List FileName)
    (files : FileName → Data) : Run Report := do
  require (0 ≤ outputOwner) "output owner UID is invalid"
  let owner := outputOwner.toNat
  checks ["output directory is invalid", "cannot inspect output directory"]
  let s ← look
  require (s.output.keys = [] || s.output.keys.all (· ∈ names) &&
    names.all (· ∈ s.output.keys)) "output is partial or contains unexpected entries"
  if s.output.keys ≠ [] then do
    let existing ← readEach State.output owner (some 0) names
    require (existing.map (·.data) = names.map files)
      "existing output conflicts with authenticated source"
    checks ["pending request is invalid", "output directory changed"]
    pure .existing
  else if dry then do
    checks ["pending request is invalid", "output directory changed"]
    pure .wouldCollect
  else do
    publishMissing true owner (some 0) (fun _ => pure ()) (check "pending request is invalid") (pure ())
      (check "cannot sync directory") [] (names.map fun n => (n, files n))
    pure .collected

variable {stuck : Prop} {s t u v : State} {f g : File} {n : FileName} {d : Data} {owner : ℕ}
  {α β : Type} {I : State → Prop} {Q : Except String β → State → Prop}

/-! ## What a step changes -/

/-- Every file that was there is still there as it was. -/
structure Unharmed (s t : State) : Prop where
  source : t.source = s.source
  kept : ∀ n f, s.output.lookup n = some f → t.output.lookup n = some f

lemma Unharmed.refl (s : State) : Unharmed s s := ⟨rfl, fun _ _ h => h⟩

lemma Unharmed.trans (h : Unharmed s t) (h' : Unharmed t u) : Unharmed s u :=
  ⟨h'.source.trans h.source, fun n f there => h'.kept n f (h.kept n f there)⟩

/-- Only the file `n` differs. -/
structure Apart (n : FileName) (s t : State) : Prop where
  source : t.source = s.source
  others : ∀ m, m ≠ n → t.output.lookup m = s.output.lookup m

lemma Apart.refl (n : FileName) (s : State) : Apart n s s := ⟨rfl, fun _ _ => rfl⟩

lemma Apart.trans (h : Apart n s t) (h' : Apart n t u) : Apart n s u :=
  ⟨h'.source.trans h.source, fun m other => (h'.others m other).trans (h.others m other)⟩

lemma Apart.unharmed (h : Apart n s t) (free : s.output.lookup n = none) : Unharmed s t := by
  refine ⟨h.source, fun m f there => ?_⟩
  by_cases same : m = n
  · rw [same, free] at there
    cases there
  · rwa [h.others m same]

/-- The file `n` is being written. -/
structure Writing (n : FileName) (s t : State) (f : File) : Prop extends Apart n s t where
  at_ : t.output.lookup n = some f

lemma modify_writing {change : File → File} (h : Writing n s u f) (applied : u.modify n change = some v) :
    Writing n s v { change f with changed := u.time } := by
  rw [State.modify, h.at_] at applied
  cases applied
  refine ⟨⟨h.source, fun m other => ?_⟩, AList.lookup_insert _⟩
  exact (AList.lookup_insert_ne other).trans (h.others m other)

/-- A change of the file that is being written. -/
lemma holds_modify {w : Write} {e : String} {change : File → File} {rest : Unit → Run β}
    (h : Writing n s u f) (same : ∀ u, w.apply u = u.modify n change) (failed : Q (.error e) u)
    (next : ∀ v, Writing n s v { change f with changed := u.time } →
      Holds (disk stuck) (Apart n s) (rest ()) Q v) :
    Holds (disk stuck) (Apart n s) ((write w e).bind rest) Q u := by
  refine holds_write (by rintro v ⟨⟩) (fun _ => ⟨h.toApart, failed⟩) fun v applied => ?_
  have writing := modify_writing h ((same u).symm.trans applied)
  exact ⟨writing.toApart, next v writing⟩

lemma reads_checking {e : String} : Reads (disk stuck) s (check e) (fun _ => True) True :=
  reads_ask fun _ _ => (reads_require fun _ => trivial).mono (fun _ _ => trivial) id

/-- A check in front of a program. -/
lemma holds_checking {e : String} {rest : Unit → Run β} (here : I s) (failed : Q (.error e) s)
    (next : Holds (disk stuck) I (rest ()) Q s) : Holds (disk stuck) I ((check e).bind rest) Q s := by
  simp only [check, Prog.bind_assoc]
  exact holds_ask here fun _ _ => holds_check (fun _ => failed) fun _ => next

lemma holds_attempt {p : Run α} {rest : Except String α → Run β}
    (h : Holds (disk stuck) I p (fun out v => Holds (disk stuck) I (rest out) Q v) s) :
    Holds (disk stuck) I ((attempt p).bind rest) Q s := by
  simp only [attempt]
  refine wp_bind.mpr (wp_handle.mpr (wp_bind.mpr (wp_mono h (fun _ _ _ g => g) ?_)))
  intro out v end_
  cases out <;> exact end_

/-! ## One file -/

lemma holds_fill {fuel : ℕ} (h : Writing n s u f) :
    Holds (disk stuck) (Apart n s) (fill n fuel d) (fun out v => ∃ g, Writing n s v g ∧
      (out = .ok () → g.data = f.data ++ d)) u := by
  induction fuel generalizing d u f with
  | zero =>
    cases d with
    | nil => exact ⟨f, h, fun _ => (List.append_nil _).symm⟩
    | cons b d => exact ⟨f, h, by rintro ⟨⟩⟩
  | succ fuel ih =>
    cases d with
    | nil => exact ⟨f, h, fun _ => (List.append_nil _).symm⟩
    | cons b d =>
      simp only [fill, bind_eq]
      refine holds_ask h.toApart fun (written : ℕ) _ => holds_check (fun _ => ⟨f, h, by rintro ⟨⟩⟩) fun _ => ?_
      refine holds_modify h (fun _ => rfl) ⟨f, h, by rintro ⟨⟩⟩ fun v writing => ?_
      refine wp_mono (ih writing) (fun _ _ _ g => g) ?_
      rintro out w ⟨g, writing, whole⟩
      refine ⟨g, writing, fun ended => ?_⟩
      rw [whole ended, List.append_assoc, List.take_append_drop]

/-- Each turn of the loop writes a byte at least, so that the loop never runs out of turns. -/
lemma fill_fuel {fuel fuel' : ℕ} (h : d.length ≤ fuel) (h' : d.length ≤ fuel') :
    fill n fuel d = fill n fuel' d := by
  induction fuel generalizing d fuel' with
  | zero =>
    rw [List.length_eq_zero_iff.mp (Nat.le_zero.mp h)]
    cases fuel' <;> rfl
  | succ fuel ih =>
    cases d with
    | nil => cases fuel' <;> rfl
    | cons b d =>
      cases fuel' with
      | zero => cases h'
      | succ fuel' =>
        simp only [List.length_cons, Nat.add_le_add_iff_right] at h h'
        simp only [fill, bind_eq]
        congr 1
        funext (written : ℕ)
        cases written with
        | zero => rfl
        | succ m =>
          have shorter : (d.drop m).length ≤ d.length := by simp
          rw [List.drop_succ_cons, ih (by omega) (shorter.trans h')]

lemma holds_remove {i : FileIdentity} : Holds (disk stuck) (Apart n s) (remove n i) (fun out v =>
    out = .ok () ∧ Apart n s v ∧ (¬stuck → (s.output.lookup n).map File.identity = some i →
      v.output.lookup n = none)) s := by
  have here := Apart.refl n s
  simp only [remove, bind_eq]
  refine holds_ask here fun (there : Bool) inspected => holds_look here ?_
  split
  · refine holds_attempt (wp_tail (holds_write (by rintro v ⟨⟩) (fun no => ⟨here, rfl, here, ?_⟩) fun v applied => ?_))
    · intro free same
      rcases no with absent | stuck_
      · obtain ⟨f, at_, -⟩ := Option.map_eq_some_iff.mp same
        have mem : n ∈ s.output := AList.lookup_isSome.mp (by rw [at_]; rfl)
        simp [disk, Write.apply, mem] at absent
      · exact absurd stuck_ free
    · obtain ⟨mem, ⟨⟩⟩ := Option.ite_none_right_eq_some.mp applied
      have gone : Apart n s { s with output := s.output.erase n, time := s.time + 1 } :=
        ⟨rfl, fun m other => AList.lookup_erase_ne other⟩
      exact ⟨gone, rfl, gone, fun _ _ => AList.lookup_erase _ _⟩
  · rename_i refused
    refine ⟨rfl, here, fun free same => ?_⟩
    rcases inspected with rfl | stuck_
    · simp [same] at refused
    · exact absurd stuck_ free

lemma holds_requireSnapshot {i : FileIdentity} {directory : State → Directory} {rest : Unit → Run β}
    (here : I s) (failed : ∀ e, Q (.error e) s) (next : Holds (disk stuck) I (rest ()) Q s) :
    Holds (disk stuck) I ((requireSnapshot directory n i).bind rest) Q s := by
  simp only [requireSnapshot, bind_eq, Prog.bind_assoc]
  exact holds_checking here (failed _) (holds_look here (holds_check (fun _ => failed _) fun _ => next))

lemma holds_finishNew (h : Writing n s u f) :
    Holds (disk stuck) (Apart n s) (finishNew owner n d) (fun out v => ∃ g, Writing n s v g ∧
      ∀ i, out = .ok i → g.data = f.data ++ d ∧ g.identity = i) u := by
  simp only [finishNew, bind_eq]
  refine holds_modify h (fun _ => rfl) ⟨f, h, by rintro _ ⟨⟩⟩ fun u h => ?_
  refine holds_modify h (fun _ => rfl) ⟨_, h, by rintro _ ⟨⟩⟩ fun u h => ?_
  refine holds_checking h.toApart ⟨_, h, by rintro _ ⟨⟩⟩ ?_
  refine wp_bind.mpr (wp_mono (holds_fill h) (fun _ _ _ g => g) ?_)
  rintro out v ⟨g, writing, whole⟩
  cases out with
  | error e => exact ⟨g, writing, by rintro _ ⟨⟩⟩
  | ok x =>
    have fails : ∀ e, ∃ g', Writing n s v g' ∧ ∀ i, (Except.error e : Except String FileIdentity) = .ok i →
        g'.data = f.data ++ d ∧ g'.identity = i := fun e => ⟨g, writing, by rintro _ ⟨⟩⟩
    refine holds_checking writing.toApart (fails _) (holds_look writing.toApart ?_)
    rw [writing.at_]
    refine holds_checking writing.toApart (fails _) (holds_requireSnapshot writing.toApart fails ?_)
    refine ⟨g, writing, ?_⟩
    rintro i ⟨⟩
    exact ⟨whole rfl, rfl⟩

/-- A new file is there with its content. -/
structure Wrote (n : FileName) (d : Data) (i : FileIdentity) (s t : State) : Prop extends Apart n s t where
  free : s.output.lookup n = none
  made : ∃ f, t.output.lookup n = some f ∧ f.data = d ∧ f.identity = i

/-- The same files. -/
structure Same (s t : State) : Prop where
  source : t.source = s.source
  files : ∀ n, t.output.lookup n = s.output.lookup n

/-- A file is written whole, or, where a removal cannot fail, nothing is left of it. -/
theorem holds_writeNewAt : Holds (disk stuck) (Unharmed s) (writeNewAt owner n d) (fun out t =>
    Unharmed s t ∧ (∀ i, out = .ok i → Wrote n d i s t) ∧ ∀ e, out = .error e → ¬stuck → Same s t) s := by
  have here := Unharmed.refl s
  simp only [writeNewAt, bind_eq]
  refine holds_write (by rintro v ⟨⟩) (fun _ => ⟨here, here, by rintro _ ⟨⟩, fun _ _ _ => ⟨rfl, fun _ => rfl⟩⟩)
    fun u applied => ?_
  obtain ⟨absent, ⟨⟩⟩ := Option.ite_none_left_eq_some.mp applied
  have free : s.output.lookup n = none := AList.lookup_eq_none.mpr absent
  have writing : Writing n s { s with output := s.output.insert n (s.blank 0o600), time := s.time + 1 }
      (s.blank 0o600) := ⟨⟨rfl, fun m other => AList.lookup_insert_ne other⟩, AList.lookup_insert _⟩
  refine ⟨writing.toApart.unharmed free, wp_handle.mpr (wp_mono (holds_finishNew writing)
    (fun _ _ v apart => apart.unharmed free) ?_)⟩
  rintro out v ⟨g, writing, whole⟩
  have unharmed := writing.toApart.unharmed free
  cases out with
  | ok i =>
    obtain ⟨data, identity⟩ := whole i rfl
    refine ⟨unharmed, ?_, by rintro _ ⟨⟩⟩
    rintro i ⟨⟩
    exact ⟨writing.toApart, free, g, writing.at_, data, identity⟩
  | error e =>
    refine holds_look unharmed ?_
    simp only [writing.at_]
    refine wp_bind.mpr (wp_mono holds_remove (fun _ _ w apart => (writing.toApart.trans apart).unharmed free) ?_)
    rintro _ w ⟨rfl, apart, gone⟩
    have apart := writing.toApart.trans apart
    refine ⟨apart.unharmed free, by rintro _ ⟨⟩, fun _ _ moves => ⟨apart.source, fun m => ?_⟩⟩
    by_cases same : m = n
    · rw [same, free]
      exact gone moves (by rw [writing.at_]; rfl)
    · exact apart.others m same

/-- The contents of the output directory. -/
def State.files (s : State) (n : FileName) : Option Data := (s.output.lookup n).map File.data

/-- Where removals do not fail, writing a new file is the one step that the lifecycle model has for
it: the file is there whole, or nothing has changed. -/
theorem writeNewAt_refines {w : Lifecycle.State} {e : VersionEntry} {dir : Dir}
    (there : w.versions.lookup e = some dir) (same : ∀ m, dir.files.lookup m = s.files m) :
    Holds (disk stuck) (Unharmed s) (writeNewAt owner n d) (fun out t =>
      (∀ i, out = .ok i → ∃ w' dir', (TreeWrite.writeFile e n d).apply w = some w' ∧
        w'.versions.lookup e = some dir' ∧ ∀ m, dir'.files.lookup m = t.files m) ∧
      ∀ x, out = .error x → ¬stuck → ∀ m, dir.files.lookup m = t.files m) s := by
  refine wp_mono holds_writeNewAt (fun _ _ _ g => g) ?_
  rintro out t ⟨-, wrote, kept⟩
  constructor
  · intro i ended
    obtain ⟨apart, free, f, at_, rfl, -⟩ := wrote i ended
    have absent : n ∉ dir.files := by
      rw [← AList.lookup_eq_none, same, State.files, free]
      rfl
    let dir' : Dir := ⟨dir.id, dir.files.insert n f.data⟩
    refine ⟨{ w with versions := w.versions.insert e dir' }, dir', ?_, AList.lookup_insert _, fun m => ?_⟩
    · simp [TreeWrite.apply, Lifecycle.State.change, there, absent, dir']
    · by_cases here : m = n
      · rw [here, AList.lookup_insert, State.files, at_]
        rfl
      · rw [AList.lookup_insert_ne here, same, State.files, State.files, apart.others m here]
  · intro x ended moves m
    rw [same, State.files, State.files, (kept x ended moves).files]

/-! ## The files of a set -/

/-- The files of a list were created, and are as they were created. -/
structure Made (s : State) (created : List Snapshot) (t : State) : Prop where
  source : t.source = s.source
  nodup : (created.map (·.name)).Nodup
  made : ∀ x ∈ created, s.output.lookup x.name = none ∧
    ∃ f, t.output.lookup x.name = some f ∧ f.data = x.data ∧ f.identity = x.identity
  rest : ∀ n, n ∉ created.map (·.name) → t.output.lookup n = s.output.lookup n

variable {created : List Snapshot} {x : Snapshot} {i : FileIdentity}

lemma made_nil : Made s [] t ↔ Same s t := by
  constructor
  · exact fun h => ⟨h.source, fun n => h.rest n (by simp)⟩
  · exact fun h => ⟨h.source, List.nodup_nil, by simp, fun n _ => h.files n⟩

lemma Made.unharmed (h : Made s created t) : Unharmed s t := by
  refine ⟨h.source, fun n f there => ?_⟩
  by_cases mem : n ∈ created.map (·.name)
  · obtain ⟨x, in_, rfl⟩ := List.mem_map.mp mem
    rw [(h.made x in_).1] at there
    cases there
  · rwa [h.rest n mem]

lemma Made.fresh (h : Made s created t) (free : t.output.lookup n = none) : n ∉ created.map (·.name) := by
  intro mem
  obtain ⟨x, in_, rfl⟩ := List.mem_map.mp mem
  obtain ⟨f, there, -⟩ := (h.made x in_).2
  rw [free] at there
  cases there

lemma Made.wrote (h : Made s created t) (wrote : Wrote n d i t u) : Made s (created ++ [⟨n, d, i⟩]) u := by
  have fresh := h.fresh wrote.free
  refine ⟨wrote.source.trans h.source, ?_, fun x mem => ?_, fun m other => ?_⟩
  · rw [List.map_append, List.nodup_append]
    refine ⟨h.nodup, List.nodup_singleton _, fun m mem m' mem' => ?_⟩
    rw [List.mem_singleton.mp mem']
    rintro rfl
    exact fresh mem
  · rcases List.mem_append.mp mem with mem | mem
    · obtain ⟨free, f, there, same⟩ := h.made x mem
      refine ⟨free, f, ?_, same⟩
      rwa [wrote.others x.name fun same => fresh (same ▸ List.mem_map_of_mem mem)]
    · obtain rfl := List.mem_singleton.mp mem
      exact ⟨(h.rest n fresh).symm.trans wrote.free, wrote.made⟩
  · simp only [List.map_append, List.map_cons, List.map_nil, List.mem_append, List.mem_singleton,
      not_or] at other
    rw [wrote.others m other.2, h.rest m other.1]

lemma Made.same (h : Made s created t) (same : Same t u) : Made s created u := by
  refine ⟨same.source.trans h.source, h.nodup, fun x mem => ?_, fun n other => ?_⟩
  · rw [same.files]
    exact h.made x mem
  · rw [same.files, h.rest n other]

/-- The first of the created files is removed. -/
lemma Made.removed (h : Made s (x :: created) t) (apart : Apart x.name t u)
    (gone : u.output.lookup x.name = none) : Made s created u := by
  obtain ⟨other, nodup⟩ := List.nodup_cons.mp h.nodup
  refine ⟨apart.source.trans h.source, nodup, fun y mem => ?_, fun n fresh => ?_⟩
  · have differs : y.name ≠ x.name := fun same => other (List.mem_map.mpr ⟨y, mem, same⟩)
    rw [apart.others y.name differs]
    exact h.made y (List.mem_cons_of_mem x mem)
  · by_cases same : n = x.name
    · rw [same, gone, (h.made x List.mem_cons_self).1]
    · rw [apart.others n same]
      refine h.rest n fun mem => ?_
      rcases List.mem_cons.mp mem with same' | mem
      · exact same same'
      · exact fresh mem

/-- A program that changes nothing, whatever the state. -/
def Quiet (stuck : Prop) (p : Run α) : Prop := ∀ s, Reads (disk stuck) s p (fun _ => True) True

/-- How the creation of files ends: all of them are made, or a failure is reported beside those
that are. -/
structure Created (stuck : Prop) (s : State) (files : List (FileName × Data))
    (out : Except String (List Snapshot × Except String Unit)) (t : State) : Prop where
  unharmed : Unharmed s t
  reported : ∃ created ended, out = .ok (created, ended) ∧
    (∀ x ∈ created, s.output.lookup x.name = none) ∧ (¬stuck → Made s created t) ∧
    (ended = .ok () → Made s created t ∧ created.map (fun x => (x.name, x.data)) = files)

lemma holds_createEach {before : FileName → Run Unit} (quiet : ∀ n, Quiet stuck (before n))
    {done missing : List (FileName × Data)} (h : Made s created u)
    (same : created.map (fun x => (x.name, x.data)) = done) :
    Holds (disk stuck) (Unharmed s) (createEach owner before missing created)
      (Created stuck s (done ++ missing)) u := by
  induction missing generalizing created done u with
  | nil =>
    refine ⟨h.unharmed, created, _, rfl, fun x mem => (h.made x mem).1, fun _ => h, fun _ => ⟨h, ?_⟩⟩
    rw [same, List.append_nil]
  | cons file rest ih =>
    obtain ⟨n, d⟩ := file
    have failed : ∀ e t, Unharmed s t → (¬stuck → Made s created t) →
        Created stuck s (done ++ (n, d) :: rest) (.ok (created, .error e)) t := fun e t unharmed made =>
      ⟨unharmed, created, _, rfl, fun x mem => (h.made x mem).1, made, by rintro ⟨⟩⟩
    simp only [createEach, bind_eq]
    refine holds_attempt (wp_reads (fun _ => h.unharmed) (quiet n u) (fun e _ => ?_) fun _ _ => ?_)
    · exact failed e u h.unharmed fun _ => h
    refine wp_mono holds_writeNewAt (fun _ _ v unharmed => h.unharmed.trans unharmed) ?_
    rintro out v ⟨unharmed, wrote, same_⟩
    cases out with
    | error e => exact failed e v (h.unharmed.trans unharmed) fun moves => h.same (same_ e rfl moves)
    | ok i =>
      have grown : (created ++ [(⟨n, d, i⟩ : Snapshot)]).map (fun x => (x.name, x.data)) = done ++ [(n, d)] := by simp [same]
      have next := ih (h.wrote (wrote i rfl)) grown
      rwa [List.append_assoc] at next

lemma holds_removeEach {rest : Unit → Run β} (unharmed : Unharmed s u)
    (free : ∀ x ∈ created, s.output.lookup x.name = none) (made : ¬stuck → Made s created u)
    (next : ∀ v, Unharmed s v → (¬stuck → Same s v) → Holds (disk stuck) (Unharmed s) (rest ()) Q v) :
    Holds (disk stuck) (Unharmed s) ((removeEach created).bind rest) Q u := by
  induction created generalizing u with
  | nil => exact next u unharmed fun moves => made_nil.mp (made moves)
  | cons x created ih =>
    have free_x := free x List.mem_cons_self
    -- the removal changes a file only that was not there before
    have apart : ∀ {v}, Apart x.name u v → Unharmed s v := by
      intro v apart
      refine ⟨apart.source.trans unharmed.source, fun m f there => ?_⟩
      have other : m ≠ x.name := by
        rintro rfl
        rw [free_x] at there
        cases there
      rw [apart.others m other]
      exact unharmed.kept m f there
    simp only [removeEach, bind_eq, Prog.bind_assoc]
    refine wp_bind.mpr (wp_mono holds_remove (fun _ _ v => apart) ?_)
    rintro _ v ⟨rfl, removed, gone⟩
    refine ih (apart removed) (fun y mem => free y (List.mem_cons_of_mem x mem)) fun moves => ?_
    have made := made moves
    obtain ⟨-, f, there, -, identity⟩ := made.made x List.mem_cons_self
    exact made.removed removed (gone moves (by rw [there, ← identity]; rfl))

/-! ## What is read -/

lemma quiet_checks {l : List String} : Quiet stuck (checks l) := by
  intro s
  induction l with
  | nil => exact reads_ret trivial
  | cons e l ih => exact reads_checking.bind id fun _ _ => ih

lemma reads_attempt {p : Run α} (quiet : Quiet stuck p) :
    Reads (disk stuck) s (attempt p) (fun _ => True) False := by
  refine wp_handle.mpr (wp_bind.mpr (wp_mono (quiet s) (fun _ _ _ g => g) ?_))
  rintro out t ended
  cases out <;> exact ⟨ended.1, trivial⟩

lemma quiet_requireSnapshot {directory : State → Directory} :
    Quiet stuck (requireSnapshot directory n i) := fun _ =>
  reads_checking.bind id fun _ _ => reads_look ((reads_require fun _ => trivial).mono (fun _ _ => trivial) id)

lemma quiet_requireEach {l : List Snapshot} : Quiet stuck (requireEach l) := by
  intro s
  induction l with
  | nil => exact reads_ret trivial
  | cons x l ih => exact (quiet_requireSnapshot s).bind id fun _ _ => ih

lemma reads_ofOption {a : Option α} {e : String} :
    Reads (disk stuck) s (ofOption a e) (fun x => a = some x) True := by
  cases a with
  | none => exact reads_fail trivial
  | some x => exact reads_ret rfl

/-- A file that was read. -/
def Read (directory : State → Directory) (s : State) (x : Snapshot) : Prop :=
  ∃ f, (directory s).lookup x.name = some f ∧ f.data = x.data

lemma reads_readAt {directory : State → Directory} {uid : ℕ} {gid : Option ℕ} :
    Reads (disk stuck) s (readAt directory uid gid n) (fun x => x.name = n ∧ Read directory s x) True := by
  refine reads_checking.bind id fun _ _ => reads_look (reads_ofOption.bind id fun f there => ?_)
  refine reads_check (fun _ => trivial) fun _ => reads_checking.bind id fun _ _ => ?_
  exact reads_ret ⟨rfl, f, there, rfl⟩

lemma reads_readEach {directory : State → Directory} {uid : ℕ} {gid : Option ℕ} {names : List FileName} :
    Reads (disk stuck) s (readEach directory uid gid names)
      (fun l => l.map (·.name) = names ∧ ∀ x ∈ l, Read directory s x) True := by
  induction names with
  | nil => exact reads_ret ⟨rfl, by simp⟩
  | cons n names ih =>
    refine reads_readAt.bind id fun x read => ih.bind id fun l rest => reads_ret ?_
    obtain ⟨rfl, read⟩ := read
    obtain ⟨rfl, rest⟩ := rest
    refine ⟨rfl, fun y mem => ?_⟩
    rcases List.mem_cons.mp mem with rfl | mem
    · exact read
    · exact rest y mem

lemma quiet_verifyNames {l : List Snapshot} : Quiet stuck (verifyNames l) := fun _ =>
  reads_checking.bind id fun _ _ => reads_look ((reads_require fun _ => trivial).mono (fun _ _ => trivial) id)

lemma quiet_verifyEach {gid : Option ℕ} {l : List Snapshot} : Quiet stuck (verifyEach owner gid l) := by
  intro s
  induction l with
  | nil => exact reads_ret trivial
  | cons x l ih => exact reads_readAt.bind id fun _ _ => reads_check (fun _ => trivial) fun _ => ih

lemma Quiet.bind {p : Run α} {f : α → Run β} (first : Quiet stuck p) (rest : ∀ a, Quiet stuck (f a)) :
    Quiet stuck (p.bind f) := fun s => (first s).bind id fun a _ => rest a s

/-! ## The publication -/

lemma quiet_checkSet {create : Bool} {gid : Option ℕ} {recheck final : Run Unit} {files : List Snapshot}
    (recheck_quiet : Quiet stuck recheck) (final_quiet : Quiet stuck final) :
    Quiet stuck (checkSet create owner gid recheck final files) := by
  have rest : Quiet stuck (recheck.bind fun _ => (verifyNames files).bind fun _ =>
      (verifyEach owner gid files).bind fun _ => final) :=
    recheck_quiet.bind fun _ => quiet_verifyNames.bind fun _ => quiet_verifyEach.bind fun _ => final_quiet
  cases create with
  | true => exact Quiet.bind (fun _ => reads_checking) fun _ => rest
  | false => exact rest

/-- A publication of `missing` ends with all of it, or, where a removal cannot fail, with nothing. -/
structure Publishes (stuck : Prop) (create : Bool) (missing : List (FileName × Data)) (s : State)
    (out : Except String Unit) (t : State) : Prop where
  unharmed : Unharmed s t
  all : out = .ok () → ∃ created, Made s created t ∧
    created.map (fun x => (x.name, x.data)) = if create then missing else []
  nothing : ∀ e, out = .error e → ¬stuck → Same s t

section Publication
variable {create : Bool} {gid : Option ℕ} {before : FileName → Run Unit}
  {recheck final cleared : Run Unit} {known : List Snapshot} {missing : List (FileName × Data)}

lemma holds_conclude {out : Except String Unit} (cleared_quiet : Quiet stuck cleared)
    (unharmed : Unharmed s u) (free : ∀ x ∈ created, s.output.lookup x.name = none)
    (made : ¬stuck → Made s created u)
    (all : out = .ok () → Made s created u ∧
      created.map (fun x => (x.name, x.data)) = if create then missing else []) :
    Holds (disk stuck) (Unharmed s) (conclude cleared created out) (Publishes stuck create missing s) u := by
  cases out with
  | ok x =>
    refine ⟨unharmed, fun _ => ⟨created, all rfl⟩, ?_⟩
    rintro e ⟨⟩
  | error e =>
    simp only [conclude, bind_eq]
    refine holds_removeEach unharmed free made fun v unharmed same => ?_
    have failed : ∀ e, Publishes stuck create missing s (.error e) v := fun e =>
      ⟨unharmed, by rintro ⟨⟩, fun _ _ => same⟩
    exact wp_reads (fun _ => unharmed) (cleared_quiet v) (fun e _ => failed e) fun _ _ => failed e

theorem holds_publishMissing (before_quiet : ∀ n, Quiet stuck (before n))
    (recheck_quiet : Quiet stuck recheck) (final_quiet : Quiet stuck final)
    (cleared_quiet : Quiet stuck cleared) :
    Holds (disk stuck) (Unharmed s)
      (publishMissing create owner gid before recheck final cleared known missing)
      (Publishes stuck create missing s) s := by
  have checked : ∀ {created : List Snapshot} {u : State}, Made s created u →
      created.map (fun x => (x.name, x.data)) = (if create then missing else []) →
      Holds (disk stuck) (Unharmed s) ((attempt (checkSet create owner gid recheck final
        (known ++ created))).bind (conclude cleared created)) (Publishes stuck create missing s) u := by
    intro created u made same
    refine wp_reads (fun _ => made.unharmed) (reads_attempt (quiet_checkSet recheck_quiet final_quiet))
      (fun e => False.elim) fun out _ => ?_
    exact holds_conclude cleared_quiet made.unharmed (fun x mem => (made.made x mem).1) (fun _ => made)
      fun _ => ⟨made, same⟩
  simp only [publishMissing, bind_eq]
  cases create with
  | false => exact checked (made_nil.mpr ⟨rfl, fun _ => rfl⟩) rfl
  | true =>
    refine wp_bind.mpr (wp_mono (holds_createEach before_quiet (made_nil.mpr ⟨rfl, fun _ => rfl⟩) rfl)
      (fun _ _ _ unharmed => unharmed) ?_)
    rintro _ u ⟨unharmed, created, ended, rfl, free, made, all⟩
    cases ended with
    | ok x => exact checked (all rfl).1 (all rfl).2
    | error e => exact holds_conclude cleared_quiet unharmed free made (by rintro ⟨⟩)

end Publication

/-- The directory holds exactly the files `names`, with their contents. -/
structure Complete (names : List FileName) (content : FileName → Option Data) (t : State) : Prop where
  there : ∀ n ∈ names, ∃ f, t.output.lookup n = some f ∧ content n = some f.data
  only : ∀ n, n ∉ names → t.output.lookup n = none

/-- What a command leaves: on success the whole set, and nothing new in check mode; after a
failure the same files as before. No file that was there is ever touched. -/
structure AllOrNothing (stuck : Prop) (dry : Bool) (names : List FileName)
    (content : FileName → Option Data) (s : State) (out : Except String Report) (t : State) : Prop where
  unharmed : Unharmed s t
  all : dry = false → ∀ r, out = .ok r → Complete names content t
  unchanged : dry = true → ∀ r, out = .ok r → Same s t
  nothing : ∀ e, out = .error e → ¬stuck → Same s t

lemma Same.refl (s : State) : Same s s := ⟨rfl, fun _ => rfl⟩

lemma AllOrNothing.refused {dry : Bool} {names : List FileName} {content : FileName → Option Data}
    (e : String) : AllOrNothing stuck dry names content s (.error e) s :=
  ⟨.refl s, by rintro _ _ ⟨⟩, by rintro _ _ ⟨⟩, fun _ _ _ => .refl s⟩

/-- The data of the source. -/
def State.content (s : State) (n : FileName) : Option Data := (s.source.lookup n).map File.data

/-- Files that were there and agree with the source, and the created ones, are the whole set. -/
lemma Made.complete {names : List FileName} {source existing : List Snapshot} (made : Made s created t)
    (known : ∀ n, s.output.lookup n ≠ none → n ∈ names) (source_names : source.map (·.name) = names)
    (source_read : ∀ x ∈ source, Read State.source s x)
    (existing_names : ∀ n ∈ names, s.output.lookup n ≠ none → n ∈ existing.map (·.name))
    (existing_read : ∀ x ∈ existing, Read State.output s x)
    (agrees : ∀ x ∈ existing, ∃ y ∈ source, y.name = x.name ∧ y.data = x.data)
    (same : created.map (fun x => (x.name, x.data)) =
      (source.filter (s.output.lookup ·.name = none)).map fun x => (x.name, x.data)) :
    Complete names s.content t := by
  have data : ∀ x ∈ source, s.content x.name = some x.data := by
    intro x mem
    obtain ⟨f, there, same⟩ := source_read x mem
    rw [State.content, there, ← same]
    rfl
  refine ⟨fun n mem => ?_, fun n other => ?_⟩
  · by_cases there : s.output.lookup n = none
    · obtain ⟨x, in_, rfl⟩ := List.mem_map.mp (source_names ▸ mem)
      have missing : (x.name, x.data) ∈ created.map fun x => (x.name, x.data) := by
        rw [same]
        exact List.mem_map.mpr ⟨x, List.mem_filter.mpr ⟨in_, decide_eq_true there⟩, rfl⟩
      obtain ⟨y, in_', pair⟩ := List.mem_map.mp missing
      obtain ⟨name, content⟩ := Prod.mk.inj pair
      obtain ⟨f, at_, whole, -⟩ := (made.made y in_').2
      refine ⟨f, name ▸ at_, ?_⟩
      rw [data x in_, whole, content]
    · obtain ⟨x, in_, rfl⟩ := List.mem_map.mp (existing_names n mem there)
      obtain ⟨f, at_, whole⟩ := existing_read x in_
      obtain ⟨y, in_', name, content⟩ := agrees x in_
      refine ⟨f, made.unharmed.kept _ f at_, ?_⟩
      rw [← name, data y in_', content, whole]
  · rw [made.rest n]
    · by_contra there
      exact other (known n there)
    · intro mem
      obtain ⟨x, in_, rfl⟩ := List.mem_map.mp mem
      have pair : (x.name, x.data) ∈ created.map fun x => (x.name, x.data) := List.mem_map.mpr ⟨x, in_, rfl⟩
      rw [same] at pair
      obtain ⟨y, in_', pair⟩ := List.mem_map.mp pair
      refine other (source_names ▸ ?_)
      rw [← (Prod.mk.inj pair).1]
      exact List.mem_map_of_mem (List.mem_filter.mp in_').1

lemma mem_keys_iff {l : Directory} : n ∈ l.keys ↔ l.lookup n ≠ none := by
  rw [← AList.mem_keys, ← AList.lookup_isSome, Option.isSome_iff_ne_none]

lemma notMem_keys_iff {l : Directory} : n ∉ l.keys ↔ l.lookup n = none := by
  rw [mem_keys_iff, not_not]

theorem holds_targetResponseImport {inputOwner : ℕ} {dry : Bool} :
    Holds (disk stuck) (Unharmed s) (targetResponseImport inputOwner dry)
      (AllOrNothing stuck dry responseNames s.content s) s := by
  have here := Unharmed.refl s
  simp only [targetResponseImport, bind_eq]
  refine wp_reads (fun _ => here) (quiet_checks s) (fun e _ => .refused e) fun _ _ => ?_
  refine holds_look here (holds_check (fun _ => .refused _) fun _ => ?_)
  refine wp_reads (fun _ => here) reads_readEach (fun e _ => .refused e) fun source read => ?_
  refine wp_reads (fun _ => here) (quiet_checks s) (fun e _ => .refused e) fun _ _ => ?_
  refine holds_look here (holds_check (fun _ => .refused _) fun known => ?_)
  refine wp_reads (fun _ => here) reads_readEach (fun e _ => .refused e) fun existing existing_read => ?_
  refine holds_check (fun _ => .refused _) fun agrees => ?_
  refine wp_bind.mpr (wp_mono (holds_publishMissing (fun n => quiet_requireEach) quiet_checks
    (quiet_requireEach.bind fun _ => quiet_checks) ?_) (fun _ _ _ h => h) ?_)
  · exact Quiet.bind (fun _ => (reads_attempt fun _ => reads_checking).mono (fun _ _ => trivial) False.elim)
      fun _ _ => reads_ret trivial
  intro out t publishes
  cases out with
  | error e => exact ⟨publishes.unharmed, by rintro _ _ ⟨⟩, by rintro _ _ ⟨⟩, fun e' _ => publishes.nothing e rfl⟩
  | ok x =>
    obtain ⟨created, made, same⟩ := publishes.all rfl
    refine ⟨publishes.unharmed, fun wet r _ => ?_, fun dry r _ => ?_, by rintro _ ⟨⟩⟩
    · rw [wet] at same
      simp only [Bool.not_false, if_true, notMem_keys_iff] at same
      refine made.complete (fun n there => ?_) read.1 read.2 (fun n mem there => ?_)
        existing_read.2 (fun x mem => ?_) same
      · exact of_decide_eq_true (List.all_eq_true.mp known n (mem_keys_iff.mpr there))
      · rw [existing_read.1, List.mem_filter]
        exact ⟨mem, decide_eq_true (mem_keys_iff.mpr there)⟩
      · simpa using List.all_eq_true.mp agrees x mem
    · rw [dry] at same
      obtain rfl := List.map_eq_nil_iff.mp same
      exact made_nil.mp made

theorem holds_prepareCollectionOutput {outputOwner : ℤ} {dry : Bool} {names : List FileName}
    {files : FileName → Data} :
    Holds (disk stuck) (Unharmed s) (prepareCollectionOutput outputOwner dry names files)
      (AllOrNothing stuck dry names (fun n => some (files n)) s) s := by
  have here := Unharmed.refl s
  simp only [prepareCollectionOutput, bind_eq]
  refine holds_check (fun _ => .refused _) fun _ => ?_
  refine wp_reads (fun _ => here) (quiet_checks s) (fun e _ => .refused e) fun _ _ => ?_
  refine holds_look here (holds_check (fun _ => .refused _) fun known => ?_)
  by_cases empty : s.output.keys = []
  · rw [if_neg (not_not.mpr empty)]
    have free : ∀ n, s.output.lookup n = none := fun n => notMem_keys_iff.mp (by rw [empty]; exact List.not_mem_nil)
    cases dry with
    | true =>
      refine wp_reads (fun _ => here) (quiet_checks s) (fun e _ => .refused e) fun _ _ => ?_
      exact ⟨here, by rintro ⟨⟩, fun _ _ _ => .refl s, by rintro _ ⟨⟩⟩
    | false =>
      refine wp_bind.mpr (wp_mono (holds_publishMissing (fun n _ => reads_ret trivial)
        (fun _ => reads_checking) (fun _ => reads_ret trivial) fun _ => reads_checking) (fun _ _ _ h => h) ?_)
      intro out t publishes
      cases out with
      | error e => exact ⟨publishes.unharmed, by rintro _ _ ⟨⟩, by rintro ⟨⟩, fun e' _ => publishes.nothing e rfl⟩
      | ok x =>
        obtain ⟨created, made, same⟩ := publishes.all rfl
        refine ⟨publishes.unharmed, fun _ r _ => ⟨fun n mem => ?_, fun n other => ?_⟩, by rintro ⟨⟩, by rintro _ ⟨⟩⟩
        · have pair : (n, files n) ∈ created.map fun x => (x.name, x.data) := by
            rw [same]
            exact List.mem_map.mpr ⟨n, mem, rfl⟩
          obtain ⟨x, in_, pair⟩ := List.mem_map.mp pair
          obtain ⟨name, content⟩ := Prod.mk.inj pair
          obtain ⟨f, at_, whole, -⟩ := (made.made x in_).2
          exact ⟨f, name ▸ at_, by rw [whole, content]⟩
        · rw [made.rest n, free]
          intro mem
          have names_ : created.map (·.name) = names := by
            have first := congrArg (List.map Prod.fst) same
            simpa [Function.comp_def] using first
          exact other (names_ ▸ mem)
  · rw [if_pos empty]
    refine wp_reads (fun _ => here) reads_readEach (fun e _ => .refused e) fun existing read => ?_
    refine holds_check (fun _ => .refused _) fun agrees => ?_
    refine wp_reads (fun _ => here) (quiet_checks s) (fun e _ => .refused e) fun _ _ => ?_
    refine ⟨here, fun _ r _ => ⟨fun n mem => ?_, fun n other => ?_⟩, fun _ _ _ => .refl s, by rintro _ ⟨⟩⟩
    · have same : existing.map (·.data) = existing.map fun x => files x.name := by
        rw [of_decide_eq_true agrees, ← read.1, List.map_map]
        rfl
      obtain ⟨x, in_, rfl⟩ := List.mem_map.mp (read.1 ▸ mem)
      obtain ⟨f, at_, whole⟩ := read.2 x in_
      exact ⟨f, at_, by rw [whole, List.map_inj_left.mp same x in_]⟩
    · by_contra there
      simp only [Bool.or_eq_true, Bool.and_eq_true, decide_eq_true_eq, empty, false_or] at known
      exact other (of_decide_eq_true (List.all_eq_true.mp known.1 n (mem_keys_iff.mpr there)))

/-- The import of a response and the collection of a request publish their whole file set or, when
they fail where removals do not, leave the files that were there; at no moment do they touch one of
these. -/
theorem published_all_or_nothing (stuck : Prop) (s : State) :
    (∀ inputOwner dry, (∀ t, Killed (disk stuck).semantics (targetResponseImport inputOwner dry) s t →
      Unharmed s t) ∧ ∀ out t, Exec (disk stuck).semantics (targetResponseImport inputOwner dry) s out t →
      AllOrNothing stuck dry responseNames s.content s out t) ∧
    ∀ outputOwner dry names files, (∀ t, Killed (disk stuck).semantics
      (prepareCollectionOutput outputOwner dry names files) s t → Unharmed s t) ∧
      ∀ out t, Exec (disk stuck).semantics (prepareCollectionOutput outputOwner dry names files) s out t →
      AllOrNothing stuck dry names (fun n => some (files n)) s out t := by
  constructor
  · intro inputOwner dry
    exact ⟨fun t run => wp_killed holds_targetResponseImport (.refl s) run,
      fun out t run => wp_exec holds_targetResponseImport run⟩
  · intro outputOwner dry names files
    exact ⟨fun t run => wp_killed holds_prepareCollectionOutput (.refl s) run,
      fun out t run => wp_exec holds_prepareCollectionOutput run⟩

/-- A run in which nothing fails and every write takes one byte. -/
def undisturbed : (o : Op Write Ask) → State → Reply State Answer o × State :=
  (disk False).answering fun x _ => match x with
    | .passes => true
    | .accepts bytes => min bytes 1
    | .inspected => true

lemma undisturbed_within : Within undisturbed (disk False).semantics := by
  refine answering_within fun x s => ?_
  cases x with
  | passes => trivial
  | accepts bytes => exact min_le_left bytes 1
  | inspected => exact .inl rfl

/-- A response of two bytes a file, of which the destination holds the certificate. -/
def offered : State where
  source := (responseNames.map fun n => ⟨n, ⟨1, 0, 0, true, 0o600, 1, 1, [1, 2]⟩⟩).toAList
  output := [⟨FileName.crt, ⟨2, 0, 0, true, 0o600, 1, 1, [1, 2]⟩⟩].toAList
  time := 9

lemma offered_imports : run undisturbed (targetResponseImport 0 false) offered =
    (.ok .imported, (run undisturbed (targetResponseImport 0 false) offered).2) :=
  Prod.ext (by decide +kernel) rfl

theorem published_all_or_nothing_offered :
    Complete responseNames offered.content (run undisturbed (targetResponseImport 0 false) offered).2 := by
  have ran := undisturbed_within.exec (targetResponseImport 0 false) offered
  rw [offered_imports] at ran
  exact (((published_all_or_nothing False offered).1 0 false).2 _ _ ran).all rfl _ rfl

/-- In check mode an import succeeds and publishes nothing. -/
theorem checked_import_publishes_nothing : ¬∀ (inputOwner : ℕ) (dry : Bool) (s t : State) (r : Report),
    Exec (disk False).semantics (targetResponseImport inputOwner dry) s (.ok r) t →
    Complete responseNames s.content t := by
  intro publishes
  have ran := undisturbed_within.exec (targetResponseImport 0 true) offered
  have ended : (run undisturbed (targetResponseImport 0 true) offered).1 = .ok .wouldImport := by
    decide +kernel
  rw [ended] at ran
  obtain ⟨f, there, -⟩ := (publishes _ _ _ _ _ ran).there .chain (by decide)
  have absent : (run undisturbed (targetResponseImport 0 true) offered).2.output.lookup .chain = none := by
    decide +kernel
  rw [absent] at there
  cases there

end PlatformConfig.FilePublication
