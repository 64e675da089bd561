import PlatformConfig.CrashProgram
import PlatformConfig.RecordText

/-!
# Guarded replacement of a file

`replace_state_bytes` and `replace_config_bytes` with the reading, the writing of a temporary entry and the renaming
below them. Each operation of the file system is a step that can fail, also those of the clean-up behind a failure.
-/
namespace PlatformConfig.GuardedReplace

open CrashProgram Prog
open RecordText (Bytes)

/-! ## The directory -/

/-- What is seen of a file besides its content; `ordinary` says that it is a regular file with one link, and the stamp
changes with every change of the file. -/
structure Identity where
  uid : ℕ
  gid : ℕ
  mode : ℕ
  ordinary : Bool
  size : ℕ
  stamp : ℕ
deriving DecidableEq

structure File where
  data : Bytes
  uid : ℕ
  gid : ℕ
  mode : ℕ
  ordinary : Bool
  stamp : ℕ
deriving DecidableEq

/-- `file_identity` -/
def File.identity (f : File) : Identity := ⟨f.uid, f.gid, f.mode, f.ordinary, f.data.length, f.stamp⟩

inductive Entry
  | named
  | temporary
deriving DecidableEq

/-- The file and the entry under the random temporary name of the call. -/
structure State where
  named : Option File
  temporary : Option File
  clock : ℕ
  writes : ℕ

namespace State

def entry (s : State) : Entry → Option File
  | .named => s.named
  | .temporary => s.temporary

def put (s : State) (e : Entry) (f : Option File) : State :=
  match e with
  | .named => { s with named := f, clock := s.clock + 1 }
  | .temporary => { s with temporary := f, clock := s.clock + 1 }

/-- What the file holds. -/
def content (s : State) : Option Bytes := s.named.map File.data

end State

/-- The places of the code where an operation can fail. -/
inductive Step
  | scan | openFile | fstatFile | readFile | fstatAgain | statFile | closeFile | closeRefused
  | create | chmod | chown | injected | syncTemporary | fstatTemporary | syncCreated | statTemporary | closeTemporary
  | fstatDiscarded | statDiscarded | unlinkDiscarded | syncDiscarded | closeDiscarded
  | statTarget | replace | syncReplaced | statLeft | unlinkLeft | syncLeft
  | statRemoved | unlinkRemoved | syncRemoved | openParent | closeParent
deriving DecidableEq

inductive Op
  | step (at_ : Step)
  | scan
  | openFile
  | stat (at_ : Step) (e : Entry)
  | read
  | create
  | chmod (mode : ℕ)
  | chown (uid gid : ℕ)
  | write (view : Bytes)
  | exists_
  | replace
  | unlink (at_ : Step) (e : Entry)

abbrev Answer : Op → Type
  | .scan | .exists_ => Bool
  | .stat _ _ => File
  | .read => Bytes
  | .write _ => ℕ
  | _ => Unit

/-- An answer, or the text of an `OSError`. -/
abbrev Reply (o : Op) : Type := Except String (Answer o)

/-- The operations that fail, with their texts, and how much each write takes. -/
structure Faults where
  error : Step → Option String
  taken : ℕ → Except String ℕ

/-- `MAX_SIZE` -/
def maxSize : ℕ := 1024 * 1024

/-- An operation on an entry that has to be there. -/
def onEntry {α : Type} (s : State) (e : Entry) (f : File → α × State) : Except String α × State :=
  match s.entry e with
  | none => (.error "No such file or directory", s)
  | some x => (.ok (f x).1, (f x).2)

/-- A change of the temporary entry. -/
def change (s : State) (f : File → File) : Except String Unit × State :=
  onEntry s .temporary fun x => ((), s.put .temporary (some { f x with stamp := s.clock }))

/-- What an operation does where it does not fail. -/
def perform_ : (o : Op) → State → Except String (Answer o) × State
  | .step _, s => (.ok (), s)
  | .scan, s => (.ok s.named.isSome, s)
  | .exists_, s => (.ok s.named.isSome, s)
  | .openFile, s => onEntry s .named fun _ => ((), s)
  | .stat _ e, s => onEntry s e fun x => (x, s)
  | .read, s => onEntry s .named fun x => (x.data.take (maxSize + 1), s)
  | .create, s =>
    if s.temporary.isSome then (.error "File exists", s)
    else (.ok (), s.put .temporary (some ⟨[], 0, 0, 0, true, s.clock⟩))
  | .chmod mode, s => change s fun x => { x with mode := mode }
  | .chown uid gid, s => change s fun x => { x with uid := uid, gid := gid }
  | .write _, s => (.ok 0, s)
  | .replace, s =>
    onEntry s .temporary fun x => ((), (s.put .named (some { x with stamp := s.clock })).put .temporary none)
  | .unlink _ e, s => onEntry s e fun _ => ((), s.put e none)

/-- The place of an operation; a write fails by its number. -/
def place : Op → Option Step
  | .step at_ | .stat at_ _ | .unlink at_ _ => some at_
  | .scan => some .scan
  | .exists_ => some .statTarget
  | .openFile => some .openFile
  | .read => some .readFile
  | .create => some .create
  | .chmod _ => some .chmod
  | .chown _ _ => some .chown
  | .replace => some .replace
  | .write _ => none

/-- `os.write`, which takes a part of what it is given. -/
def writePart (faults : Faults) (view : Bytes) (s : State) : Except String ℕ × State :=
  match faults.taken s.writes with
  | .error e => (.error e, { s with writes := s.writes + 1 })
  | .ok n =>
    onEntry { s with writes := s.writes + 1 } .temporary fun x => (min n view.length,
      ({ s with writes := s.writes + 1 }).put .temporary
        (some { x with data := x.data ++ view.take n, stamp := s.clock }))

/-- One operation of the file system. -/
def effect (faults : Faults) : (o : Op) → State → Reply o × State
  | .write view, s => writePart faults view s
  | o, s =>
    match (place o).bind faults.error with
    | some e => (.error e, s)
    | none => perform_ o s

/-! ## The code -/

inductive Failure
  | lifecycle (text : String)
  | os (text : String)

abbrev P (α : Type) := Prog Op Reply Failure α

/-- An operation whose failure is an `OSError`. -/
def attempt (o : Op) : P (Answer o) := .call o fun r =>
  match r with
  | .ok a => .ret a
  | .error e => .fail (.os e)

/-- `except OSError as error: fail(...)` -/
def wrapped {α : Type} (text : String) (p : P α) : P α := p.handle fun e =>
  match e with
  | .os strerror => .fail (.lifecycle (text ++ strerror))
  | .lifecycle text => .fail (.lifecycle text)

/-- `except (LifecycleError, OSError): pass` -/
def swallowed (p : P Unit) : P Unit := p.handle fun _ => .ret ()

/-- `try: ... finally: ...` -/
def ensuring {α : Type} (p : P α) (last : P Unit) : P α :=
  (p.handle fun e => last.bind fun _ => .fail e).bind fun a => last.bind fun _ => .ret a

/-- `require_snapshot` -/
def requireSnapshot (at_ : Step) (e : Entry) (identity : Identity) (label : String) : P Unit := do
  let actual ← wrapped ("cannot reinspect " ++ label ++ ": ") (attempt (.stat at_ e))
  require (actual.identity = identity) (.lifecycle (label ++ " path binding changed"))

/-- `read_at` behind its `os.open`. -/
def readOpened (label : String) (mode gid : ℕ) : P (Bytes × Identity) := do
  let before ← attempt (.stat .fstatFile .named)
  require (before.ordinary && before.uid = 0 && before.gid = gid && before.mode = mode && before.data.length ≠ 0 &&
    before.data.length ≤ maxSize) (.lifecycle (label ++ " has unsafe metadata"))
  let data ← attempt .read
  let again ← attempt (.stat .fstatAgain .named)
  require (data.length = before.data.length && again.identity = before.identity)
    (.lifecycle (label ++ " changed while being read"))
  let actual ← attempt (.stat .statFile .named)
  require (actual.identity = before.identity) (.lifecycle (label ++ " path binding changed"))
  attempt (.step .closeFile)
  return (data, before.identity)

/-- `read_at` -/
def readAt (label : String) (mode gid : ℕ) : P (Bytes × Identity) := do
  wrapped ("cannot open " ++ label ++ ": ") (attempt .openFile)
  (readOpened label mode gid).handle fun e => do
    attempt (.step .closeRefused)
    .fail e

/-- `read_optional_state` -/
def readOptionalState (name : String) : P (Option (Bytes × Identity)) := do
  if ← wrapped "cannot inspect state root: " (attempt .scan) then
    let r ← readAt ("state file " ++ name) 0o600 0
    return some r
  else return none

/-- The loop of `write_new_at`. -/
def writeAll (label : String) (view : Bytes) : P Unit :=
  if view = [] then .ret ()
  else .call (.write view) fun r =>
    match r with
    | .error e => .fail (.os e)
    | .ok 0 => .fail (.lifecycle ("cannot write " ++ label))
    | .ok (n + 1) => writeAll label (view.drop (n + 1))
termination_by view.length
decreasing_by
  rw [List.length_drop]
  have := List.length_pos_of_ne_nil ‹¬view = []›
  omega

/-- `write_new_at` behind its `os.open`. -/
def fillNew (data : Bytes) (label : String) (mode uid gid : ℕ) : P Identity := do
  attempt (.chmod mode)
  attempt (.chown uid gid)
  (attempt (.step .injected)).handle fun _ =>
    .fail (.lifecycle "injected lifecycle failure at after-write-new-metadata")
  writeAll label data
  attempt (.step .syncTemporary)
  let written ← attempt (.stat .fstatTemporary .temporary)
  attempt (.step .syncCreated)
  requireSnapshot .statTemporary .temporary written.identity label
  attempt (.step .closeTemporary)
  return written.identity

/-- The clean-up of `write_new_at`, which says whether it has removed the file. -/
def discard (label : String) : P Bool :=
  (do
    let found ← attempt (.stat .fstatDiscarded .temporary)
    requireSnapshot .statDiscarded .temporary found.identity label
    attempt (.unlink .unlinkDiscarded .temporary)
    return true : P Bool).handle fun _ => .ret false

/-- The sync of the directory behind a removal. -/
def syncRemoval (removed : Bool) : P Unit := if removed then swallowed (attempt (.step .syncDiscarded)) else .ret ()

/-- `write_new_at` -/
def writeNewAt (data : Bytes) (label : String) (mode uid gid : ℕ) : P Identity := do
  wrapped ("cannot create " ++ label ++ ": ") (attempt .create)
  (fillNew data label mode uid gid).handle fun e => do
    let removed ← discard label
    syncRemoval removed
    swallowed (attempt (.step .closeDiscarded))
    wrapped ("cannot create " ++ label ++ ": ") (.fail e)

/-- The last look at the file before it is replaced. -/
def recheck (label : String) : Option Identity → P Unit
  | none => do
    let there ← attempt .exists_
    require (!there) (.lifecycle (label ++ " appeared during replacement"))
  | some identity => requireSnapshot .statTarget .named identity label

/-- The body of the `try` statement of `atomic_replace_at`. -/
def swap (label : String) (expected : Option Identity) : P Unit := do
  recheck label expected
  attempt .replace
  attempt (.step .syncReplaced)

/-- The clean-up of `atomic_replace_at`. -/
def discardLeft (label : String) (identity : Identity) : P Unit := do
  requireSnapshot .statLeft .temporary identity ("temporary " ++ label)
  attempt (.unlink .unlinkLeft .temporary)
  attempt (.step .syncLeft)

/-- `atomic_replace_at` -/
def atomicReplaceAt (data : Bytes) (label : String) (mode uid gid : ℕ) (expected : Option Identity) : P Unit := do
  let identity ← writeNewAt data ("temporary " ++ label) mode uid gid
  (swap label expected).handle fun e => do
    swallowed (discardLeft label identity)
    .fail e

/-- Remove the file that has been read. -/
def removeRead (label : String) (identity : Identity) : P Unit := do
  requireSnapshot .statRemoved .named identity label
  attempt (.unlink .unlinkRemoved .named)
  attempt (.step .syncRemoved)

/-- `replace_state_bytes` -/
def replaceStateBytes (name : String) (prior target : Option Bytes) (label : String) : P Unit := do
  let current ← readOptionalState name
  if current.map Prod.fst = target then return ()
  else do
    require (current.map Prod.fst = prior) (.lifecycle (label ++ " identity no longer matches the journal"))
    match target, current with
    | none, some (_, identity) => removeRead label identity
    | none, none => return ()
    | some data, _ => atomicReplaceAt data label 0o600 0 0 (current.map Prod.snd)

/-- `replace_config_bytes` between the opening and the closing of its directory. -/
def replaceConfig (mode gid : ℕ) (prior target : Bytes) : P Unit := do
  let current ← readAt "service configuration" mode gid
  if current.1 = target then return ()
  else do
    require (current.1 = prior) (.lifecycle "service configuration identity no longer matches the journal")
    atomicReplaceAt target "service configuration" mode 0 gid (some current.2)

/-- `replace_config_bytes` -/
def replaceConfigBytes (mode gid : ℕ) (prior target : Bytes) : P Unit := do
  attempt (.step .openParent)
  ensuring (replaceConfig mode gid prior target) (attempt (.step .closeParent))

/-! ## Rules -/

section Rules
variable {faults : Faults} {I : State → Prop} {α β : Type} {s t : State} {Q : Except Failure β → State → Prop}

/-- Every state of a run from `s` satisfies `I`, and the run ends as `Q` says. -/
abbrev Holds (faults : Faults) (I : State → Prop) (p : P β) (Q : Except Failure β → State → Prop) (s : State) : Prop :=
  wp (ofHandler (effect faults)) (fun _ _ t => I t) p Q s

lemma holds_call {o : Op} {k : Reply o → P β} (step : ∀ r t, effect faults o s = (r, t) → I t ∧ Holds faults I (k r) Q t) :
    Holds faults I (.call o k) Q s :=
  ⟨fun _ cut => cut.elim, fun r t done => step r t done⟩

/-- An operation goes on with its answer, or its error is the result. -/
lemma holds_attempt {o : Op} {f : Answer o → P β}
    (done : ∀ a t, effect faults o s = (.ok a, t) → I t ∧ Holds faults I (f a) Q t)
    (failed : ∀ e t, effect faults o s = (.error e, t) → I t ∧ Q (.error (.os e)) t) :
    Holds faults I ((attempt o).bind f) Q s := by
  refine holds_call fun r t step => ?_
  cases r with
  | ok a => exact done a t step
  | error e => exact failed e t step

lemma holds_attempt_last {o : Op} {Q : Except Failure (Answer o) → State → Prop}
    (done : ∀ a t, effect faults o s = (.ok a, t) → I t ∧ Q (.ok a) t)
    (failed : ∀ e t, effect faults o s = (.error e, t) → I t ∧ Q (.error (.os e)) t) :
    Holds faults I (attempt o) Q s :=
  wp_tail (holds_attempt done failed)

lemma holds_require {b : Bool} {e : Failure} {p : P β} (refused : b = false → Q (.error e) s)
    (passed : b = true → Holds faults I p Q s) : Holds faults I ((require b e : P Unit).bind fun _ => p) Q s := by
  rw [bind_require]
  exact wp_check refused passed

lemma holds_require_last {b : Bool} {e : Failure} {Q : Except Failure Unit → State → Prop}
    (refused : b = false → Q (.error e) s) (passed : b = true → Q (.ok ()) s) :
    Holds faults I (require b e : P Unit) Q s := by
  cases b with
  | false => exact refused rfl
  | true => exact passed rfl

/-- A program behind another one that ends as `R` says. -/
lemma holds_bind {p : P α} {f : α → P β} {R : Except Failure α → State → Prop} (first : Holds faults I p R s)
    (ok : ∀ a t, R (.ok a) t → Holds faults I (f a) Q t) (failed : ∀ e t, R (.error e) t → Q (.error e) t) :
    Holds faults I (p.bind f) Q s := by
  refine wp_bind.mpr (wp_mono first (fun _ _ _ here => here) fun out t ended => ?_)
  cases out with
  | ok a => exact ok a t ended
  | error e => exact failed e t ended

/-- A handler behind a program that ends as `R` says. -/
lemma holds_handle {p : P β} {h : Failure → P β} {R : Except Failure β → State → Prop} (first : Holds faults I p R s)
    (ok : ∀ a t, R (.ok a) t → Q (.ok a) t) (failed : ∀ e t, R (.error e) t → Holds faults I (h e) Q t) :
    Holds faults I (p.handle h) Q s := by
  refine wp_handle.mpr (wp_mono first (fun _ _ _ here => here) fun out t ended => ?_)
  cases out with
  | ok a => exact ok a t ended
  | error e => exact failed e t ended

/-- Another text for the errors of a program. -/
lemma holds_wrapped {text : String} {p : P β} (all : ∀ e e' t, Q (.error e) t → Q (.error e') t)
    (h : Holds faults I p Q s) : Holds faults I (wrapped text p) Q s := by
  refine holds_handle h (fun _ _ ended => ended) fun e t ended => ?_
  cases e with
  | lifecycle _ => exact ended
  | os _ => exact all _ _ t ended

lemma holds_swallowed {p : P Unit} {R : State → Prop} (h : Holds faults I p (fun _ t => R t) s) :
    Holds faults I (swallowed p) (fun out t => out = .ok () ∧ R t) s :=
  holds_handle h (fun _ _ ended => ⟨rfl, ended⟩) fun _ _ ended => ⟨rfl, ended⟩

end Rules

/-! ## Operations -/

section Operations
variable {faults : Faults} {s t : State} {o : Op}

/-- The operations that only look. -/
def Op.Looks : Op → Prop
  | .step _ | .scan | .openFile | .stat _ _ | .read | .exists_ => True
  | _ => False

lemma onEntry_cases {α : Type} {e : Entry} {f : File → α × State} {r : Except String α}
    (h : onEntry s e f = (r, t)) : (∃ x, s.entry e = some x ∧ r = .ok (f x).1 ∧ t = (f x).2) ∨
      s.entry e = none ∧ t = s ∧ ∃ text, r = .error text := by
  unfold onEntry at h
  split at h
  · next none_ =>
    cases h
    exact .inr ⟨none_, rfl, _, rfl⟩
  · next x found =>
    cases h
    exact .inl ⟨x, found, rfl, rfl⟩

/-- An operation that is no write fails at its place, or does what it does. -/
lemma effect_cases (other : ∀ view, o ≠ .write view) {r : Reply o} (h : effect faults o s = (r, t)) :
    (∃ e, (place o).bind faults.error = some e ∧ r = .error e ∧ t = s) ∨
      (place o).bind faults.error = none ∧ perform_ o s = (r, t) := by
  have eq : effect faults o s = match (place o).bind faults.error with
    | some e => (.error e, s)
    | none => perform_ o s := by
    cases o with
    | write view => exact absurd rfl (other view)
    | _ => rfl
  rw [eq] at h
  split at h
  · next e failed =>
    cases h
    exact .inl ⟨e, failed, rfl, rfl⟩
  · next fine => exact .inr ⟨fine, h⟩

lemma effect_looks (looks : o.Looks) {r : Reply o} (h : effect faults o s = (r, t)) : t = s := by
  rcases effect_cases (fun view same => by subst same; exact looks) h with ⟨-, -, -, same⟩ | ⟨-, done⟩
  · exact same
  · cases o with
    | step | scan | exists_ =>
      cases done
      rfl
    | openFile | stat | read =>
      rcases onEntry_cases done with ⟨x, -, -, same⟩ | ⟨-, same, -⟩
      · exact same
      · exact same
    | _ => exact looks.elim

/-- An operation that looks, in front of a program. -/
lemma holds_look {I : State → Prop} {β : Type} {Q : Except Failure β → State → Prop} {f : Answer o → P β} (looks : o.Looks)
    (here : I s) (failed : ∀ e, Q (.error e) s) (done : ∀ a, effect faults o s = (.ok a, s) → Holds faults I (f a) Q s) :
    Holds faults I ((attempt o).bind f) Q s := by
  refine holds_attempt (fun a t step => ?_) fun e t step => ?_
  · obtain rfl := effect_looks looks step
    exact ⟨here, done a step⟩
  · obtain rfl := effect_looks looks step
    exact ⟨here, failed (.os e)⟩

lemma stat_ok {at_ : Step} {e : Entry} {x : File} (h : effect faults (.stat at_ e) s = (.ok x, t)) :
    s.entry e = some x := by
  rcases effect_cases (by simp) h with ⟨_, -, bad, -⟩ | ⟨-, done⟩
  · cases bad
  · rcases onEntry_cases done with ⟨y, found, same, -⟩ | ⟨-, -, _, bad⟩
    · cases same
      exact found
    · cases bad

lemma read_ok {x : File} {data : Bytes} (found : s.entry .named = some x) (h : effect faults .read s = (.ok data, t)) :
    data = x.data.take (maxSize + 1) := by
  rcases effect_cases (by simp) h with ⟨_, -, bad, -⟩ | ⟨-, done⟩
  · cases bad
  · rcases onEntry_cases done with ⟨y, there, same, -⟩ | ⟨-, -, _, bad⟩
    · rw [found] at there
      cases there
      exact Except.ok.inj same
    · cases bad

lemma stat_error {at_ : Step} {e : Entry} {text : String} (h : effect faults (.stat at_ e) s = (.error text, t)) :
    faults.error at_ ≠ none ∨ s.entry e = none := by
  rcases effect_cases (by simp) h with ⟨_, failed, -, -⟩ | ⟨-, done⟩
  · exact .inl fun none_ => by simp [place, none_] at failed
  · rcases onEntry_cases done with ⟨y, -, bad, -⟩ | ⟨missing, -, -⟩
    · cases bad
    · exact .inr missing

end Operations

/-! ## Reading -/

section Reading
variable {faults : Faults} {I : State → Prop} {s : State} {label : String}

lemma look_spec {o : Op} (looks : o.Looks) (here : I s) : Holds faults I (attempt o) (fun _ t => t = s) s := by
  refine holds_attempt_last (fun _ t step => ?_) fun _ t step => ?_
  · obtain rfl := effect_looks looks step
    exact ⟨here, rfl⟩
  · obtain rfl := effect_looks looks step
    exact ⟨here, rfl⟩

lemma stat_spec {at_ : Step} {e : Entry} (here : I s) : Holds faults I (attempt (.stat at_ e)) (fun out t => t = s ∧
    (∀ x, out = .ok x → s.entry e = some x) ∧ ∀ err, out = .error err → faults.error at_ ≠ none ∨ s.entry e = none) s := by
  refine holds_attempt_last (fun x t step => ?_) fun err t step => ?_
  · obtain rfl := effect_looks (by trivial) step
    refine ⟨here, rfl, fun y same => ?_, by simp⟩
    cases same
    exact stat_ok step
  · obtain rfl := effect_looks (by trivial) step
    exact ⟨here, rfl, by simp, fun _ _ => stat_error step⟩

/-- A snapshot that is taken again passes where the entry is still the same, unless the look at it fails. -/
lemma requireSnapshot_spec {at_ : Step} {e : Entry} {identity : Identity} (here : I s) :
    Holds faults I (requireSnapshot at_ e identity label) (fun out t => t = s ∧ ∀ err, out = .error err →
      faults.error at_ ≠ none ∨ ∀ x, s.entry e = some x → x.identity ≠ identity) s := by
  refine holds_bind (holds_wrapped (fun err err' t h => ?_) (stat_spec here)) (fun x t found => ?_) fun err t h => ?_
  · exact ⟨h.1, by simp, fun _ _ => h.2.2 err rfl⟩
  · obtain ⟨rfl, there, -⟩ := found
    refine holds_require_last (fun other => ⟨rfl, fun _ _ => .inr fun y same => ?_⟩) fun _ => ⟨rfl, by simp⟩
    rw [there x rfl] at same
    cases same
    exact of_decide_eq_false other
  · refine ⟨h.1, fun _ _ => (h.2.2 err rfl).imp_right fun missing x found => ?_⟩
    rw [missing] at found
    cases found

/-- Reading changes nothing, and what it returns is what the file holds. -/
lemma readAt_spec (mode gid : ℕ) (here : I s) : Holds faults I (readAt label mode gid)
    (fun out t => t = s ∧ ∀ r, out = .ok r → s.content = some r.1) s := by
  have opened : Holds faults I (readOpened label mode gid)
      (fun out t => t = s ∧ ∀ r, out = .ok r → s.content = some r.1) s := by
    refine holds_look (by trivial) here (fun _ => ⟨rfl, by simp⟩) fun before step => ?_
    have found := stat_ok step
    refine holds_require (fun _ => ⟨rfl, by simp⟩) fun safe => ?_
    refine holds_look (by trivial) here (fun _ => ⟨rfl, by simp⟩) fun data read => ?_
    refine holds_look (by trivial) here (fun _ => ⟨rfl, by simp⟩) fun again _ => ?_
    refine holds_require (fun _ => ⟨rfl, by simp⟩) fun whole => ?_
    refine holds_look (by trivial) here (fun _ => ⟨rfl, by simp⟩) fun actual _ => ?_
    refine holds_require (fun _ => ⟨rfl, by simp⟩) fun _ => ?_
    refine holds_look (by trivial) here (fun _ => ⟨rfl, by simp⟩) fun _ _ => ⟨rfl, fun r same => ?_⟩
    obtain rfl := Except.ok.inj same
    simp only [Bool.and_eq_true, decide_eq_true_eq] at safe whole
    rw [read_ok found read] at whole ⊢
    rw [State.content, show s.named = some before from found, Option.map_some]
    exact congrArg some (List.take_of_length_le (by omega)).symm
  refine holds_bind (holds_wrapped (fun _ _ _ h => h) (look_spec (by trivial) here)) (fun _ t same => ?_)
    fun _ t same => ⟨same, by simp⟩
  subst same
  refine holds_handle opened (fun _ _ h => h) fun e t h => ?_
  obtain ⟨rfl, -⟩ := h
  exact holds_look (by trivial) here (fun _ => ⟨rfl, by simp⟩) fun _ _ => ⟨rfl, by simp⟩

end Reading

/-! ## The temporary entry -/

section Temporary
variable {faults : Faults} {s t : State} {label : String}

/-- The file is untouched; this is what holds while the temporary entry is written. -/
def Same (s t : State) : Prop := t.named = s.named

/-- The clean-up of the temporary entry does not fail. -/
structure Cleans (faults : Faults) : Prop where
  fstatDiscarded : faults.error .fstatDiscarded = none
  statDiscarded : faults.error .statDiscarded = none
  unlinkDiscarded : faults.error .unlinkDiscarded = none
  statLeft : faults.error .statLeft = none
  unlinkLeft : faults.error .unlinkLeft = none

/-- The temporary entry is a file with the data. -/
def State.Fills (s : State) (d : Bytes) : Prop := ∃ f, s.temporary = some f ∧ f.data = d

/-- The file is `n`, and the temporary entry is there. -/
def State.Filling (s : State) (n : Option File) : Prop := s.named = n ∧ s.temporary.isSome = true

lemma State.Fills.filling {d : Bytes} {n : Option File} (here : s.named = n) (h : s.Fills d) : s.Filling n := by
  obtain ⟨f, found, -⟩ := h
  exact ⟨here, by rw [found]; rfl⟩

/-- An operation on the metadata of the temporary entry. -/
lemma change_cases {f : File → File} (keeps : ∀ x, (f x).data = x.data) {d : Bytes} (fills : s.Fills d)
    {r : Except String Unit} (h : change s f = (r, t)) : t.named = s.named ∧ t.Fills d := by
  obtain ⟨x, there, data⟩ := fills
  rcases onEntry_cases h with ⟨y, found, -, rfl⟩ | ⟨-, rfl, -⟩
  · rw [show s.entry .temporary = some x from there] at found
    cases found
    exact ⟨rfl, _, rfl, (keeps x).trans data⟩
  · exact ⟨rfl, x, there, data⟩

variable {n : Option File}

lemma chmod_spec {mode : ℕ} {d : Bytes} (here : s.named = n) (fills : s.Fills d) :
    Holds faults (fun t => t.named = n) (attempt (.chmod mode)) (fun _ t => t.named = n ∧ t.Fills d) s := by
  have each {r : Reply (.chmod mode)} {t : State} (step : effect faults (.chmod mode) s = (r, t)) :
      t.named = n ∧ t.Fills d := by
    rcases effect_cases (by simp) step with ⟨-, -, -, rfl⟩ | ⟨-, done⟩
    · exact ⟨here, fills⟩
    · obtain ⟨same, fills⟩ := change_cases (f := fun x => { x with mode := mode }) (fun _ => rfl) fills done
      exact ⟨same.trans here, fills⟩
  exact holds_attempt_last (fun _ _ step => ⟨(each step).1, each step⟩) fun _ _ step => ⟨(each step).1, each step⟩

lemma chown_spec {uid gid : ℕ} {d : Bytes} (here : s.named = n) (fills : s.Fills d) :
    Holds faults (fun t => t.named = n) (attempt (.chown uid gid)) (fun _ t => t.named = n ∧ t.Fills d) s := by
  have each {r : Reply (.chown uid gid)} {t : State} (step : effect faults (.chown uid gid) s = (r, t)) :
      t.named = n ∧ t.Fills d := by
    rcases effect_cases (by simp) step with ⟨-, -, -, rfl⟩ | ⟨-, done⟩
    · exact ⟨here, fills⟩
    · obtain ⟨same, fills⟩ := change_cases (f := fun x => { x with uid := uid, gid := gid }) (fun _ => rfl) fills done
      exact ⟨same.trans here, fills⟩
  exact holds_attempt_last (fun _ _ step => ⟨(each step).1, each step⟩) fun _ _ step => ⟨(each step).1, each step⟩

/-- What a write has taken is behind the data that were there. -/
lemma writePart_cases {view d : Bytes} (fills : s.Fills d) {r : Except String ℕ} (h : writePart faults view s = (r, t)) :
    t.named = s.named ∧ t.temporary.isSome = true ∧ ∀ k, r = .ok k → t.Fills (d ++ view.take k) := by
  obtain ⟨x, there, rfl⟩ := fills
  unfold writePart at h
  split at h
  · cases h
    exact ⟨rfl, by rw [show s.temporary = some x from there]; rfl, by simp⟩
  · next n _ =>
    rcases onEntry_cases h with ⟨y, found, rfl, rfl⟩ | ⟨missing, -, -⟩
    · rw [show State.entry { s with writes := s.writes + 1 } .temporary = some x from there] at found
      cases found
      refine ⟨rfl, rfl, fun k same => ⟨_, rfl, ?_⟩⟩
      obtain rfl := Except.ok.inj same
      change x.data ++ view.take n = x.data ++ view.take (min n view.length)
      rw [← List.take_eq_take_min]
    · rw [show State.entry { s with writes := s.writes + 1 } .temporary = some x from there] at missing
      cases missing

/-- The loop writes everything or fails; the induction is on what is left. -/
lemma writeAll_spec {view d : Bytes} (here : s.named = n) (fills : s.Fills d) :
    Holds faults (fun t => t.named = n) (writeAll label view)
      (fun out t => t.Filling n ∧ (out = .ok () → t.Fills (d ++ view))) s := by
  induction length : view.length using Nat.strong_induction_on generalizing view d s with
  | _ l ih =>
    rw [writeAll]
    split_ifs with done
    · subst done
      exact ⟨fills.filling here, fun _ => by rwa [List.append_nil]⟩
    · refine holds_call fun r t step => ?_
      obtain ⟨same, there, taken⟩ := writePart_cases fills step
      rcases r with e | k
      · exact ⟨same.trans here, ⟨same.trans here, there⟩, by simp⟩
      cases k with
      | zero => exact ⟨same.trans here, ⟨same.trans here, there⟩, by simp⟩
      | succ k =>
        have some_ := List.length_pos_of_ne_nil done
        have shorter : (view.drop (k + 1)).length < l := by
          rw [List.length_drop]
          omega
        refine ⟨same.trans here, wp_mono (ih _ shorter (same.trans here) (taken _ rfl) rfl) (fun _ _ _ h => h) ?_⟩
        intro out u ended
        refine ⟨ended.1, fun ok => ?_⟩
        have whole := ended.2 ok
        rwa [List.append_assoc, List.take_append_drop] at whole

/-- A new file that has been written holds its data, and its identity is the one returned. -/
def State.Written (s : State) (n : Option File) (d : Bytes) (i : Identity) : Prop :=
  s.named = n ∧ ∃ f, s.temporary = some f ∧ f.data = d ∧ f.identity = i

lemma fillNew_spec {data : Bytes} {mode uid gid : ℕ} (here : s.named = n) (fills : s.Fills []) :
    Holds faults (fun t => t.named = n) (fillNew data label mode uid gid)
      (fun out t => t.Filling n ∧ ∀ i, out = .ok i → t.Written n data i) s := by
  refine holds_bind (chmod_spec here fills) (fun _ t h => ?_) fun _ t h => ⟨h.2.filling h.1, by simp⟩
  obtain ⟨here, fills⟩ := h
  refine holds_bind (chown_spec here fills) (fun _ t h => ?_) fun _ t h => ⟨h.2.filling h.1, by simp⟩
  obtain ⟨here, fills⟩ := h
  have injected : Holds faults (fun t => t.named = n)
      ((attempt (.step .injected)).handle fun _ =>
        .fail (.lifecycle "injected lifecycle failure at after-write-new-metadata")) (fun _ u => u = t) t :=
    holds_handle (look_spec (by trivial) here) (fun _ _ h => h) fun _ _ h => h
  refine holds_bind injected (fun _ u h => ?_) fun _ u h => ?_
  · subst h
    refine holds_bind (writeAll_spec here fills) (fun _ t h => ?_) fun _ t h => ⟨h.1, by simp⟩
    have fills := h.2 rfl
    obtain ⟨⟨here, -⟩, -⟩ := h
    have kept := fills.filling here
    refine holds_look (by trivial) here (fun _ => ⟨kept, by simp⟩) fun _ _ => ?_
    refine holds_look (by trivial) here (fun _ => ⟨kept, by simp⟩) fun x step => ?_
    have found := stat_ok step
    refine holds_look (by trivial) here (fun _ => ⟨kept, by simp⟩) fun _ _ => ?_
    refine holds_bind (requireSnapshot_spec here) (fun _ u same => ?_) fun _ u same => ?_
    · obtain ⟨rfl, -⟩ := same
      refine holds_look (by trivial) here (fun _ => ⟨kept, by simp⟩) fun _ _ => ⟨kept, fun i same => ?_⟩
      obtain rfl := Except.ok.inj same
      obtain ⟨f, there, data⟩ := fills
      rw [show u.temporary = some x from found] at there
      cases there
      exact ⟨here, x, found, data, rfl⟩
    · obtain ⟨rfl, -⟩ := same
      exact ⟨kept, by simp⟩
  · subst h
    exact ⟨fills.filling here, by simp⟩

lemma unlink_spec {at_ : Step} (here : s.named = n) : Holds faults (fun t => t.named = n)
    (attempt (.unlink at_ .temporary)) (fun out t => t.named = n ∧ (out = .ok () → t.temporary = none) ∧
      ∀ e, out = .error e → t = s ∧ (faults.error at_ ≠ none ∨ s.temporary = none)) s := by
  have each {r : Reply (.unlink at_ .temporary)} {t : State} (step : effect faults (.unlink at_ .temporary) s = (r, t)) :
      t.named = n ∧ (r = .ok () → t.temporary = none) ∧
        ∀ e, r = .error e → t = s ∧ (faults.error at_ ≠ none ∨ s.temporary = none) := by
    rcases effect_cases (by simp) step with ⟨e, failed, rfl, rfl⟩ | ⟨-, done⟩
    · exact ⟨here, by simp, fun _ _ => ⟨rfl, .inl fun none_ => by simp [place, none_] at failed⟩⟩
    · rcases onEntry_cases done with ⟨x, -, rfl, rfl⟩ | ⟨missing, rfl, text, rfl⟩
      · exact ⟨here, fun _ => rfl, by simp⟩
      · exact ⟨here, by simp, fun _ _ => ⟨rfl, .inr missing⟩⟩
  refine holds_attempt_last (fun a t step => ?_) fun e t step => ?_
  · exact ⟨(each step).1, (each step).1, fun _ => (each step).2.1 rfl, by simp⟩
  · exact ⟨(each step).1, (each step).1, by simp, fun _ _ => (each step).2.2 e rfl⟩

/-- The clean-up of a file that is there removes it, where its own operations do not fail. -/
lemma discard_spec (kept : s.Filling n) : Holds faults (fun t => t.named = n) (discard label)
    (fun _ t => t.named = n ∧ (Cleans faults → t.temporary = none)) s := by
  obtain ⟨here, there⟩ := kept
  obtain ⟨f, found⟩ := Option.isSome_iff_exists.mp there
  have removed : Holds faults (fun t => t.named = n)
      (do
        let found ← attempt (.stat .fstatDiscarded .temporary)
        requireSnapshot .statDiscarded .temporary found.identity label
        attempt (.unlink .unlinkDiscarded .temporary)
        return true : P Bool)
      (fun out t => t.named = n ∧ (Cleans faults → out = .ok true ∧ t.temporary = none)) s := by
    refine holds_bind (stat_spec here) (fun x t h => ?_) fun e t h => ?_
    · obtain ⟨rfl, seen, -⟩ := h
      have same : f = x := Option.some.inj (found.symm.trans (seen x rfl))
      refine holds_bind (requireSnapshot_spec here) (fun _ u h => ?_) fun e u h => ?_
      · obtain ⟨rfl, -⟩ := h
        refine holds_bind (unlink_spec here) (fun _ v h => ⟨h.1, fun _ => ⟨rfl, h.2.1 rfl⟩⟩) fun e v h => ⟨h.1, fun clean => ?_⟩
        rcases (h.2.2 e rfl).2 with failed | missing
        · exact absurd clean.unlinkDiscarded failed
        · rw [found] at missing
          cases missing
      · obtain ⟨rfl, failed⟩ := h
        refine ⟨here, fun clean => ?_⟩
        rcases failed e rfl with failed | other
        · exact absurd clean.statDiscarded failed
        · exact absurd (congrArg File.identity same) (other f found)
    · obtain ⟨rfl, -, failed⟩ := h
      refine ⟨here, fun clean => ?_⟩
      rcases failed e rfl with failed | missing
      · exact absurd clean.fstatDiscarded failed
      · rw [show t.entry .temporary = some f from found] at missing
        cases missing
  refine holds_handle removed (fun _ t h => ⟨h.1, fun clean => (h.2 clean).2⟩) fun e t h => ⟨h.1, fun clean => ?_⟩
  cases (h.2 clean).1

/-- The new file is there with its data, or, where the clean-up does not fail, nothing has changed. -/
lemma writeNewAt_spec {data : Bytes} {mode uid gid : ℕ} (here : s.named = n) :
    Holds faults (fun t => t.named = n) (writeNewAt data label mode uid gid) (fun out t => t.named = n ∧
      (∀ i, out = .ok i → s.temporary = none ∧ t.Written n data i) ∧
        ∀ e, out = .error e → Cleans faults → t.temporary = s.temporary) s := by
  have created {r : Reply .create} {t : State} (step : effect faults .create s = (r, t)) :
      t.named = n ∧ (r = .ok () → s.temporary = none ∧ t.Fills []) ∧ ∀ e, r = .error e → t = s := by
    rcases effect_cases (by simp) step with ⟨e, -, rfl, rfl⟩ | ⟨-, done⟩
    · exact ⟨here, by simp, fun _ _ => rfl⟩
    · change (if s.temporary.isSome then _ else _) = (r, t) at done
      split_ifs at done with taken
      · cases done
        exact ⟨here, by simp, fun _ _ => rfl⟩
      · cases done
        exact ⟨here, fun _ => ⟨by simpa using taken, _, rfl, rfl⟩, by simp⟩
  have create : Holds faults (fun t => t.named = n) (wrapped ("cannot create " ++ label ++ ": ") (attempt .create))
      (fun out t => t.named = n ∧ (out = .ok () → s.temporary = none ∧ t.Fills []) ∧ ∀ e, out = .error e → t = s) s := by
    refine holds_wrapped (fun e e' t h => ⟨h.1, by simp, fun _ _ => h.2.2 e rfl⟩)
      (holds_attempt_last (fun a t step => ?_) fun e t step => ?_)
    · exact ⟨(created step).1, (created step).1, fun _ => (created step).2.1 rfl, by simp⟩
    · exact ⟨(created step).1, (created step).1, by simp, fun _ _ => (created step).2.2 e rfl⟩
  refine holds_bind create (fun _ t h => ?_) fun e t h => ⟨h.1, by simp, fun _ _ _ => by rw [h.2.2 e rfl]⟩
  obtain ⟨here, fresh, -⟩ := h
  obtain ⟨none_, fills⟩ := fresh rfl
  refine holds_handle (fillNew_spec here fills) (fun i u h => ?_) fun e u h => ?_
  · refine ⟨(h.2 i rfl).1, fun j same => ⟨none_, ?_⟩, by simp⟩
    cases same
    exact h.2 i rfl
  · refine holds_bind (discard_spec h.1) (fun b v h => ?_) fun e v h => ⟨h.1, by simp, fun _ _ clean => ?_⟩
    · obtain ⟨here, clean⟩ := h
      have swallow (at_ : Step) : Holds faults (fun t => t.named = n) (swallowed (attempt (.step at_)))
          (fun out t => out = .ok () ∧ t = v) v := holds_swallowed (look_spec (by trivial) here)
      have synced : Holds faults (fun t => t.named = n) (syncRemoval b) (fun out t => out = .ok () ∧ t = v) v := by
        unfold syncRemoval
        split_ifs
        · exact swallow _
        · exact ⟨rfl, rfl⟩
      refine holds_bind synced (fun _ w h => ?_) fun e w h => absurd h.1 (by simp)
      obtain ⟨-, rfl⟩ := h
      refine holds_bind (swallow _) (fun _ w h => ?_) fun e w h => absurd h.1 (by simp)
      obtain ⟨-, rfl⟩ := h
      have ended : w.named = n ∧ (∀ i : Identity, Except.error e = Except.ok i → s.temporary = none ∧ w.Written n data i) ∧
          ∀ err, Except.error e = (Except.error err : Except Failure Identity) → Cleans faults → w.temporary = s.temporary :=
        ⟨here, by simp, fun _ _ clean_ => by rw [clean clean_, none_]⟩
      refine holds_wrapped (fun _ _ t h => ⟨h.1, by simp, fun _ _ => h.2.2 _ rfl⟩) ?_
      exact ended
    · rw [h.2 clean, none_]

end Temporary

/-! ## The replacement -/

section Replacement
variable {faults : Faults} {s : State} {label : String} {data : Bytes}

lemma step_spec {I : State → Prop} {at_ : Step} (here : I s) : Holds faults I (attempt (.step at_))
    (fun out t => t = s ∧ ∀ e, out = .error e → faults.error at_ ≠ none) s := by
  refine holds_attempt_last (fun a t step => ?_) fun e t step => ?_
  · obtain rfl := effect_looks (by trivial) step
    exact ⟨here, rfl, by simp⟩
  · obtain rfl := effect_looks (by trivial) step
    refine ⟨here, rfl, fun _ _ none_ => ?_⟩
    rcases effect_cases (by simp) step with ⟨_, failed, -, -⟩ | ⟨-, done⟩
    · simp [place, none_] at failed
    · cases done

lemma recheck_spec {I : State → Prop} (here : I s) (expected : Option Identity) :
    Holds faults I (recheck label expected) (fun _ t => t = s) s := by
  cases expected with
  | none =>
    refine holds_bind (look_spec (by trivial) here) (fun a t same => ?_) fun _ _ same => same
    exact holds_require_last (fun _ => same) fun _ => same
  | some identity => exact wp_mono (requireSnapshot_spec here) (fun _ _ _ h => h) fun _ _ h => h.1

/-- Nothing has been replaced, or the file holds the data and only the sync of the directory has failed. -/
lemma swap_spec {n : Option File} {i : Identity} (written : s.Written n data i) (expected : Option Identity) :
    Holds faults (fun t => t.content = s.content ∨ t.content = some data) (swap label expected)
      (fun out t => (t = s ∧ ∃ e, out = .error e) ∨ (t.content = some data ∧ t.temporary = none ∧
        ∀ e, out = .error e → faults.error .syncReplaced ≠ none)) s := by
  obtain ⟨-, f, there, holds, -⟩ := written
  refine holds_bind (recheck_spec (.inl rfl) expected) (fun _ t same => ?_) fun e t same => .inl ⟨same, e, rfl⟩
  subst same
  refine holds_attempt (fun a u step => ?_) fun e u step => ?_
  · rcases effect_cases (by simp) step with ⟨_, -, bad, -⟩ | ⟨-, done⟩
    · cases bad
    · rcases onEntry_cases done with ⟨x, found, -, rfl⟩ | ⟨-, -, _, bad⟩
      · obtain rfl := Option.some.inj (there.symm.trans found)
        have replaced : State.content ((t.put .named (some { f with stamp := t.clock })).put .temporary none) = some data :=
          congrArg some holds
        refine ⟨.inr replaced, wp_mono (step_spec (.inr replaced)) (fun _ _ _ h => h) fun out v h => .inr ?_⟩
        obtain ⟨rfl, failed⟩ := h
        exact ⟨replaced, rfl, failed⟩
      · cases bad
  · have same : u = t := by
      rcases effect_cases (by simp) step with ⟨_, -, -, same⟩ | ⟨-, done⟩
      · exact same
      · rcases onEntry_cases done with ⟨x, -, bad, -⟩ | ⟨-, same, -⟩
        · cases bad
        · exact same
    subst same
    exact ⟨.inl rfl, .inl ⟨rfl, _, rfl⟩⟩

/-- The clean-up removes the temporary entry if it is still the one that was written. -/
lemma discardLeft_spec {n : Option File} {i : Identity} (here : s.named = n)
    (kept : ∀ f, s.temporary = some f → f.identity = i) : Holds faults (fun t => t.named = n)
      (swallowed (discardLeft label i)) (fun out t => out = .ok () ∧ t.named = n ∧ (Cleans faults → t.temporary = none)) s := by
  refine holds_swallowed (holds_bind (requireSnapshot_spec here) (fun _ t h => ?_) fun e t h => ?_)
  · obtain ⟨rfl, -⟩ := h
    refine holds_bind (unlink_spec here) (fun _ u h => ?_) fun e u h => ⟨h.1, fun clean => ?_⟩
    · refine wp_mono (step_spec h.1) (fun _ _ _ g => g) fun out v same => ?_
      obtain ⟨rfl, -⟩ := same
      exact ⟨h.1, fun _ => h.2.1 rfl⟩
    · obtain ⟨rfl, failed | missing⟩ := h.2.2 e rfl
      · exact absurd clean.unlinkLeft failed
      · exact missing
  · obtain ⟨rfl, failed⟩ := h
    refine ⟨here, fun clean => ?_⟩
    cases found : t.temporary with
    | none => rfl
    | some f =>
      rcases failed e rfl with failed | other
      · exact absurd clean.statLeft failed
      · exact absurd (kept f found) (other f found)

/-- What a call leaves: on success its target, on an error what was there, or the target where the sync that follows has
failed; and no temporary entry of its own. -/
structure Left (faults : Faults) (s : State) (target : Option Bytes) (syncs : List Step) (out : Except Failure Unit)
    (t : State) : Prop where
  done : out = .ok () → t.content = target
  failed : ∀ e, out = .error e → t.content = s.content ∨ (t.content = target ∧ ∃ at_ ∈ syncs, faults.error at_ ≠ none)
  cleaned : out = .ok () ∨ Cleans faults → t.temporary = s.temporary

lemma atomicReplaceAt_spec {mode uid gid : ℕ} (expected : Option Identity) :
    Holds faults (fun t => t.content = s.content ∨ t.content = some data)
      (atomicReplaceAt data label mode uid gid expected) (Left faults s (some data) [.syncReplaced]) s := by
  have keep {t : State} (same : t.named = s.named) : t.content = s.content := congrArg (Option.map File.data) same
  have write : Holds faults (fun t => t.content = s.content ∨ t.content = some data)
      (writeNewAt data ("temporary " ++ label) mode uid gid) (fun out t => t.named = s.named ∧
        (∀ i, out = .ok i → s.temporary = none ∧ t.Written s.named data i) ∧
          ∀ e, out = .error e → Cleans faults → t.temporary = s.temporary) s :=
    wp_mono (writeNewAt_spec rfl) (fun _ _ _ same => .inl (keep same)) fun _ _ h => h
  refine holds_bind write (fun i t h => ?_) fun e t h => ?_
  · obtain ⟨here, ok, -⟩ := h
    obtain ⟨none_, written⟩ := ok i rfl
    have same := keep here
    have swapped : Holds faults (fun u => u.content = s.content ∨ u.content = some data) (swap label expected)
        (fun out u => (u = t ∧ ∃ e, out = .error e) ∨ (u.content = some data ∧ u.temporary = none ∧
          ∀ e, out = .error e → faults.error .syncReplaced ≠ none)) t := by
      rw [← same]
      exact swap_spec written expected
    refine holds_handle swapped (fun _ u h => ?_) fun e u h => ?_
    · rcases h with ⟨-, e, bad⟩ | ⟨content, gone, -⟩
      · cases bad
      · exact ⟨fun _ => content, by simp, fun _ => gone.trans none_.symm⟩
    · have content : u.content = s.content ∨ (u.content = some data ∧ faults.error .syncReplaced ≠ none) := by
        rcases h with ⟨rfl, -⟩ | ⟨replaced, -, failed⟩
        · exact .inl same
        · exact .inr ⟨replaced, failed e rfl⟩
      have kept : ∀ f, u.temporary = some f → f.identity = i := by
        intro f found
        rcases h with ⟨rfl, -⟩ | ⟨-, gone, -⟩
        · obtain ⟨-, x, there, -, identity⟩ := written
          obtain rfl := Option.some.inj (there.symm.trans found)
          exact identity
        · rw [gone] at found
          cases found
      have back {v : State} (same : v.named = u.named) : v.content = s.content ∨ v.content = some data := by
        rw [show v.content = u.content from congrArg (Option.map File.data) same]
        exact content.imp_right And.left
      have clean : Holds faults (fun v => v.content = s.content ∨ v.content = some data) (swallowed (discardLeft label i))
          (fun out v => out = .ok () ∧ v.named = u.named ∧ (Cleans faults → v.temporary = none)) u :=
        wp_mono (discardLeft_spec rfl kept) (fun _ _ _ same => back same) fun _ _ h => h
      refine holds_bind clean (fun _ v h => ?_) fun e v h => absurd h.1 (by simp)
      have unchanged : v.content = u.content := congrArg (Option.map File.data) h.2.1
      refine ⟨by simp, fun _ _ => ?_, fun clean => ?_⟩
      · rw [unchanged]
        exact content.imp_right fun h => ⟨h.1, .syncReplaced, by simp, h.2⟩
      · rw [h.2.2 (clean.resolve_left (by simp)), none_]
  · obtain ⟨here, -, clean⟩ := h
    exact ⟨by simp, fun _ _ => .inl (keep here), fun h => clean e rfl (h.resolve_left (by simp))⟩

/-- The content of a state is what it was, or it was the prior value and is the target. -/
def Keeps (s : State) (prior target : Option Bytes) (t : State) : Prop :=
  t.content = s.content ∨ (s.content = prior ∧ t.content = target)

lemma readOptionalState_spec {I : State → Prop} (here : I s) (name : String) :
    Holds faults I (readOptionalState name) (fun out t => t = s ∧ ∀ r, out = .ok r → s.content = r.map Prod.fst) s := by
  have scan : Holds faults I (wrapped "cannot inspect state root: " (attempt .scan))
      (fun out t => t = s ∧ ∀ b, out = .ok b → b = s.named.isSome) s := by
    refine holds_wrapped (fun e e' t h => ⟨h.1, by simp⟩) (holds_attempt_last (fun b t step => ?_) fun e t step => ?_)
    · obtain rfl := effect_looks (by trivial) step
      refine ⟨here, rfl, fun c same => ?_⟩
      obtain rfl := Except.ok.inj same
      rcases effect_cases (by simp) step with ⟨_, -, bad, -⟩ | ⟨-, done⟩
      · cases bad
      · exact (Except.ok.inj (Prod.mk.inj done).1).symm
    · obtain rfl := effect_looks (by trivial) step
      exact ⟨here, rfl, by simp⟩
  refine holds_bind scan (fun b t h => ?_) fun e t h => ⟨h.1, by simp⟩
  obtain ⟨rfl, there⟩ := h
  obtain rfl := there b rfl
  split_ifs with some_
  · refine holds_bind (readAt_spec _ _ here) (fun r u h => ?_) fun e u h => ⟨h.1, by simp⟩
    obtain ⟨rfl, content⟩ := h
    refine ⟨rfl, fun r' same => ?_⟩
    obtain rfl := Except.ok.inj same
    exact content r rfl
  · refine ⟨rfl, fun r' same => ?_⟩
    obtain rfl := Except.ok.inj same
    rw [State.content, Option.not_isSome_iff_eq_none.mp some_]
    rfl

/-- The removal of the file that has been read. -/
lemma removeRead_spec {prior : Option Bytes} (held : s.content = prior) (identity : Identity) :
    Holds faults (Keeps s prior none) (removeRead label identity) (Left faults s none [.syncReplaced, .syncRemoved]) s := by
  have here : Keeps s prior none s := .inl rfl
  refine holds_bind (requireSnapshot_spec here) (fun _ t h => ?_) fun e t h => ?_
  · obtain ⟨rfl, -⟩ := h
    refine holds_attempt (fun a u step => ?_) fun e u step => ?_
    · rcases effect_cases (by simp) step with ⟨_, -, bad, -⟩ | ⟨-, done⟩
      · cases bad
      · rcases onEntry_cases done with ⟨x, -, -, rfl⟩ | ⟨-, -, _, bad⟩
        · have gone : (t.put .named none).content = none := rfl
          refine ⟨.inr ⟨held, gone⟩, wp_mono (step_spec (.inr ⟨held, gone⟩)) (fun _ _ _ h => h) fun out v h => ?_⟩
          obtain ⟨rfl, failed⟩ := h
          exact ⟨fun _ => gone, fun e err => .inr ⟨gone, .syncRemoved, by simp, failed e err⟩, fun _ => rfl⟩
        · cases bad
    · have same : u = t := by
        rcases effect_cases (by simp) step with ⟨_, -, -, same⟩ | ⟨-, done⟩
        · exact same
        · rcases onEntry_cases done with ⟨x, -, bad, -⟩ | ⟨-, same, -⟩
          · cases bad
          · exact same
      subst same
      exact ⟨here, by simp, fun _ _ => .inl rfl, fun _ => rfl⟩
  · obtain ⟨rfl, -⟩ := h
    exact ⟨by simp, fun _ _ => .inl rfl, fun _ => rfl⟩

lemma Left.mono {target : Option Bytes} {syncs syncs' : List Step} {out : Except Failure Unit} {t : State}
    (h : Left faults s target syncs out t) (more : ∀ x ∈ syncs, x ∈ syncs') : Left faults s target syncs' out t := by
  refine ⟨h.done, fun e err => (h.failed e err).imp_right fun replaced => ?_, h.cleaned⟩
  obtain ⟨content, at_, mem, failed⟩ := replaced
  exact ⟨content, at_, more at_ mem, failed⟩

/-- The replacement of a file whose content is the prior value. -/
lemma guarded_replace {prior : Option Bytes} {syncs : List Step} (held : s.content = prior) {mode uid gid : ℕ}
    (expected : Option Identity) (more : Step.syncReplaced ∈ syncs) : Holds faults (Keeps s prior (some data))
      (atomicReplaceAt data label mode uid gid expected) (Left faults s (some data) syncs) s := by
  refine wp_mono (atomicReplaceAt_spec expected) (fun _ _ t h => h.imp_right fun content => ⟨held, content⟩) ?_
  exact fun out t h => h.mono (by simpa using more)

theorem replaceStateBytes_spec (name : String) (prior target : Option Bytes) :
    Holds faults (Keeps s prior target) (replaceStateBytes name prior target label)
      (Left faults s target [.syncReplaced, .syncRemoved]) s := by
  have here : Keeps s prior target s := .inl rfl
  refine holds_bind (readOptionalState_spec here name) (fun current t h => ?_) fun e t h => ?_
  · obtain ⟨rfl, content⟩ := h
    have content := content current rfl
    split_ifs with already
    · exact ⟨fun _ => content.trans already, fun _ _ => .inl rfl, fun _ => rfl⟩
    refine holds_require (fun _ => ⟨by simp, fun _ _ => .inl rfl, fun _ => rfl⟩) fun matches_ => ?_
    have held := content.trans (of_decide_eq_true matches_)
    cases target with
    | none =>
      cases current with
      | none => exact absurd rfl already
      | some r => exact removeRead_spec held r.2
    | some data => exact guarded_replace held _ (by simp)
  · obtain ⟨rfl, -⟩ := h
    exact ⟨by simp, fun _ _ => .inl rfl, fun _ => rfl⟩

lemma replaceConfig_spec (mode gid : ℕ) (prior target : Bytes) :
    Holds faults (Keeps s (some prior) (some target)) (replaceConfig mode gid prior target)
      (Left faults s (some target) [.syncReplaced]) s := by
  have here : Keeps s (some prior) (some target) s := .inl rfl
  refine holds_bind (readAt_spec mode gid here) (fun current t h => ?_) fun e t h => ?_
  · obtain ⟨rfl, content⟩ := h
    have content := content current rfl
    split_ifs with already
    · exact ⟨fun _ => content.trans (congrArg some already), fun _ _ => .inl rfl, fun _ => rfl⟩
    refine holds_require (fun _ => ⟨by simp, fun _ _ => .inl rfl, fun _ => rfl⟩) fun matches_ => ?_
    exact guarded_replace (content.trans (congrArg some (of_decide_eq_true matches_))) _ (by simp)
  · obtain ⟨rfl, -⟩ := h
    exact ⟨by simp, fun _ _ => .inl rfl, fun _ => rfl⟩

theorem replaceConfigBytes_spec (mode gid : ℕ) (prior target : Bytes) :
    Holds faults (Keeps s (some prior) (some target)) (replaceConfigBytes mode gid prior target)
      (Left faults s (some target) [.syncReplaced, .closeParent]) s := by
  have here : Keeps s (some prior) (some target) s := .inl rfl
  refine holds_look (by trivial) here (fun _ => ⟨by simp, fun _ _ => .inl rfl, fun _ => rfl⟩) fun _ _ => ?_
  have more : ∀ x ∈ [Step.syncReplaced], x ∈ [Step.syncReplaced, .closeParent] := by simp
  have body : Holds faults (Keeps s (some prior) (some target)) (replaceConfig mode gid prior target)
      (fun out t => Left faults s (some target) [.syncReplaced] out t ∧ Keeps s (some prior) (some target) t) s :=
    wp_invariant (fun _ _ _ _ kept => kept) here (replaceConfig_spec mode gid prior target)
  have handled : Holds faults (Keeps s (some prior) (some target))
      ((replaceConfig mode gid prior target).handle fun e => (attempt (.step .closeParent)).bind fun _ => .fail e)
      (fun out t => Left faults s (some target) [.syncReplaced, .closeParent] out t ∧ Keeps s (some prior) (some target) t)
      s := by
    refine holds_handle body (fun _ t h => ⟨h.1.mono more, h.2⟩) fun e t h => ?_
    obtain ⟨left, kept⟩ := h
    have refused (e' : Failure) : Left faults s (some target) [.syncReplaced, .closeParent] (.error e') t :=
      ⟨by simp, fun _ _ => (left.mono more).failed e rfl, fun clean => left.cleaned (.inr (clean.resolve_left (by simp)))⟩
    refine holds_bind (step_spec kept) (fun _ u h => ?_) fun e' u h => ?_
    · obtain ⟨rfl, -⟩ := h
      exact ⟨refused e, kept⟩
    · obtain ⟨rfl, -⟩ := h
      exact ⟨refused e', kept⟩
  refine holds_bind handled (fun _ t h => ?_) fun e t h => h.1
  obtain ⟨left, kept⟩ := h
  refine holds_bind (step_spec kept) (fun _ u h => ?_) fun e u h => ?_
  · obtain ⟨rfl, -⟩ := h
    exact left
  · obtain ⟨rfl, failed⟩ := h
    refine ⟨by simp, fun _ _ => .inr ⟨left.done rfl, .closeParent, by simp, failed e rfl⟩, fun _ => left.cleaned (.inl rfl)⟩

end Replacement

/-! ## Whole calls -/

section Calls
variable {faults : Faults} {s : State} {prior target : Option Bytes} {syncs : List Step}

/-- What holds of a call that ends by itself, and of the state behind each of its operations. -/
structure Guarded (faults : Faults) (s : State) (prior target : Option Bytes) (syncs : List Step) (p : P Unit) : Prop where
  left : Left faults s target syncs (run (effect faults) p s).1 (run (effect faults) p s).2
  never : ∀ n, Keeps s prior target (after (effect faults) n p s)

lemma Guarded.of_holds {p : P Unit} (h : Holds faults (Keeps s prior target) p (Left faults s target syncs) s) :
    Guarded faults s prior target syncs p where
  left := wp_exec h (within_ofHandler.exec p s)
  never n := wp_killed h (.inl rfl) (within_ofHandler.killed n p s)

/-- Both replacements, with any operations that fail: on success the file holds the target; on an error it holds what it
held, or the target where the sync behind the change, or the closing of the configuration directory, has failed; no
temporary entry is left where its clean-up does not fail; and content other than the prior value is never changed. -/
theorem replacement_guarded (faults : Faults) (s : State) :
    (∀ name prior target label, Guarded faults s prior target [.syncReplaced, .syncRemoved]
      (replaceStateBytes name prior target label)) ∧
    ∀ mode gid prior target, Guarded faults s (some prior) (some target) [.syncReplaced, .closeParent]
      (replaceConfigBytes mode gid prior target) :=
  ⟨fun name prior target _ => .of_holds (replaceStateBytes_spec name prior target),
    fun mode gid prior target => .of_holds (replaceConfigBytes_spec mode gid prior target)⟩

end Calls

/-- Only the closing of the configuration directory fails. -/
def closing : Faults where
  error at_ := if at_ = .closeParent then some "Input/output error" else none
  taken _ := .ok 65536

def configured : State := ⟨some ⟨[1], 0, 0, 0o640, true, 0⟩, none, 1, 0⟩

/-- The call fails behind the sync of the directory, and the file holds the target. -/
theorem closing_fails : (run (effect closing) (replaceConfigBytes 0o640 0 [1] [2]) configured).1.toOption = none ∧
    (run (effect closing) (replaceConfigBytes 0o640 0 [1] [2]) configured).2.content = some [2] ∧
      configured.content = some [1] ∧ closing.error .syncReplaced = none ∧ closing.error .syncRemoved = none := by
  decide +kernel

end PlatformConfig.GuardedReplace
