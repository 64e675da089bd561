import PlatformConfig.AlignmentHelper

/-!
# Alignments side by side

Any number of preparations and applications on one host, in any order of their steps and with kills,
while other package tools change what is installed under the lock of the RPM database. From a state
with a staging directory on, at most one transaction is started, and only one that its caller has
approved.
-/
namespace PlatformConfig.MinorAlignment

open CanonicalJson CrashProgram CrashDisk CrashThreads Prog
open CompletionMarker (canonicalJson)
open RecordText (Bytes)

/-! ## The processes -/

inductive Command (t : Tools)
  | prepare (a : PrepareArgs t)
  | apply (a : ApplyArgs)

inductive Outcome
  | prepared (r : Prepared)
  | applied
  deriving DecidableEq

/-- A transaction that DNF was told to perform, with the state in which it was started. -/
structure Transaction where
  pid : ℕ
  rows : List Row
  before : State

variable (t : Tools)

def Command.run (pid : ℕ) : Command t → Run Outcome
  | .prepare a => (commandPrepare t a).bind fun r => .ret (.prepared r)
  | .apply a => (commandApply t pid a).bind fun _ => .ret .applied

/-- What the surroundings change: the overrides, and what is installed while nobody holds the lock. -/
structure Changes (s u : State) : Prop where
  staging : u.staging = s.staging
  lock : u.lock = s.lock
  installed : s.lock.isSome = true → u.installed = s.installed

/-- The end of a process frees its lock. -/
def State.freed (s : State) (pid : ℕ) : State := if s.lock = some pid then { s with lock := none } else s

def processes (k : Conditions) (command : ℕ → Command t) :
    Threads ℕ (Op Write Ask) (Reply State Answer) String Outcome State Transaction where
  body pid := (command pid).run t pid
  semantics := (disk k).semantics
  note pid
    | .ask (.transact rows), _, s => [⟨pid, rows, s⟩]
    | _, _, _ => []
  gone pid s := s.freed pid
  changes := Changes

/-! ## What is promised -/

variable {t : Tools} {k : Conditions} {command : ℕ → Command t} {st : Staging} {pid : ℕ} {a : ApplyArgs}
  {s u : State} {p q : Noted State Transaction}

/-- What `apply` has to find in the staging directory for its arguments. -/
structure Readable (t : Tools) (a : ApplyArgs) (st : Staging) (payloads : List Json) (approved : List Row) :
    Prop where
  manifest : ∃ m, loadManifest t.float t.sha256 a.manifestSha256 (st.entry .manifest) = .ok m ∧
    validateManifestIdentity a.transition m = .ok () ∧
    ((m.get? "installed_state_sha256").bind Json.str?) = some a.installedStateSha256 ∧
    payloads = (payloads? m).getD [] ∧ approved = approvedRows m

/-- The files of the payloads in the staging directory are the recorded ones. -/
def Verified (t : Tools) (st : Staging) (payloads : List Json) : Prop :=
  ∀ x ∈ payloads, ∃ f, verifyPayload t.sha256 (fun f => st.entry (.rpm f)) x = .ok f

/-- Whoever approved the arguments approved this transaction: under the lock and behind a new marker,
on the approved packages, with the rows of the approved manifest and its files in place. -/
structure Approved (t : Tools) (a : ApplyArgs) (st : Staging) (n : Transaction) : Prop where
  locked : n.before.lock = some n.pid
  installed : installedState t n.before.installed = a.installedStateSha256
  readable : ∃ payloads, Readable t a st payloads n.rows ∧ Verified t st payloads
  resolved : ∃ items rows, transactionRows items = .ok rows ∧ n.rows = rows.map Row.local
  started : st.entry .started = none ∧
    ∃ front, front <+: canonicalJson a.started ∧ n.before.entry .started = some (.file front)

/-- What stays of the staging directory `st`. -/
structure Kept (st : Staging) (s : State) : Prop where
  there : s.staging.isSome = true
  manifest : s.entry .manifest = st.entry .manifest
  rpm : ∀ f, s.entry (.rpm f) = st.entry (.rpm f)
  started : (st.entry .started).isSome = true → s.entry .started = st.entry .started

/-- At most one transaction was started, an approved one, and not without the marker. -/
inductive Settled (t : Tools) (command : ℕ → Command t) (st : Staging) : Noted State Transaction → Prop
  | nothing (s : State) : Settled t command st (s, [])
  | one {n : Transaction} {s : State} {a : ApplyArgs} (caller : command n.pid = .apply a)
      (approved : Approved t a st n) (marked : (s.entry .started).isSome = true) : Settled t command st (s, [n])

/-- What a process relies on while it holds the lock. -/
structure Undisturbed (p q : Noted State Transaction) : Prop where
  lock : q.1.lock = p.1.lock
  installed : q.1.installed = p.1.installed
  notes : q.2 = p.2
  started : q.1.entry .started = p.1.entry .started

def promise (t : Tools) (command : ℕ → Command t) (st : Staging) : Promise ℕ State Transaction where
  holds p := Kept st p.1 ∧ Settled t command st p
  rely i p q := p.1.lock = some i → Undisturbed p q
  guarantee j p q := (Kept st q.1 ∧ Settled t command st q) ∧ ∀ i ≠ j, p.1.lock = some i → Undisturbed p q

lemma Undisturbed.refl (p : Noted State Transaction) : Undisturbed p p := ⟨rfl, rfl, rfl, rfl⟩

lemma Undisturbed.trans {r : Noted State Transaction} (h : Undisturbed p q) (h' : Undisturbed q r) :
    Undisturbed p r :=
  ⟨h'.lock.trans h.lock, h'.installed.trans h.installed, h'.notes.trans h.notes, h'.started.trans h.started⟩

/-- A step that changes nothing that is promised. -/
lemma quiet (holds : (promise t command st).holds p) (staging : s.staging = p.1.staging)
    (others : ∀ i ≠ pid, p.1.lock = some i → s.lock = some i ∧ s.installed = p.1.installed) :
    (promise t command st).guarantee pid p (s, p.2) := by
  obtain ⟨kept, settled⟩ := holds
  have entry : ∀ n, s.entry n = p.1.entry n := fun n => by rw [State.entry, staging, State.entry]
  refine ⟨⟨⟨by rw [staging]; exact kept.there, (entry _).trans kept.manifest, fun f => (entry _).trans (kept.rpm f),
    fun there => (entry _).trans (kept.started there)⟩, ?_⟩, fun i other lock => ?_⟩
  · obtain ⟨s', l⟩ := p
    cases settled with
    | nothing => exact .nothing s
    | one caller approved marked => exact .one caller approved (by rw [entry]; exact marked)
  · obtain ⟨same, installed⟩ := others i other lock
    exact ⟨same.trans lock.symm, installed, rfl, entry _⟩

lemma quiet_same (holds : (promise t command st).holds p) : (promise t command st).guarantee pid p p :=
  quiet holds rfl fun _ _ lock => ⟨lock, rfl⟩

lemma quiet_freed (holds : (promise t command st).holds p) :
    (promise t command st).guarantee pid p (p.1.freed pid, p.2) := by
  refine quiet holds ?_ fun i other lock => ?_
  · unfold State.freed
    split_ifs <;> rfl
  · have kept : p.1.freed pid = p.1 := by
      rw [State.freed, lock, if_neg]
      simpa using other
    rw [kept]
    exact ⟨lock, rfl⟩

/-- Who holds the lock only has to keep what holds throughout. -/
lemma guarantee_locked (lock : p.1.lock = some pid) (holds : (promise t command st).holds q) :
    (promise t command st).guarantee pid p q := by
  refine ⟨holds, fun i other held => ?_⟩
  rw [lock] at held
  exact absurd (Option.some.inj held).symm other

lemma holds_freed (holds : (promise t command st).holds p) :
    (promise t command st).holds (p.1.freed pid, p.2) := (quiet_freed holds).1

/-! ## Steps -/

section Steps
variable {β : Type} {Q : Except String β → Noted State Transaction → Prop}

/-- A program among the processes. -/
abbrev Safely (k : Conditions) (command : ℕ → Command t) (st : Staging) (pid : ℕ) (prog : Run β)
    (Q : Except String β → Noted State Transaction → Prop) (p : Noted State Transaction) : Prop :=
  Safe (processes t k command) (promise t command st) pid prog Q p

lemma safely_look {f : State → Run β} (rest : ∀ q, (promise t command st).rely pid p q →
    (promise t command st).holds q → Safely k command st pid (f q.1) Q q) :
    Safely k command st pid (look.bind f) Q p :=
  safe_look (D := disk k) rfl fun q rely holds => ⟨quiet_same holds, rest q rely holds⟩

lemma safely_ask {x : Ask} {f : Answer x → Run β}
    (silent : ∀ y s, (processes t k command).note pid (.ask x) y s = [])
    (rest : ∀ q, (promise t command st).rely pid p q → (promise t command st).holds q → ∀ y,
      Safely k command st pid (f y) Q q) :
    Safely k command st pid ((ask x).bind f) Q p := by
  refine safe_ask (D := disk k) rfl fun q rely holds y _ => ?_
  rw [silent, List.nil_append]
  exact ⟨quiet_same holds, rest q rely holds y⟩

lemma safely_inspect {e : String} {f : Unit → Run β}
    (failed : ∀ q, (promise t command st).rely pid p q → Q (.error e) q)
    (rest : ∀ q, (promise t command st).rely pid p q → (promise t command st).holds q →
      Safely k command st pid (f ()) Q q) :
    Safely k command st pid ((inspect e).bind f) Q p := by
  rw [inspect, bind_assoc]
  exact safely_ask (fun _ _ => rfl) fun q rely holds passed =>
    safe_check (failed q rely) fun _ => rest q rely holds

lemma safely_ofExcept {α : Type} {x : Except String α} {f : α → Run β}
    (failed : ∀ e, x = .error e → Q (.error e) p) (rest : ∀ y, x = .ok y → Safely k command st pid (f y) Q p) :
    Safely k command st pid ((ofExcept x).bind f) Q p := by
  cases x with
  | error e => exact failed e rfl
  | ok y => exact rest y rfl

lemma safely_ofOption {α : Type} {e : String} {x : Option α} {f : α → Run β}
    (failed : Q (.error e) p) (rest : ∀ y, x = some y → Safely k command st pid (f y) Q p) :
    Safely k command st pid ((ofOption e x).bind f) Q p := by
  cases x with
  | none => exact failed
  | some y => exact rest y rfl

/-- A write under the lock, where every outcome keeps what holds throughout. -/
lemma safely_write {w : Write} {e : String} {f : Unit → Run β}
    (lock : p.1.lock = some pid)
    (torn : ∀ q u, (promise t command st).holds q → Undisturbed p q → Torn w q.1 u →
      (promise t command st).holds (u, q.2))
    (failed : ∀ q, (promise t command st).holds q → Undisturbed p q → Q (.error e) q)
    (wrote : ∀ q u, (promise t command st).holds q → Undisturbed p q → w.apply q.1 = some u →
      (promise t command st).holds (u, q.2) ∧ Safely k command st pid (f ()) Q (u, q.2)) :
    Safely k command st pid ((write w e).bind f) Q p := by
  refine safe_write (D := disk k) rfl fun q rely holds => ?_
  have same := rely lock
  have here : q.1.lock = some pid := same.lock.trans lock
  refine ⟨fun u part => ?_, fun u applied => ?_, quiet_same holds, failed q holds same⟩
  · exact guarantee_locked here (holds_freed (p := (u, q.2)) (torn q u holds same part))
  · obtain ⟨kept, rest⟩ := wrote q u holds same applied
    exact ⟨guarantee_locked here kept, rest⟩

end Steps

/-! ## What the programs keep -/

lemma Kept.entries (h : Kept st s) (there : u.staging.isSome = true)
    (same : ∀ n, n ≠ .complete → u.entry n = s.entry n) : Kept st u :=
  ⟨there, (same _ (by simp)).trans h.manifest, fun f => (same _ (by simp)).trans (h.rpm f),
    fun some_ => (same _ (by simp)).trans (h.started some_)⟩

lemma entry_set {n n' : Name} {e : Entry} {st' : Staging} :
    ({ s with staging := some (st'.set n e) } : State).entry n' =
      if n' = n then some e else st'.entry n' := by
  simp only [State.entry, Option.bind_some, Staging.set, Function.update_apply]

/-- A preparation finds the staging directory and stops. -/
lemma safely_prepare {b : PrepareArgs t} :
    Safely k command st pid (commandPrepare t b) (fun _ _ => True) p := by
  unfold commandPrepare
  refine safely_ofExcept (fun _ _ => trivial) fun _ _ => safely_inspect (fun _ _ => trivial) fun q₁ _ _ => ?_
  refine safely_ask (fun _ _ => rfl) fun q₂ _ _ text => safely_ofExcept (fun _ _ => trivial) fun _ _ => ?_
  refine safe_check trivial fun _ => safely_inspect (fun _ _ => trivial) fun q₃ _ _ => ?_
  refine safely_inspect (fun _ _ => trivial) fun q₄ _ _ => ?_
  refine safe_write (D := disk k) rfl fun q₅ _ holds => ⟨fun u part => (by cases part), fun u applied => ?_,
    quiet_same holds, trivial⟩
  simp only [disk, Write.apply, if_pos holds.1.there] at applied
  cases applied

/-- What `apply` reads before it takes the lock is in the staging directory. -/
lemma safely_readManifest : Safely k command st pid (readManifest t a)
    (fun out _ => match out with
      | .ok (payloads, approved) => Readable t a st payloads approved
      | .error _ => True) p := by
  unfold readManifest
  refine safely_inspect (fun _ _ => trivial) fun q₁ _ _ => safely_look fun q₂ _ holds => ?_
  refine safely_ofExcept (fun _ _ => trivial) fun m loaded => safely_ofExcept (fun _ _ => trivial) fun _ identity => ?_
  refine safe_check trivial fun digest => ?_
  rw [holds.1.manifest] at loaded
  exact ⟨m, loaded, identity, of_decide_eq_true digest, rfl, rfl⟩

lemma safely_verifyPayloads {payloads : List Json} (lock : p.1.lock = some pid) :
    Safely k command st pid (verifyPayloads t payloads)
      (fun out q => match out with
        | .ok _ => Undisturbed p q ∧ Verified t st payloads
        | .error _ => True) p := by
  induction payloads generalizing p with
  | nil => exact ⟨.refl p, by simp [Verified]⟩
  | cons x rest ih =>
    refine safely_look fun q rely holds => safely_ofExcept (fun _ _ => trivial) fun filename verified => ?_
    have same := rely lock
    refine Safe.bind (Safe.mono (ih (same.lock.trans lock)) fun out r ended => ?_)
    cases out with
    | error e => exact trivial
    | ok others =>
      obtain ⟨later, others_⟩ := ended
      refine ⟨same.trans later, List.forall_mem_cons.mpr ⟨⟨filename, ?_⟩, others_⟩⟩
      rwa [funext fun f => holds.1.rpm f] at verified

lemma safely_approveTransaction {payloads : List Json} {approved : List Row} (lock : p.1.lock = some pid) :
    Safely k command st pid (approveTransaction t a payloads approved)
      (fun out q => match out with
        | .ok (rows, _) => Undisturbed p q ∧ installedState t q.1.installed = a.installedStateSha256 ∧
            Verified t st payloads ∧ rows = approved ∧
            ∃ items rows', transactionRows items = .ok rows' ∧ rows = rows'.map Row.local
        | .error _ => True) p := by
  unfold approveTransaction
  refine safely_look fun q₁ rely₁ _ => safe_check trivial fun installed => ?_
  have same₁ := rely₁ lock
  have lock₁ := same₁.lock.trans lock
  refine Safe.bind (Safe.mono (safely_verifyPayloads lock₁) fun out q₂ ended => ?_)
  cases out with
  | error e => exact trivial
  | ok filenames =>
    obtain ⟨same₂, verified⟩ := ended
    have lock₂ := same₂.lock.trans lock₁
    refine safely_ask (fun _ _ => rfl) fun q₃ rely₃ _ items => safely_ofOption trivial fun items _ => ?_
    refine safely_ofExcept (fun _ _ => trivial) fun rows resolved => safe_check trivial fun matches_ => ?_
    have same₃ := rely₃ lock₂
    have lock₃ := same₃.lock.trans lock₂
    refine safely_inspect (fun _ _ => trivial) fun q₄ rely₄ _ => ?_
    have same₄ := rely₄ lock₃
    refine safely_look fun q₅ rely₅ _ => safely_ofExcept (fun _ _ => trivial) fun releasever _ => ?_
    have same₅ := rely₅ (same₄.lock.trans lock₃)
    have later := same₂.trans (same₃.trans (same₄.trans same₅))
    refine ⟨same₁.trans later, ?_, verified, of_decide_eq_true matches_, items, rows, resolved, rfl⟩
    rw [later.installed]
    exact of_decide_eq_true installed

/-! ## Markers and the transaction -/

lemma create_eq {n : Name} (created : (Write.create n).apply s = some u) :
    s.entry n = none ∧ u.installed = s.installed ∧ u.lock = s.lock ∧ u.staging.isSome = true ∧
      ∀ n', u.entry n' = if n' = n then some (.file []) else s.entry n' := by
  simp only [Write.apply] at created
  cases there : s.staging with
  | none => simp [there] at created
  | some st' =>
    simp only [there] at created
    split_ifs at created with free
    cases created
    simp only [Bool.and_eq_true, Option.isNone_iff_eq_none] at free
    refine ⟨by simp [State.entry, there, free.2], rfl, rfl, rfl, fun n' => ?_⟩
    rw [entry_set]
    simp [State.entry, there]

lemma fill_eq {n : Name} {d : Bytes} {e : Entry} (there : s.entry n = some e)
    (filled : (Write.fill n d).apply s = some u) :
    u.installed = s.installed ∧ u.lock = s.lock ∧ u.staging.isSome = true ∧
      ∀ n', u.entry n' = if n' = n then some (.file d) else s.entry n' := by
  simp only [Write.apply, Option.some.injEq] at filled
  cases at_ : s.staging with
  | none => simp [State.entry, at_] at there
  | some st' =>
    have here : st'.entry n = some e := by simpa [State.entry, at_] using there
    rw [at_, Option.map_some, Staging.fill, here, Option.isSome_some, if_pos rfl] at filled
    cases filled
    refine ⟨rfl, rfl, rfl, fun n' => ?_⟩
    rw [entry_set]
    simp [State.entry, at_]

lemma Settled.unmarked (h : Settled t command st p) (free : p.1.entry .started = none) : p.2 = [] := by
  cases h with
  | nothing => rfl
  | one _ _ marked =>
    rw [free] at marked
    cases marked

/-- A change of the host that keeps the marker. -/
lemma Settled.change (h : Settled t command st p)
    (marked : (p.1.entry .started).isSome = true → (u.entry .started).isSome = true) :
    Settled t command st (u, p.2) := by
  cases h with
  | nothing => exact .nothing u
  | one caller approved there => exact .one caller approved (marked there)

/-- A new marker is the only one, so nothing was started before it. -/
lemma safely_mark {payload : Bytes} (lock : p.1.lock = some pid) :
    Safely k command st pid (writeExclusive .started payload)
      (fun out q => match out with
        | .ok _ => q.1.lock = some pid ∧ q.1.installed = p.1.installed ∧ q.2 = [] ∧ st.entry .started = none ∧
            ∃ front, front <+: payload ∧ q.1.entry .started = some (.file front)
        | .error _ => True) p := by
  refine safely_write lock (fun q u _ _ part => by cases part) (fun _ _ _ => trivial) fun q u holds same created => ?_
  obtain ⟨free, installed, lock_, there, entry⟩ := create_eq created
  have unstarted : st.entry .started = none := by
    by_contra some_
    have old := holds.1.started (Option.isSome_iff_ne_none.mpr some_)
    rw [free] at old
    exact some_ old.symm
  have none_ := holds.2.unmarked free
  have marked : u.entry .started = some (.file []) := by simp [entry]
  have lockᵤ : u.lock = some pid := lock_.trans (same.lock.trans lock)
  have keptᵤ : (promise t command st).holds (u, q.2) := by
    refine ⟨⟨there, by simp [entry, holds.1.manifest], fun f => by simp [entry, holds.1.rpm], fun some_ => ?_⟩, ?_⟩
    · rw [unstarted] at some_
      cases some_
    · rw [none_]
      exact .nothing u
  -- Both the whole and a part of the record go into the file that has just been created.
  have fills : ∀ {q' : Noted State Transaction} {v : State} {d : Bytes}, (promise t command st).holds q' →
      Undisturbed (u, q.2) q' → (Write.fill .started d).apply q'.1 = some v →
      (promise t command st).holds (v, q'.2) ∧ v.entry .started = some (.file d) ∧ v.lock = some pid ∧
        v.installed = p.1.installed := by
    intro q' v d holds' same' filled
    obtain ⟨installed', lock', there', entry'⟩ := fill_eq (same'.started.trans marked) filled
    have marked' : v.entry .started = some (.file d) := by simp [entry']
    refine ⟨⟨⟨there', by simp [entry', holds'.1.manifest], fun f => by simp [entry', holds'.1.rpm], fun some_ => ?_⟩,
      holds'.2.change fun _ => by simp [marked']⟩, marked', lock'.trans (same'.lock.trans lockᵤ),
      installed'.trans (same'.installed.trans (installed.trans same.installed))⟩
    rw [unstarted] at some_
    cases some_
  refine ⟨keptᵤ, safely_ask (fun _ _ => rfl) fun q₁ rely₁ _ taken => ?_⟩
  have same₁ : Undisturbed (u, q.2) q₁ := rely₁ lockᵤ
  refine safely_write (same₁.lock.trans lockᵤ) (fun q₂ v holds₂ same₂ part => ?_) (fun _ _ _ => trivial)
    fun q₂ v holds₂ same₂ filled => ?_
  · cases part with
    | fill front applied => exact (fills holds₂ (same₁.trans same₂) applied).1
  · obtain ⟨kept, marked₂, lock₂, installed₂⟩ := fills holds₂ (same₁.trans same₂) filled
    refine ⟨kept, ?_⟩
    have end_ : Safely k command st pid (inspect osError) (fun out r => match out with
        | .ok _ => Undisturbed (v, q₂.2) r
        | .error _ => True) (v, q₂.2) := by
      refine safely_ask (fun _ _ => rfl) fun r rely _ passed => ?_
      cases passed with
      | true => exact rely lock₂
      | false => exact trivial
    refine end_.mono fun out r ended => ?_
    cases out with
    | error e => exact trivial
    | ok _ =>
      refine ⟨ended.lock.trans lock₂, ended.installed.trans installed₂, ?_, unstarted, _, List.take_prefix _ _,
        ended.started.trans marked₂⟩
      exact ended.notes.trans ((same₁.trans same₂).notes.trans none_)

/-- A write under the lock that leaves the manifest, the packages and the marker as they are. -/
lemma holds_aside (holds : (promise t command st).holds p) (there : u.staging.isSome = true)
    (same : ∀ n, n ≠ .complete → u.entry n = p.1.entry n) : (promise t command st).holds (u, p.2) :=
  ⟨holds.1.entries there same, holds.2.change fun marked => by rwa [same _ (by simp)]⟩

/-- The record of the completed transaction and the release of the lock. -/
lemma safely_finish {payload : Bytes} (lock : p.1.lock = some pid) :
    Safely k command st pid ((writeExclusive .complete payload).bind fun _ => write (.release pid) osError)
      (fun _ _ => True) p := by
  have aside : ∀ {q' : Noted State Transaction} {v : State} {d : Bytes}, (promise t command st).holds q' →
      (Write.fill .complete d).apply q'.1 = some v → (promise t command st).holds (v, q'.2) ∧ v.lock = q'.1.lock := by
    intro q' v d holds filled
    simp only [Write.apply, Option.some.injEq] at filled
    obtain ⟨st', at_⟩ := Option.isSome_iff_exists.mp holds.1.there
    have entry : ∀ n, n ≠ .complete → (st'.fill .complete d).entry n = st'.entry n := by
      intro n other
      unfold Staging.fill
      split_ifs
      · exact Function.update_of_ne other _ _
      · rfl
    rw [at_, Option.map_some] at filled
    cases filled
    refine ⟨holds_aside holds rfl fun n other => ?_, rfl⟩
    simpa [State.entry, at_] using entry n other
  rw [writeExclusive, bind_eq, Prog.bind_assoc]
  refine safely_write lock (fun q u _ _ part => by cases part) (fun _ _ _ => trivial) fun q u holds same created => ?_
  obtain ⟨-, -, lock_, there, entry⟩ := create_eq created
  have lockᵤ : u.lock = some pid := lock_.trans (same.lock.trans lock)
  refine ⟨holds_aside holds there fun n other => by rw [entry, if_neg other], ?_⟩
  rw [bind_eq, Prog.bind_assoc]
  refine safely_ask (fun _ _ => rfl) fun q₁ rely₁ _ taken => ?_
  have lock₁ : q₁.1.lock = some pid := (rely₁ lockᵤ).lock.trans lockᵤ
  rw [bind_eq, Prog.bind_assoc]
  refine safely_write lock₁ (fun q₂ v holds₂ _ part => ?_) (fun _ _ _ => trivial) fun q₂ v holds₂ same₂ filled => ?_
  · cases part with
    | fill front applied => exact (aside holds₂ applied).1
  · obtain ⟨kept, lock₂⟩ := aside holds₂ filled
    have lockᵥ : v.lock = some pid := lock₂.trans (same₂.lock.trans lock₁)
    refine ⟨kept, safely_inspect (fun _ _ => trivial) fun q₃ rely₃ _ => ?_⟩
    have lock₃ : q₃.1.lock = some pid := (rely₃ lockᵥ).lock.trans lockᵥ
    rw [← bind_ret_right (write (Write.release pid) osError)]
    refine safely_write lock₃ (fun q₄ w _ _ part => by cases part) (fun _ _ _ => trivial)
      fun q₄ w holds₄ _ released => ⟨?_, trivial⟩
    simp only [Write.apply] at released
    split_ifs at released
    cases released
    exact holds_aside holds₄ holds₄.1.there fun n _ => rfl

/-- What is done once the transaction has been started. -/
lemma safely_transacted {outcome : List String × Bool} (lock : p.1.lock = some pid) :
    Safely k command st pid ((write (Write.install outcome.1) osError : Run Unit).bind fun _ =>
      (require outcome.2 "DNF transaction failed").bind fun _ =>
        (writeExclusive .complete (canonicalJson a.complete)).bind fun _ =>
          write (Write.release pid) osError) (fun _ _ => True) p := by
  refine safely_write lock (fun q u holds same part => ?_) (fun _ _ _ => trivial) fun q u holds same installed => ?_
  · cases part with
    | install applied =>
      cases applied
      exact holds_aside holds holds.1.there fun n _ => rfl
  cases installed
  refine ⟨holds_aside holds holds.1.there fun n _ => rfl, safe_check trivial fun _ => ?_⟩
  exact safely_finish (same.lock.trans lock)

/-- The release override is removed, or there is none. -/
lemma safely_unlink {releasever : Bool} (lock : p.1.lock = some pid) :
    Safely k command st pid (removeOverride releasever)
      (fun out q => match out with
        | .ok _ => Undisturbed p q
        | .error _ => True) p := by
  cases releasever with
  | false => exact .refl p
  | true =>
    rw [removeOverride, if_pos rfl, ← bind_ret_right (write Write.unlinkReleasever osError)]
    refine safely_write lock (fun q u _ _ part => by cases part) (fun _ _ _ => trivial) fun q u holds same unlinked => ?_
    simp only [Write.apply] at unlinked
    split_ifs at unlinked
    cases unlinked
    exact ⟨holds_aside holds holds.1.there fun n _ => rfl, same.trans ⟨rfl, rfl, rfl, rfl⟩⟩

/-- An application starts an approved transaction or none. -/
lemma safely_apply (caller : command pid = .apply a) :
    Safely k command st pid (commandApply t pid a) (fun _ _ => True) p := by
  unfold commandApply
  refine safely_ask (fun _ _ => rfl) fun q₁ _ _ text => safely_ofExcept (fun _ _ => trivial) fun _ _ => ?_
  refine safe_check trivial fun _ => safely_inspect (fun _ _ => trivial) fun q₂ _ _ => ?_
  refine Safe.bind (Safe.mono safely_readManifest fun out q₃ read => ?_)
  rcases out with e | ⟨payloads, approved⟩
  · exact trivial
  refine safe_write (D := disk k) rfl fun q₄ _ holds => ⟨fun u part => (by cases part), fun u acquired => ?_,
    quiet_same holds, trivial⟩
  obtain ⟨free, rfl⟩ : q₄.1.lock = none ∧ u = { q₄.1 with lock := some pid } := by
    simp only [disk, Write.apply] at acquired
    split_ifs at acquired with held
    cases acquired
    exact ⟨by simpa using held, rfl⟩
  refine ⟨quiet holds rfl fun i _ lock => absurd lock (by rw [free]; simp), ?_⟩
  have approves : Safely k command st pid (approveTransaction t a payloads approved) _
      ({ q₄.1 with lock := some pid }, q₄.2) := safely_approveTransaction rfl
  refine Safe.bind (Safe.mono approves fun out q₅ ended => ?_)
  rcases out with e | ⟨rows, releasever⟩
  · exact trivial
  obtain ⟨same, installed, verified, rfl, resolved⟩ := ended
  have lock₅ : q₅.1.lock = some pid := same.lock
  refine Safe.bind (Safe.mono (safely_mark lock₅) fun out q₆ marked => ?_)
  cases out with
  | error e => exact trivial
  | ok _ =>
    obtain ⟨lock₆, installed₆, notes₆, unstarted, front, part, there⟩ := marked
    refine Safe.bind (Safe.mono (safely_unlink lock₆) fun out q₇ unlinked => ?_)
    cases out with
    | error e => exact trivial
    | ok _ =>
      refine safe_ask (D := disk k) rfl fun q₈ rely holds outcome _ => ?_
      have same₈ : Undisturbed q₆ q₈ := unlinked.trans (rely (unlinked.lock.trans lock₆))
      have lock₈ : q₈.1.lock = some pid := same₈.lock.trans lock₆
      have started₈ : q₈.1.entry .started = some (.file front) := same₈.started.trans there
      have approved : Approved t a st ⟨pid, rows, q₈.1⟩ := by
        refine ⟨lock₈, ?_, ⟨payloads, read, verified⟩, resolved, unstarted, front, part, started₈⟩
        rw [same₈.installed, installed₆]
        exact installed
      have holds₈ : (promise t command st).holds (q₈.1, [⟨pid, rows, q₈.1⟩]) :=
        ⟨holds.1, .one caller approved (by rw [started₈]; rfl)⟩
      have notes₈ : q₈.2 = [] := same₈.notes.trans notes₆
      rw [notes₈]
      exact ⟨guarantee_locked lock₈ holds₈, safely_transacted lock₈⟩

/-- The processes keep what is promised of them. -/
lemma processes_kept : CrashThreads.Kept (processes t k command) (promise t command st) where
  refl i p _ := .refl p
  trans h h' lock := (h lock).trans (h' ((h lock).lock.trans lock))
  others other _ kept lock := kept.2 _ other.symm lock
  changes {s u l} changes holds := by
    have entry : ∀ n, u.entry n = s.entry n := fun n => by rw [State.entry, changes.staging, State.entry]
    refine ⟨holds_aside (p := (s, l)) holds (by rw [changes.staging]; exact holds.1.there) fun n _ => entry n,
      fun i lock => ⟨changes.lock, changes.installed ?_, rfl, entry _⟩⟩
    have held : s.lock = some i := lock
    rw [held]
    rfl
  keeps _ kept := kept.1
  gone holds := quiet_freed holds
  start {i p} holds := by
    change Safely k command st i ((command i).run t i) (fun _ _ => True) p
    cases caller : command i with
    | prepare b => exact Safe.bind (Safe.mono safely_prepare fun out q _ => by cases out <;> trivial)
    | apply a => exact Safe.bind (Safe.mono (safely_apply caller) fun out q _ => by cases out <;> trivial)

/-- The processes come to states that keep what is promised only. -/
lemma settled_steps {c : Config ℕ (Op Write Ask) (Reply State Answer) String Outcome State Transaction}
    (there : s.staging = some st) (steps : Steps (processes t k command) (Config.idle s) c) :
    Kept st c.here.1 ∧ Settled t command st c.here := by
  have entry : ∀ n, s.entry n = st.entry n := fun n => by rw [State.entry, there, Option.bind_some]
  have start : (promise t command st).holds (s, []) :=
    ⟨⟨by rw [there]; rfl, entry _, fun f => entry _, fun _ => entry _⟩, .nothing s⟩
  exact ((Sound.idle start).steps processes_kept steps).holds

lemma Settled.notes (h : Settled t command st p) :
    p.2.length ≤ 1 ∧ ∀ n ∈ p.2, ∃ a, command n.pid = .apply a ∧ Approved t a st n := by
  cases h with
  | nothing => simp
  | one caller approved marked =>
    refine ⟨by simp, fun n mem => ?_⟩
    rw [List.mem_singleton.mp mem]
    exact ⟨_, caller, approved⟩

/-- From a state with a staging directory on, in any order of the steps of any preparations and
applications, each of them ended by itself or by a kill, the manifest and the packages of the directory
stay as they are, at most one transaction is started, none where the marker was there before, and
the one that is started was approved by its caller. -/
theorem transaction_approved_once {c : Config ℕ (Op Write Ask) (Reply State Answer) String Outcome State Transaction}
    (there : s.staging = some st) (steps : Steps (processes t k command) (Config.idle s) c) :
    Kept st c.here.1 ∧ c.here.2.length ≤ 1 ∧ ((st.entry .started).isSome = true → c.here.2 = []) ∧
      ∀ n ∈ c.here.2, ∃ a, command n.pid = .apply a ∧ Approved t a st n := by
  obtain ⟨kept, settled⟩ := settled_steps there steps
  obtain ⟨atMost, each⟩ := settled.notes
  refine ⟨kept, atMost, fun old => ?_, each⟩
  by_contra some_
  obtain ⟨n, mem⟩ := List.exists_mem_of_ne_nil _ some_
  obtain ⟨a, -, approved⟩ := each n mem
  rw [approved.started.1] at old
  cases old

/-! ### The sample host -/

/-- Every process applies what has been prepared. -/
def sampleCommand : ℕ → Command sampleTools := fun _ => .apply (samplePrepared.args sampleTransition)

lemma sample_steps : ∃ c, Steps (processes sampleTools sampleAnswers.conditions sampleCommand) (Config.idle prepared) c ∧
    c.here.2.length = 1 := by
  let started : Config ℕ (Op Write Ask) (Reply State Answer) String Outcome State Transaction :=
    ⟨(prepared, []), Function.update (fun _ => none) 1 (some ((sampleCommand 1).run sampleTools 1))⟩
  have at_ : started.rest 1 = some ((sampleCommand 1).run sampleTools 1) := rfl
  obtain ⟨c, steps, here⟩ :=
    steps_run (T := processes sampleTools sampleAnswers.conditions sampleCommand) sample_within at_
  refine ⟨c, .head (.start rfl) steps, ?_⟩
  rw [here]
  decide +kernel

theorem transaction_approved_once_sample : ∃ st c, prepared.staging = some st ∧
    Steps (processes sampleTools sampleAnswers.conditions sampleCommand) (Config.idle prepared) c ∧
    c.here.2.length = 1 ∧ ∀ n ∈ c.here.2, ∃ a, sampleCommand n.pid = .apply a ∧ Approved sampleTools a st n := by
  have staged : prepared.staging.isSome = true := by decide +kernel
  obtain ⟨st, there⟩ := Option.isSome_iff_exists.mp staged
  obtain ⟨c, steps, one⟩ := sample_steps
  exact ⟨st, c, there, steps, one, (transaction_approved_once there steps).2.2.2⟩

end PlatformConfig.MinorAlignment
