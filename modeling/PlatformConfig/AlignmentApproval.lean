import PlatformConfig.AlignmentProcesses

/-!
# From the preparation to the transaction

What a preparation leaves, ended by itself or killed, and what can become of it: the only transaction
that can follow is the prepared one.
-/
namespace PlatformConfig.MinorAlignment

open CanonicalJson CrashProgram CrashDisk CrashThreads Prog
open CompletionMarker (canonicalJson)
open RecordText (Bytes)

variable {t : Tools} {k : Conditions} {s s₀ u v : State} {pid : ℕ} {a : ApplyArgs} {b : PrepareArgs t}
  {β : Type} {I : State → Prop} {Q : Except String β → State → Prop}

/-! ## Steps of a process alone -/

lemma holds_inspect {e : String} {f : Unit → Run β} (here : I s) (failed : k.faults → Q (.error e) s)
    (rest : Holds (disk k) I (f ()) Q s) : Holds (disk k) I ((inspect e).bind f) Q s := by
  rw [inspect, Prog.bind_assoc]
  refine holds_ask here fun passed answer => holds_check (fun refused => ?_) fun _ => rest
  refine failed (answer.resolve_left ?_)
  rw [refused]
  simp

lemma holds_ofExcept {α : Type} {x : Except String α} {f : α → Run β}
    (failed : ∀ e, x = .error e → Q (.error e) s) (rest : ∀ y, x = .ok y → Holds (disk k) I (f y) Q s) :
    Holds (disk k) I ((ofExcept x).bind f) Q s := by
  cases x with
  | error e => exact failed e rfl
  | ok y => exact rest y rfl

lemma holds_ofOption {α : Type} {e : String} {x : Option α} {f : α → Run β}
    (failed : x = none → Q (.error e) s) (rest : ∀ y, x = some y → Holds (disk k) I (f y) Q s) :
    Holds (disk k) I ((ofOption e x).bind f) Q s := by
  cases x with
  | none => exact failed rfl
  | some y => exact rest y rfl

/-! ## What a preparation leaves -/

/-- The manifest of a preparation that found `s`. -/
structure Drawn (t : Tools) (b : PrepareArgs t) (s : State) (m : Manifest) : Prop where
  policy : decodePolicy b.policy = .ok ()
  installed : m.installedStateSha256 = installedState t s.installed
  repositories : m.repositories = b.policy
  resolved : ∃ items, transactionRows items = .ok m.transaction
  target : requireTargetRelease m.transaction b.transition.target = .ok ()

/-- The manifest is not there, or it is the beginning of a drawn one. -/
def Begun (t : Tools) (b : PrepareArgs t) (s u : State) : Prop :=
  u.entry .manifest = none ∨ ∃ m front, Drawn t b s m ∧ front <+: canonicalJson (m.json b.transition) ∧
    u.entry .manifest = some (.file front)

/-- What a preparation from `s` on leaves wherever it ends. -/
structure Drafted (t : Tools) (b : PrepareArgs t) (s u : State) : Prop where
  installed : u.installed = s.installed
  unstarted : u.entry .started = none
  incomplete : u.entry .complete = none
  manifest : Begun t b s u

/-- A staging directory that is being filled. -/
structure Open (s u : State) : Prop where
  installed : u.installed = s.installed
  there : u.staging.isSome = true
  manifest : u.entry .manifest = none
  started : u.entry .started = none
  complete : u.entry .complete = none

lemma Open.drafted (h : Open s u) : Drafted t b s u := ⟨h.installed, h.started, h.complete, .inl h.manifest⟩

/-- The file of a payload is in place. -/
def Filed (t : Tools) (u : State) (x : Payload) : Prop :=
  isRpmName x.filename.toList = true ∧
    ∃ d, u.entry (.rpm x.filename) = some (.file d) ∧ d.length = x.size ∧ t.sha256 d = x.sha256

/-- Entries that are there stay as they are. -/
def Extends (s u : State) : Prop := ∀ n, (s.entry n).isSome = true → u.entry n = s.entry n

lemma Extends.trans (h : Extends s u) (h' : Extends u v) : Extends s v := fun n there =>
  (h' n (by rwa [h n there])).trans (h n there)

lemma Filed.extends {x : Payload} (h : Filed t s x) (longer : Extends s u) : Filed t u x := by
  obtain ⟨named, d, there, rest⟩ := h
  exact ⟨named, d, (longer _ (by rw [there]; rfl)).trans there, rest⟩

/-- What is written under the name of a package leaves the directory open. -/
lemma Open.written {f : String} {e : Option Entry} (h : Open s₀ s) (installed : u.installed = s.installed)
    (there : u.staging.isSome = true) (entry : ∀ n, u.entry n = if n = .rpm f then e else s.entry n) :
    Open s₀ u := by
  refine ⟨installed.trans h.installed, there, ?_, ?_, ?_⟩
  · rw [entry, if_neg (by simp), h.manifest]
  · rw [entry, if_neg (by simp), h.started]
  · rw [entry, if_neg (by simp), h.complete]

lemma holds_payloadRecords {packages : List Package} (h : Open s₀ s) :
    Holds (disk k) (Drafted t b s₀) (payloadRecords t packages)
      (fun out u => match out with
        | .ok payloads => Open s₀ u ∧ Extends s u ∧ ∀ x ∈ payloads, Filed t u x
        | .error _ => Drafted t b s₀ u) s := by
  induction packages generalizing s with
  | nil => exact ⟨h, fun _ _ => rfl, by simp⟩
  | cons x rest ih =>
    unfold payloadRecords
    refine holds_check (fun _ => h.drafted) fun _ => holds_check (fun _ => h.drafted) fun named => ?_
    refine holds_write (fun u part => by cases part) (fun _ => ⟨h.drafted, h.drafted⟩) fun s₁ created => ?_
    obtain ⟨free, installed₁, -, there₁, entry₁⟩ := create_eq created
    have open₁ : Open s₀ s₁ := h.written installed₁ there₁ entry₁
    have empty : s₁.entry (.rpm x.filename) = some (.file []) := by simp [entry₁]
    have fills : ∀ {u : State} {d : Bytes}, (Write.fill (.rpm x.filename) d).apply s₁ = some u →
        Open s₀ u ∧ u.entry (.rpm x.filename) = some (.file d) ∧ Extends s u := by
      intro u d filled
      obtain ⟨installed, -, there, entry⟩ := fill_eq empty filled
      refine ⟨open₁.written installed there entry, by simp [entry], fun n some_ => ?_⟩
      have other : n ≠ .rpm x.filename := fun same => by
        rw [same, free] at some_
        cases some_
      rw [entry, if_neg other, entry₁, if_neg other]
    refine ⟨open₁.drafted, holds_write (fun u part => ?_) (fun _ => ⟨open₁.drafted, open₁.drafted⟩) fun s₂ filled => ?_⟩
    · cases part with
      | fill front applied => exact (fills applied).1.drafted
    obtain ⟨open₂, there₂, longer₂⟩ := fills filled
    refine ⟨open₂.drafted, holds_inspect open₂.drafted (fun _ => open₂.drafted) (holds_look open₂.drafted ?_)⟩
    rw [there₂]
    refine wp_seq (P := fun payloads u => Open s₀ u ∧ Extends s₂ u ∧ ∀ x ∈ payloads, Filed t u x)
      (wp_mono (ih open₂) (fun _ _ _ g => g) fun out u ended => by cases out <;> exact ended) fun payloads u ended => ?_
    obtain ⟨open_, longer, filed⟩ := ended
    refine ⟨open_, longer₂.trans longer, List.forall_mem_cons.mpr ⟨?_, filed⟩⟩
    have here : Filed t s₂ ⟨x.filename, x.nevra, t.sha256 x.content, x.content.length⟩ :=
      ⟨named, x.content, there₂, rfl, rfl⟩
    exact here.extends longer

/-- What a preparation leaves that reports `r`. -/
structure Finished (t : Tools) (k : Conditions) (b : PrepareArgs t) (s : State) (r : Prepared) (u : State) : Prop where
  installed : u.installed = s.installed
  unstarted : u.entry .started = none
  incomplete : u.entry .complete = none
  manifest : ∃ m front, Drawn t b s m ∧ front <+: canonicalJson (m.json b.transition) ∧
    u.entry .manifest = some (.file front) ∧ (¬k.short → front = canonicalJson (m.json b.transition)) ∧
    (∀ x ∈ m.payloads, Filed t u x) ∧ r.installedStateSha256 = m.installedStateSha256 ∧
    r.manifestSha256 = t.sha256 (canonicalJson (m.json b.transition)) ∧ r.payloadCount = m.payloads.length ∧
    r.transaction = m.transaction

/-- The manifest is written into the directory when all packages are in it. -/
lemma holds_writeManifest {m : Manifest} (h : Open s₀ s) (drawn : Drawn t b s₀ m) :
    Holds (disk k) (Drafted t b s₀) (writeExclusive .manifest (canonicalJson (m.json b.transition)))
      (fun out u => Drafted t b s₀ u ∧ ∀ y, out = .ok y → Extends s u ∧
        ∃ front, front <+: canonicalJson (m.json b.transition) ∧ u.entry .manifest = some (.file front) ∧
          (¬k.short → front = canonicalJson (m.json b.transition))) s := by
  unfold writeExclusive
  refine holds_write (fun u part => by cases part) (fun _ => ⟨h.drafted, h.drafted, fun _ ok => by cases ok⟩)
    fun s₁ created => ?_
  obtain ⟨-, installed₁, -, there₁, entry₁⟩ := create_eq created
  have empty : s₁.entry .manifest = some (.file []) := by simp [entry₁]
  have fills : ∀ {u : State} {d : Bytes}, d <+: canonicalJson (m.json b.transition) →
      (Write.fill .manifest d).apply s₁ = some u → Drafted t b s₀ u ∧ u.entry .manifest = some (.file d) ∧ Extends s u := by
    intro u d front filled
    obtain ⟨installed, -, there, entry⟩ := fill_eq empty filled
    have here : u.entry .manifest = some (.file d) := by simp [entry]
    refine ⟨⟨installed.trans (installed₁.trans h.installed), ?_, ?_, .inr ⟨m, d, drawn, front, here⟩⟩, here,
      fun n some_ => ?_⟩
    · rw [entry, if_neg (by simp), entry₁, if_neg (by simp), h.started]
    · rw [entry, if_neg (by simp), entry₁, if_neg (by simp), h.complete]
    · have other : n ≠ .manifest := fun same => by
        rw [same, h.manifest] at some_
        cases some_
      rw [entry, if_neg other, entry₁, if_neg other]
  have drafted₁ : Drafted t b s₀ s₁ := by
    refine ⟨installed₁.trans h.installed, ?_, ?_, .inr ⟨m, [], drawn, List.nil_prefix, empty⟩⟩
    · rw [entry₁, if_neg (by simp), h.started]
    · rw [entry₁, if_neg (by simp), h.complete]
  refine ⟨drafted₁, holds_ask drafted₁ fun taken answer => ?_⟩
  refine holds_write (fun u part => ?_) (fun _ => ⟨drafted₁, drafted₁, fun _ ok => by cases ok⟩) fun s₂ filled => ?_
  · cases part with
    | fill front applied => exact (fills (front.trans (List.take_prefix _ _)) applied).1
  obtain ⟨drafted₂, there₂, longer⟩ := fills (List.take_prefix _ _) filled
  refine ⟨drafted₂, wp_tail (holds_inspect drafted₂ (fun _ => ⟨drafted₂, fun _ ok => by cases ok⟩)
    ⟨drafted₂, fun _ _ => ⟨longer, _, List.take_prefix _ _, there₂, fun whole => ?_⟩⟩)⟩
  rw [answer.resolve_right fun part => whole part.1, List.take_length]

lemma holds_stageTransaction (policy : decodePolicy b.policy = .ok ()) (h : Open s₀ s) : Holds (disk k) (Drafted t b s₀) (stageTransaction t b)
    (fun out u => match out with
      | .ok r => Finished t k b s₀ r u
      | .error _ => Drafted t b s₀ u) s := by
  unfold stageTransaction
  refine holds_ask h.drafted fun items _ => holds_ofOption (fun _ => h.drafted) fun items _ => ?_
  refine holds_ofExcept (fun _ _ => h.drafted) fun rows resolved => ?_
  refine holds_ofExcept (fun _ _ => h.drafted) fun _ target => ?_
  refine holds_ask h.drafted fun capacity _ => holds_ofOption (fun _ => h.drafted) fun expected _ => ?_
  refine holds_ask h.drafted fun packages _ => holds_ofOption (fun _ => h.drafted) fun packages _ => ?_
  refine wp_seq (P := fun payloads u => Open s₀ u ∧ Extends s u ∧ ∀ x ∈ payloads, Filed t u x)
    (wp_mono (holds_payloadRecords h) (fun _ _ _ g => g) fun out u ended => by cases out <;> exact ended) ?_
  rintro payloads s₁ ⟨open₁, -, filed⟩
  refine holds_check (fun _ => open₁.drafted) fun _ => holds_look open₁.drafted ?_
  refine holds_inspect open₁.drafted (fun _ => open₁.drafted) ?_
  have drawn : Drawn t b s₀ ⟨(payloads.map Payload.size).sum, (packages.map Package.installSize).sum,
      installedState t s₁.installed, payloads, b.policy, rows⟩ :=
    ⟨policy, by rw [open₁.installed], rfl, ⟨items, resolved⟩, target⟩
  refine wp_seq (P := fun _ u => Drafted t b s₀ u ∧ Extends s₁ u ∧ ∃ front,
      front <+: canonicalJson (Manifest.json b.transition ⟨(payloads.map Payload.size).sum,
        (packages.map Package.installSize).sum, installedState t s₁.installed, payloads, b.policy, rows⟩) ∧
      u.entry .manifest = some (.file front) ∧ (¬k.short → front = canonicalJson (Manifest.json b.transition
        ⟨(payloads.map Payload.size).sum, (packages.map Package.installSize).sum, installedState t s₁.installed,
          payloads, b.policy, rows⟩)))
    (wp_mono (holds_writeManifest open₁ drawn) (fun _ _ _ g => g) fun out u ended => ?_) ?_
  · cases out with
    | error e => exact ended.1
    | ok y => exact ⟨ended.1, ended.2 y rfl⟩
  · rintro _ u ⟨drafted, longer, front, part, there, whole⟩
    exact ⟨drafted.installed, drafted.unstarted, drafted.incomplete, _, front, drawn, part, there, whole,
      fun x mem => (filed x mem).extends longer, rfl, rfl, rfl, rfl⟩

/-- A preparation leaves the beginning of its manifest, or it has found no place for its directory. -/
lemma holds_commandPrepare (absent : s.staging = none) : Holds (disk k) (Drafted t b s) (commandPrepare t b)
    (fun out u => match out with
      | .ok r => Finished t k b s r u
      | .error _ => Drafted t b s u) s := by
  have none_ : ∀ n, s.entry n = none := fun n => by rw [State.entry, absent, Option.bind_none]
  have start : Drafted t b s s := ⟨rfl, none_ _, none_ _, .inl (none_ _)⟩
  unfold commandPrepare
  refine holds_ofExcept (fun _ _ => start) fun _ policy => holds_inspect start (fun _ => start) ?_
  refine holds_ask start fun text _ => holds_ofExcept (fun _ _ => start) fun release _ => ?_
  refine holds_check (fun _ => start) fun _ => holds_inspect start (fun _ => start) ?_
  refine holds_inspect start (fun _ => start) ?_
  refine holds_write (fun u part => by cases part) (fun _ => ⟨start, start⟩) fun s₁ made => ?_
  obtain rfl : s₁ = { s with staging := some ⟨false, fun _ => none⟩ } := by
    simpa [disk, Write.apply, absent, eq_comm] using made
  have open₁ : Open s { s with staging := some ⟨false, fun _ => none⟩ } := ⟨rfl, rfl, rfl, rfl, rfl⟩
  refine ⟨open₁.drafted, holds_inspect open₁.drafted (fun _ => open₁.drafted) ?_⟩
  refine holds_write (fun u part => by cases part) (fun _ => ⟨open₁.drafted, open₁.drafted⟩) fun s₂ made => ?_
  obtain rfl : s₂ = { s with staging := some ⟨true, fun _ => none⟩ } := by
    simpa [disk, Write.apply, eq_comm] using made
  have open₂ : Open s { s with staging := some ⟨true, fun _ => none⟩ } := ⟨rfl, rfl, rfl, rfl, rfl⟩
  refine ⟨open₂.drafted, wp_handle.mpr (wp_mono (holds_stageTransaction policy open₂) (fun _ _ _ g => g) ?_)⟩
  rintro (e | r) u ended
  · -- What is left of the directory is a part of what was there.
    have cleared : ∀ {v : State} {left : Option (Bool × List Name)}, (Write.clear left).apply u = some v →
        Drafted t b s v := by
      intro v left applied
      cases applied
      have entry : ∀ n, ({ u with staging := u.staging.bind fun st => st.left left } : State).entry n = none ∨
          ({ u with staging := u.staging.bind fun st => st.left left } : State).entry n = u.entry n := by
        intro n
        cases at_ : u.staging with
        | none => exact .inl (by simp [State.entry])
        | some st =>
          rcases left with _ | ⟨rpms, names⟩
          · exact .inl (by simp [State.entry, Staging.left])
          · by_cases mem : n ∈ names
            · exact .inr (by simp [State.entry, Staging.left, mem, at_])
            · exact .inl (by simp [State.entry, Staging.left, mem])
      refine ⟨ended.installed, ?_, ?_, ?_⟩
      · rcases entry .started with gone | same
        · exact gone
        · exact same.trans ended.unstarted
      · rcases entry .complete with gone | same
        · exact gone
        · exact same.trans ended.incomplete
      · rcases entry .manifest with gone | same
        · exact .inl gone
        · rcases ended.manifest with none' | ⟨m, front, drawn, part, there⟩
          · exact .inl (same.trans none')
          · exact .inr ⟨m, front, drawn, part, same.trans there⟩
    change Holds (disk k) (Drafted t b s) ((removeStaging).bind fun _ => .fail e) _ u
    rw [removeStaging, bind_eq, Prog.bind_assoc]
    refine holds_ask ended fun left _ => holds_write (fun v part => ?_) (fun _ => ⟨ended, ended⟩) fun v applied =>
      ⟨cleared applied, cleared applied⟩
    cases part with
    | clear applied => exact cleared applied
  · exact ended

/-! ## What can follow a preparation -/

/-- The manifest that an application reads is the drawn one. -/
lemma Drafted.readable {st : Staging} {payloads : List Json} {approved : List Row} (h : Drafted t b s u)
    (there : u.staging = some st) (readable : Readable t a st payloads approved) :
    ∃ m, Drawn t b s m ∧ a.transition.toProfile = b.transition.toProfile ∧
      a.manifestSha256 = t.sha256 (canonicalJson (m.json b.transition)) ∧
      a.installedStateSha256 = m.installedStateSha256 ∧ payloads = m.payloads.map Payload.json ∧
      approved = m.transaction.map Row.local := by
  obtain ⟨j, loaded, identity, installed, rfl, rfl⟩ := readable.manifest
  obtain ⟨content, digest⟩ := loadManifest_ok loaded
  have entry : u.entry .manifest = st.entry .manifest := by rw [State.entry, there, Option.bind_some]
  rcases h.manifest with none_ | ⟨m, front, drawn, part, at_⟩
  · rw [entry, content] at none_
    cases none_
  · rw [entry, content] at at_
    cases at_
    obtain rfl := canonicalJson_front part
    obtain ⟨same, -, -⟩ := identity_json.mp identity
    have named : a.installedStateSha256 = m.installedStateSha256 := (Option.some.inj installed).symm
    refine ⟨m, drawn, same.symm, digest.symm, named, ?_, approvedRows_json⟩
    rw [payloads_json]
    rfl

/-- Wherever a preparation on a host without a staging directory ends, by itself or by a kill: from the
directory that it leaves, any processes start at most one transaction, only for its own
transition and under the digest of the packages that were installed when it ran, and the transaction
installs and upgrades packages only, with exactly one release package, that of the target. -/
theorem preparation_bounds_transaction {k' : Conditions} {command : ℕ → Command t} {st : Staging}
    {c : Config ℕ (Op Write Ask) (Reply State Answer) String Outcome State Transaction}
    (absent : s.staging = none) (ran : Killed (disk k).semantics (commandPrepare t b) s u)
    (there : u.staging = some st) (steps : Steps (processes t k' command) (Config.idle u) c) :
    c.here.2.length ≤ 1 ∧ ∀ n ∈ c.here.2, ∃ a row, command n.pid = .apply a ∧
      a.transition.toProfile = b.transition.toProfile ∧
      installedState t n.before.installed = installedState t s.installed ∧
      (∀ row ∈ n.rows, row.action ∈ ["install", "upgrade-in", "upgrade-out"]) ∧
      n.rows.filter Row.isRelease = [row] ∧ row.version = b.transition.target := by
  have none_ : ∀ n, s.entry n = none := fun n => by rw [State.entry, absent, Option.bind_none]
  have drafted : Drafted t b s u := wp_killed (holds_commandPrepare absent) ⟨rfl, none_ _, none_ _, .inl (none_ _)⟩ ran
  obtain ⟨-, settled⟩ := settled_steps there steps
  obtain ⟨atMost, each⟩ := settled.notes
  refine ⟨atMost, fun n mem => ?_⟩
  obtain ⟨a, caller, approved⟩ := each n mem
  obtain ⟨payloads, readable, -⟩ := approved.readable
  obtain ⟨m, drawn, profile, -, digest, -, rows⟩ := drafted.readable there readable
  obtain ⟨items, resolved⟩ := drawn.resolved
  obtain ⟨row, only, version⟩ := requireTargetRelease_eq drawn.target
  refine ⟨a, row.local, caller, profile, ?_, fun r in_ => ?_, ?_, row.local_eq.2.2.trans version⟩
  · rw [approved.installed, digest, drawn.installed]
  · rw [rows] at in_
    obtain ⟨r', in_', rfl⟩ := List.mem_map.mp in_
    rw [r'.local_eq.1]
    exact transactionRows_allowed resolved r' in_'
  · rw [rows, filter_local, only]
    rfl

theorem preparation_bounds_transaction_sample :
    ∃ c, Steps (processes sampleTools sampleAnswers.conditions sampleCommand) (Config.idle prepared) c ∧
      c.here.2.length = 1 ∧ ∀ n ∈ c.here.2, ∃ row, n.rows.filter Row.isRelease = [row] ∧ row.version = "10.2" := by
  have staged : prepared.staging.isSome = true := by decide +kernel
  obtain ⟨st, there⟩ := Option.isSome_iff_exists.mp staged
  obtain ⟨c, steps, one⟩ := sample_steps
  refine ⟨c, steps, one, fun n mem => ?_⟩
  obtain ⟨-, row, -, -, -, -, only, version⟩ :=
    (preparation_bounds_transaction (s := bare) rfl (sample_within.exec _ _).killed there steps).2 n mem
  exact ⟨row, only, version⟩

end PlatformConfig.MinorAlignment
