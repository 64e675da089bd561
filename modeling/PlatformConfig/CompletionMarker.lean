import PlatformConfig.CrashProgram
import PlatformConfig.JsonLines

/-!
# The completion marker of an alignment

`command_mark` creates the marker of a transition with one exclusive write and validates it after
that. Each of its operations can fail, its write can take a part of the record, and the invocation
can be killed between any two of them.
-/
namespace PlatformConfig.CompletionMarker

open CanonicalJson CrashProgram Prog JsonText RecordText

/-- What `TRANSITIONS` says of a transition that its marker repeats. -/
structure Profile where
  migrationId : String
  source : String
  target : String

def transitions : List (String × Profile) :=
  [("rocky-10.1-to-10.2", ⟨"2026-08-rocky-10.1-to-10.2", "10.1", "10.2"⟩),
    ("rocky-10.0-to-10.2", ⟨"2026-08-rocky-10.0-to-10.2", "10.0", "10.2"⟩)]

/-! ## The record -/

def digits2 (n : ℕ) : List Char := [Nat.digitChar (n / 10), Nat.digitChar (n % 10)]

/-- A moment in UTC, to the second. -/
structure Moment where
  year : ℕ
  month : ℕ
  day : ℕ
  hour : ℕ
  minute : ℕ
  second : ℕ
  valid : year ≤ 9999 ∧ month ≤ 12 ∧ day ≤ 31 ∧ hour < 24 ∧ minute < 60 ∧ second < 60

/-- `isoformat()`, with the zone written `Z` -/
def Moment.text (m : Moment) : List Char :=
  digits2 (m.year / 100) ++ digits2 (m.year % 100) ++ '-' :: digits2 m.month ++ '-' :: digits2 m.day ++
    'T' :: digits2 m.hour ++ ':' :: digits2 m.minute ++ ':' :: digits2 m.second ++ ['Z']

/-- `[0-9]{4}-[0-9]{2}-[0-9]{2}T[0-9]{2}:[0-9]{2}:[0-9]{2}Z`; `d` stands for a digit. -/
def isTimestamp (t : List Char) : Bool :=
  t.length = 20 && (t.zip "dddd-dd-ddTdd:dd:ddZ".toList).all fun p =>
    if p.2 = 'd' then p.1.isDigit else p.1 = p.2

/-- `[0-9a-f]{64}` -/
def isDigest (t : List Char) : Bool := t.length = 64 && t.all fun c => c.isDigit || 'a' ≤ c && c ≤ 'f'

def markerFields : List String := ["completed_at", "manifest_sha256", "migration_id", "running_kernel",
  "schema", "source", "target"]

/-- `canonical_json` -/
def canonicalJson (j : Json) : Bytes := encode (canonical j ++ ['\n'])

/-- `value == 1` -/
def equalsOne : Json → Bool
  | .int n => n = 1
  | .bool b => b
  | .float t => t.text = "1.0".toList
  | _ => false

def hasText (j : Json) (key : String) (p : List Char → Bool) : Bool :=
  ((j.get? key).bind Json.str?).any fun s => p s.toList

/-- `validate_marker_identity` -/
def validateMarkerIdentity (marker : Json) (profile : Profile) : Except String Unit :=
  if !((marker.get? "schema").any equalsOne && hasText marker "migration_id" (· = profile.migrationId.toList) &&
      hasText marker "source" (· = profile.source.toList) && hasText marker "target" (· = profile.target.toList)) then
    .error "completion marker transition identity is invalid"
  else if !hasText marker "manifest_sha256" isDigest then
    .error "completion marker manifest digest is invalid"
  else if !hasText marker "running_kernel" (· ≠ []) then .error "completion marker running kernel is invalid"
  else if !hasText marker "completed_at" isTimestamp then .error "completion marker timestamp is invalid"
  else .ok ()

/-- What a path holds: a regular file, or something else. -/
inductive Entry
  | file (content : Bytes) (uid gid mode : ℕ)
  | other

section Validation
variable (float : List Char → Option FloatText)

/-- `validate_marker`; only ASCII content can be canonical. -/
def validateMarker (profile : Profile) : Option Entry → Except String Json
  | some (.file content uid gid mode) =>
    if !(uid = 0 && gid = 0 && mode % 512 = 0o600) then
      .error "completion marker ownership or mode is invalid"
    else
      match (decode content).bind (loads float) with
      | none => .error "completion marker is invalid JSON"
      | some marker =>
        if !(marker.keys? = some markerFields && canonicalJson marker = content) then
          .error "completion marker schema or encoding is invalid"
        else (validateMarkerIdentity marker profile).map fun _ => marker
  | _ => .error "completion marker is missing or unsafe"

end Validation

/-! ## The command -/

/-- What becomes of an operation: it goes well, it raises an error, or, where it is a write, it
leaves the last `missing + 1` bytes out. -/
inductive Fault
  | fine
  | fails
  | short (missing : ℕ)
  deriving DecidableEq

/-- The marker path, and what becomes of each of the coming operations. -/
structure Path where
  entry : Option Entry
  faults : ℕ → Fault

/-- The host as the command finds it: why the parent of the marker is refused, if it is, and the
identity of the files that it creates. -/
structure Host where
  parentError : Option String
  uid : ℕ
  gid : ℕ
  mode : ℕ
  kernel : String
  now : Moment

inductive Op
  | parent
  | create
  | write (payload : Bytes)
  | sync
  | syncDirectory
  | inspect

abbrev Reply : Op → Type
  | .parent => Option String
  | .inspect => Option (Option Entry)
  | _ => Bool

inductive Failure
  | alignment (text : String)
  | os

/-- One operation, which meets the first of the coming faults. -/
def effect (host : Host) (o : Op) (p : Path) : Reply o × Path :=
  let rest := fun i => p.faults (i + 1)
  match o with
  | .parent =>
    (if p.faults 0 = .fails then some "unsafe root state path" else host.parentError, ⟨p.entry, rest⟩)
  | .create =>
    if p.faults 0 = .fails ∨ p.entry.isSome then (false, ⟨p.entry, rest⟩)
    else (true, ⟨some (.file [] host.uid host.gid host.mode), rest⟩)
  | .write payload =>
    match p.faults 0 with
    | .fails => (false, ⟨p.entry, rest⟩)
    | .short missing =>
      (true, ⟨some (.file (payload.take (payload.length - (missing + 1))) host.uid host.gid host.mode), rest⟩)
    | .fine => (true, ⟨some (.file payload host.uid host.gid host.mode), rest⟩)
  | .sync => (p.faults 0 ≠ .fails, ⟨p.entry, rest⟩)
  | .syncDirectory => (p.faults 0 ≠ .fails, ⟨p.entry, rest⟩)
  | .inspect => (if p.faults 0 = .fails then none else some p.entry, ⟨p.entry, rest⟩)

/-- `write_exclusive`, which does not look at how much was written. -/
def writeExclusive (payload : Bytes) : Prog Op Reply Failure Unit := do
  require (← perform Op.create : Bool) .os
  require (← perform (Op.write payload) : Bool) .os
  require (← perform Op.sync : Bool) .os
  require (← perform Op.syncDirectory : Bool) .os

structure Args where
  transition : String
  manifestSha256 : String

def markerOf (host : Host) (args : Args) (profile : Profile) : Json :=
  .obj [("completed_at", .str (String.ofList host.now.text)), ("manifest_sha256", .str args.manifestSha256),
    ("migration_id", .str profile.migrationId), ("running_kernel", .str host.kernel), ("schema", .int 1),
    ("source", .str profile.source), ("target", .str profile.target)]

/-- `command_mark` -/
def commandMark (float : List Char → Option FloatText) (host : Host) (args : Args) :
    Prog Op Reply Failure Json :=
  match transitions.lookup args.transition with
  | none => .fail (.alignment ("unsupported Rocky transition: " ++ args.transition))
  | some profile => do
    match (← perform Op.parent : Option String) with
    | some text => .fail (.alignment text)
    | none =>
      writeExclusive (canonicalJson (markerOf host args profile))
      match (← perform Op.inspect : Option (Option Entry)) with
      | none => .fail .os
      | some entry =>
        match validateMarker float profile entry with
        | .error text => .fail (.alignment text)
        | .ok marker => return marker

/-! ## What a marker has to be -/

/-- The entry is a marker that `validate_marker` accepts for the transition. -/
def Accepted (float : List Char → Option FloatText) (transition : String) (entry : Option Entry) : Prop :=
  ∃ profile, transitions.lookup transition = some profile ∧
    ∃ marker, validateMarker float profile entry = .ok marker

/-- An invocation that ends by itself, or is killed after so many operations. -/
def ended (host : Host) (stop : Option ℕ) (c : Prog Op Reply Failure Json) (p : Path) :
    Option (Except Failure Json) × Path :=
  match stop with
  | none => (some (run (effect host) c p).1, (run (effect host) c p).2)
  | some n => (none, after (effect host) n c p)

/-- What is left is a marker for the transition or nothing, and an error has changed nothing. -/
structure Atomic (float : List Char → Option FloatText) (host : Host) (args : Args) (p : Path)
    (stop : Option ℕ) : Prop where
  sound : (ended host stop (commandMark float host args) p).2.entry = none ∨
    Accepted float args.transition (ended host stop (commandMark float host args) p).2.entry
  refused : ∀ e, (ended host stop (commandMark float host args) p).1 = some (.error e) →
    (ended host stop (commandMark float host args) p).2.entry = p.entry

/-- The invocation performs its first `k` operations. -/
def Reaches (k : ℕ) (stop : Option ℕ) : Prop := ∀ n ∈ stop, k ≤ n

/-- The invocation creates the marker. -/
structure Creates (host : Host) (args : Args) (p : Path) (stop : Option ℕ) : Prop where
  known : (transitions.lookup args.transition).isSome
  parent : host.parentError = none ∧ p.faults 0 ≠ .fails
  free : p.entry = none
  created : p.faults 1 ≠ .fails
  reached : Reaches 2 stop

/-- The marker belongs to root alone. -/
def Host.Private (host : Host) : Prop := host.uid = 0 ∧ host.gid = 0 ∧ host.mode % 512 = 0o600

/-- What it takes for a created marker to be sound: the arguments and the host pass the validation,
the record is written whole, and nothing fails behind the write unless the invocation is killed. -/
structure Marks (host : Host) (args : Args) (p : Path) (stop : Option ℕ) : Prop where
  digest : isDigest args.manifestSha256.toList = true
  kernel : host.kernel ≠ ""
  owned : host.Private
  written : Reaches 3 stop ∧ p.faults 2 = .fine
  settled : stop = none → p.faults 3 ≠ .fails ∧ p.faults 4 ≠ .fails ∧ p.faults 5 ≠ .fails

/-! ## The record is read back -/

lemma digitChar_isDigit {n : ℕ} (small : n < 10) : (Nat.digitChar n).isDigit = true := by
  have all : ∀ k < 10, (Nat.digitChar k).isDigit = true := by decide
  exact all n small

lemma Moment.isTimestamp_text (m : Moment) : isTimestamp m.text = true := by
  obtain ⟨year, month, day, hour, minute, second⟩ := m.valid
  have shape : "dddd-dd-ddTdd:dd:ddZ".toList = ['d', 'd', 'd', 'd', '-', 'd', 'd', '-', 'd', 'd', 'T', 'd',
      'd', ':', 'd', 'd', ':', 'd', 'd', 'Z'] := by decide
  have digit (n : ℕ) : (Nat.digitChar (n % 10)).isDigit = true :=
    digitChar_isDigit (Nat.mod_lt n (by decide))
  have tens {n : ℕ} (two : n < 100) : (Nat.digitChar (n / 10)).isDigit = true :=
    digitChar_isDigit (by omega)
  rw [isTimestamp, shape]
  simp [Moment.text, digits2, digit, tens (show m.year / 100 < 100 by omega),
    tens (show m.year % 100 < 100 by omega), tens (show m.month < 100 by omega),
    tens (show m.day < 100 by omega), tens (show m.hour < 100 by omega),
    tens (show m.minute < 100 by omega), tens (show m.second < 100 by omega)]

section Record
variable {float : List Char → Option FloatText} {host : Host} {args : Args} {profile : Profile}

lemma decode_canonicalJson (j : Json) : decode (canonicalJson j) = some (canonical j ++ ['\n']) := by
  refine decode_encode fun c mem => ?_
  rcases List.mem_append.mp mem with inside | last
  · exact (canonical_visible j c inside).ascii
  · rw [List.mem_singleton.mp last]
    decide

lemma loads_markerOf : loads float (canonical (markerOf host args profile) ++ ['\n']) =
    some (markerOf host args profile) := by
  refine loads_canonical ?_ (by simp [JsonText.isBlank])
  have ordered : ["completed_at", "manifest_sha256", "migration_id", "running_kernel", "schema", "source",
      "target"].Pairwise (· < ·) := by decide
  exact ⟨ordered, by simp [FieldsWellFormed, WellFormed]⟩

/-- The record of an invocation names its transition, so only the digest and the kernel are left to check. -/
lemma markerOf_identity (profile : Profile) : validateMarkerIdentity (markerOf host args profile) profile = .ok () ↔
    isDigest args.manifestSha256.toList = true ∧ host.kernel ≠ "" := by
  have time : isTimestamp host.now.text = true := host.now.isTimestamp_text
  have keys : validateMarkerIdentity (markerOf host args profile) profile =
      if !isDigest args.manifestSha256.toList then .error "completion marker manifest digest is invalid"
      else if !decide (host.kernel.toList ≠ []) then .error "completion marker running kernel is invalid"
      else .ok () := by
    simp [validateMarkerIdentity, markerOf, hasText, Json.get?, Json.str?, equalsOne, List.lookup, time]
  rw [keys]
  cases isDigest args.manifestSha256.toList <;> simp

/-- The whole record is accepted exactly where its values and its owner are right. -/
lemma accepts_record :
    (∃ marker, validateMarker float profile (some (.file (canonicalJson (markerOf host args profile))
      host.uid host.gid host.mode)) = .ok marker) ↔
      host.Private ∧ isDigest args.manifestSha256.toList = true ∧ host.kernel ≠ "" := by
  have fields : (markerOf host args profile).keys? = some markerFields := rfl
  rw [← markerOf_identity profile, Host.Private]
  by_cases owned : host.uid = 0 ∧ host.gid = 0 ∧ host.mode % 512 = 0o600
  · have read : (decode (canonicalJson (markerOf host args profile))).bind (loads float) =
        some (markerOf host args profile) := by
      rw [decode_canonicalJson, Option.bind_some, loads_markerOf]
    simp only [validateMarker, read, fields, owned]
    cases identity : validateMarkerIdentity (markerOf host args profile) profile <;> simp [Except.map]
  · have refused : (!(decide (host.uid = 0) && decide (host.gid = 0) && decide (host.mode % 512 = 0o600))) = true := by
      simpa [-not_and, not_and_or, or_assoc] using owned
    simp only [validateMarker, if_pos refused]
    simp [owned]

/-- Accepted content is the canonical text of a record. -/
lemma accepted_canonical {content : Bytes} {uid gid mode : ℕ} {marker : Json}
    (accepted : validateMarker float profile (some (.file content uid gid mode)) = .ok marker) :
    content = canonicalJson marker := by
  simp only [validateMarker] at accepted
  split_ifs at accepted
  cases read : (decode content).bind (loads float) with
  | none => simp [read] at accepted
  | some found =>
    simp only [read] at accepted
    split_ifs at accepted with shape
    cases identity : validateMarkerIdentity found profile with
    | error e => simp [identity, Except.map] at accepted
    | ok u =>
      simp only [identity, Except.map, Except.ok.injEq] at accepted
      simp only [Bool.not_eq_true', Bool.and_eq_false_iff, not_or, Bool.not_eq_false, decide_eq_true_eq] at shape
      rw [← shape.2, accepted]

/-- A record ends with its only line feed, so no proper front of one is accepted. -/
lemma front_refused {j : Json} {n uid gid mode : ℕ} :
    ¬∃ marker, validateMarker float profile (some (.file
      ((canonicalJson j).take ((canonicalJson j).length - (n + 1))) uid gid mode)) = .ok marker := by
  intro accepted
  obtain ⟨marker, accepted⟩ := accepted
  have whole : canonicalJson marker = encode (canonical marker) ++ [10] := by simp [canonicalJson, encode]
  have text : canonicalJson j = encode (canonical j) ++ [10] := by simp [canonicalJson, encode]
  have feed : (10 : UInt8) ∈ (canonicalJson j).take ((canonicalJson j).length - (n + 1)) := by
    rw [accepted_canonical accepted, whole]
    simp
  have short : (canonicalJson j).take ((canonicalJson j).length - (n + 1)) =
      (encode (canonical j)).take ((canonicalJson j).length - (n + 1)) := by
    rw [text, List.take_append_of_le_length]
    simp only [List.length_append, List.length_singleton]
    omega
  rw [short] at feed
  obtain ⟨c, mem, byte⟩ := List.mem_map.mp (List.mem_of_mem_take feed)
  have shown := canonical_visible j c mem
  have same := congrArg UInt8.toNat byte
  have low := shown.1
  have ascii := shown.ascii
  rw [UInt8.toNat_ofNat'] at same
  change c.toNat % 256 = 10 at same
  omega

lemma empty_refused {uid gid mode : ℕ} :
    ¬∃ marker, validateMarker float profile (some (.file [] uid gid mode)) = .ok marker := by
  intro accepted
  obtain ⟨marker, accepted⟩ := accepted
  have empty := accepted_canonical accepted
  simp [canonicalJson, encode] at empty

end Record

/-! ## The invocation, operation by operation -/

section Steps
variable {float : List Char → Option FloatText} {host : Host} {args : Args} {profile : Profile} {p : Path}
  {stop : Option ℕ}

/-- What follows the write of the record. -/
def settle (float : List Char → Option FloatText) (profile : Profile) : Prog Op Reply Failure Json := do
  require (← perform Op.sync : Bool) .os
  require (← perform Op.syncDirectory : Bool) .os
  match (← perform Op.inspect : Option (Option Entry)) with
  | none => .fail .os
  | some entry =>
    match validateMarker float profile entry with
    | .error text => .fail (.alignment text)
    | .ok marker => return marker

/-- What follows the check of the parent. -/
def record (float : List Char → Option FloatText) (host : Host) (args : Args) (profile : Profile) :
    Prog Op Reply Failure Json := do
  require (← perform Op.create : Bool) .os
  require (← perform (Op.write (canonicalJson (markerOf host args profile))) : Bool) .os
  settle float profile

lemma commandMark_eq (known : transitions.lookup args.transition = some profile) :
    commandMark float host args = .call .parent fun r => match r with
      | some text => .fail (.alignment text)
      | none => record float host args profile := by
  simp only [commandMark, known, writeExclusive, record, settle, bind_eq, bind_perform, bind_assoc, bind_call]

lemma ended_none (c : Prog Op Reply Failure Json) (early : ¬Reaches 1 stop) : ended host stop c p = (none, p) := by
  cases stop with
  | none => exact absurd (by simp [Reaches]) early
  | some n =>
    obtain rfl : n = 0 := by
      simp only [Reaches, Option.mem_some_iff, forall_eq'] at early
      omega
    rfl

lemma ended_call (go : Reaches 1 stop) (o : Op) (k : Reply o → Prog Op Reply Failure Json) :
    ended host stop (.call o k) p =
      ended host (stop.map (· - 1)) (k (effect host o p).1) (effect host o p).2 := by
  cases stop with
  | none => rfl
  | some n =>
    obtain ⟨m, rfl⟩ : ∃ m, n = m + 1 := ⟨n - 1, by have := go n rfl; omega⟩
    rfl

lemma reaches_next {k : ℕ} (go : Reaches 1 stop) : Reaches k (stop.map (· - 1)) ↔ Reaches (k + 1) stop := by
  cases stop with
  | none => simp [Reaches]
  | some n =>
    have := go n rfl
    simp only [Reaches, Option.map_some, Option.mem_some_iff, forall_eq']
    omega

lemma ended_fail (e : Failure) : (ended host stop (.fail e) p).2 = p := by
  rcases stop with _ | _ | n <;> rfl

/-- Nothing behind the write touches the entry. -/
lemma settle_keeps : (ended host stop (settle float profile) p).2.entry = p.entry := by
  have keeps : Keeps (ofHandler (effect host)) (fun q => q.entry = p.entry) (settle float profile) := by
    intro q same
    refine wp_interruptible.mpr ⟨fun _ cut => cut.elim, same, ?_⟩
    rw [bind_ret, bind_eq, bind_require]
    refine wp_check (fun _ => same) fun _ => wp_interruptible.mpr ⟨fun _ cut => cut.elim, same, ?_⟩
    rw [bind_ret, bind_eq, bind_require]
    refine wp_check (fun _ => same) fun _ => wp_interruptible.mpr ⟨fun _ cut => cut.elim, same, ?_⟩
    rw [bind_ret]
    split
    · exact same
    · split <;> exact same
  cases stop with
  | none => exact keeps.killed rfl (within_ofHandler.exec _ p).killed
  | some n => exact keeps.killed rfl (within_ofHandler.killed n _ p)

/-- An invocation that is not killed behind the write reports an error unless all goes well. -/
lemma settle_reports (accepted : ∃ marker, validateMarker float profile p.entry = .ok marker) :
    (∀ e, (ended host stop (settle float profile) p).1 ≠ some (.error e)) ↔
      (stop = none → p.faults 0 ≠ .fails ∧ p.faults 1 ≠ .fails ∧ p.faults 2 ≠ .fails) := by
  obtain ⟨marker, accepted⟩ := accepted
  cases stop with
  | some n => simp [ended]
  | none =>
    by_cases first : p.faults 0 = .fails
    · simp [ended, settle, run, effect, first]
    by_cases second : p.faults 1 = .fails
    · simp [ended, settle, run, effect, first, second]
    by_cases third : p.faults 2 = .fails
    · simp [ended, settle, run, effect, first, second, third]
    simp [ended, settle, run, effect, first, second, third, accepted]

/-! ## When a marking is atomic -/

lemma atomic_kept (kept : (ended host stop (commandMark float host args) p).2.entry = p.entry) :
    Atomic float host args p stop ↔ p.entry = none ∨ Accepted float args.transition p.entry := by
  constructor
  · intro atomic
    have sound := atomic.sound
    rwa [kept] at sound
  · intro sound
    exact ⟨by rwa [kept], fun _ _ => kept⟩

/-- Where a marker is created, only an accepted one is sound, and no error may be reported. -/
lemma atomic_created (known : transitions.lookup args.transition = some profile) (free : p.entry = none)
    {e : Entry} (there : (ended host stop (commandMark float host args) p).2.entry = some e) :
    Atomic float host args p stop ↔ (∃ marker, validateMarker float profile (some e) = .ok marker) ∧
      ∀ f, (ended host stop (commandMark float host args) p).1 ≠ some (.error f) := by
  constructor
  · intro atomic
    have sound := atomic.sound
    have refused := atomic.refused
    rw [there] at sound refused
    refine ⟨?_, fun f reported => ?_⟩
    · obtain ⟨found, same, accepted⟩ := sound.resolve_left (by simp)
      rw [known] at same
      cases same
      exact accepted
    · have changed := refused f reported
      rw [free] at changed
      cases changed
  · intro whole
    constructor
    · rw [there]
      exact .inr ⟨profile, known, whole.1⟩
    · intro f reported
      exact absurd reported (whole.2 f)

lemma effect_parent : (effect host .parent p).1 = none ↔ host.parentError = none ∧ p.faults 0 ≠ .fails := by
  by_cases fails : p.faults 0 = .fails <;> simp [effect, fails]

lemma entry_kept (uncreated : ¬Creates host args p stop) :
    (ended host stop (commandMark float host args) p).2.entry = p.entry := by
  cases known : transitions.lookup args.transition with
  | none => rw [commandMark, known, ended_fail]
  | some profile =>
    rw [commandMark_eq known]
    by_cases first : Reaches 1 stop
    swap
    · rw [ended_none _ first]
    rw [ended_call first]
    cases parent : (effect host .parent p).1 with
    | some text =>
      rw [ended_fail]
      rfl
    | none =>
      by_cases second : Reaches 1 (stop.map (· - 1))
      swap
      · simp only [ended_none _ second]
        rfl
      have blocked : p.faults 1 = .fails ∨ p.entry.isSome := by
        by_contra open_
        simp only [not_or, Bool.not_eq_true, Option.isSome_eq_false_iff, Option.isNone_iff_eq_none] at open_
        exact uncreated ⟨by simp [known], effect_parent.mp parent, open_.2, open_.1, (reaches_next first).mp second⟩
      have refused : effect host .create (effect host .parent p).2 =
          (false, ⟨p.entry, fun i => p.faults (i + 2)⟩) := if_pos blocked
      simp only [record, bind_eq, bind_perform, ended_call second, refused, bind_require, Bool.false_eq_true,
        if_false, ended_fail]

/-- Where the marker is created, the outcome is decided by the write and by what follows it. -/
lemma atomic_creates (creates : Creates host args p stop) :
    Atomic float host args p stop ↔ Marks host args p stop := by
  obtain ⟨profile, known⟩ := Option.isSome_iff_exists.mp creates.known
  have first : Reaches 1 stop := fun n mem => by
    have := creates.reached n mem
    omega
  have second : Reaches 1 (stop.map (· - 1)) := (reaches_next first).mpr creates.reached
  have parent : (effect host .parent p).1 = none := effect_parent.mpr creates.parent
  have open_ : ¬(p.faults 1 = .fails ∨ p.entry.isSome) := by simp [creates.created, creates.free]
  have third : Reaches 1 ((stop.map (· - 1)).map (· - 1)) ↔ Reaches 3 stop := by
    rw [reaches_next second, reaches_next first]
  have created : effect host .create (effect host .parent p).2 =
      (true, ⟨some (.file [] host.uid host.gid host.mode), fun i => p.faults (i + 2)⟩) := if_neg open_
  have start : ended host stop (commandMark float host args) p =
      ended host ((stop.map (· - 1)).map (· - 1)) (.call (.write (canonicalJson (markerOf host args profile)))
        fun written => if written then settle float profile else .fail .os)
        ⟨some (.file [] host.uid host.gid host.mode), fun i => p.faults (i + 2)⟩ := by
    rw [commandMark_eq known, ended_call first, parent]
    simp only [record, bind_eq, bind_perform, ended_call second, created, bind_require, if_true]
  have cut {e : Entry} (there : (ended host stop (commandMark float host args) p).2.entry = some e)
      (broken : ¬∃ marker, validateMarker float profile (some e) = .ok marker)
      (unmarked : ¬Marks host args p stop) : Atomic float host args p stop ↔ Marks host args p stop := by
    rw [atomic_created known creates.free there]
    exact ⟨fun sound => absurd sound.1 broken, fun marks => absurd marks unmarked⟩
  by_cases written : Reaches 1 ((stop.map (· - 1)).map (· - 1))
  swap
  · rw [ended_none _ written] at start
    exact cut (by rw [start]) empty_refused fun marks => written (third.mpr marks.written.1)
  rw [ended_call written] at start
  cases fault : p.faults 2 with
  | fails =>
    simp only [effect, fault, Bool.false_eq_true, if_false] at start
    refine cut (by rw [start, ended_fail]) empty_refused fun marks => ?_
    rw [marks.written.2] at fault
    cases fault
  | short missing =>
    simp only [effect, fault, if_true] at start
    refine cut (by rw [start, settle_keeps]) front_refused fun marks => ?_
    rw [marks.written.2] at fault
    cases fault
  | fine =>
    simp only [effect, fault, if_true] at start
    rw [atomic_created known creates.free (by rw [start, settle_keeps]), start, accepts_record]
    constructor
    · intro whole
      obtain ⟨owned, digest, kernel⟩ := whole.1
      refine ⟨digest, kernel, owned, ⟨third.mp written, fault⟩, fun finished => ?_⟩
      have reports := (settle_reports (accepts_record.mpr whole.1)).mp whole.2
      exact reports (by rw [finished]; rfl)
    · intro marks
      have valid := And.intro marks.owned (And.intro marks.digest marks.kernel)
      refine ⟨valid, (settle_reports (accepts_record.mpr valid)).mpr fun finished => marks.settled ?_⟩
      simpa using finished

/-- A marking is atomic exactly where it creates no marker and finds none or a sound one, or creates
one from a full record that passes the validation, with nothing failing behind the write. -/
theorem marking_atomic_iff (float : List Char → Option FloatText) (host : Host) (args : Args) (p : Path)
    (stop : Option ℕ) :
    Atomic float host args p stop ↔ (Creates host args p stop → Marks host args p stop) ∧
      (¬Creates host args p stop → p.entry = none ∨ Accepted float args.transition p.entry) := by
  by_cases creates : Creates host args p stop
  · simp [creates, atomic_creates creates]
  · simp [creates, atomic_kept (entry_kept creates)]

end Steps

/-! ## A digest that is none -/

def sampleHost : Host where
  parentError := none
  uid := 0
  gid := 0
  mode := 0o600
  kernel := "6.12.0"
  now := ⟨2026, 8, 1, 12, 0, 0, by decide⟩

/-- A free path on which nothing fails. -/
def samplePath : Path := ⟨none, fun _ => .fine⟩

lemma sample_creates (digest : String) :
    Creates sampleHost ⟨"rocky-10.1-to-10.2", digest⟩ samplePath none where
  known := by simp [transitions]
  parent := ⟨rfl, by decide⟩
  free := rfl
  created := by decide
  reached := by simp [Reaches]

/-- A digest that the validation refuses is refused behind the write, and the marker stays. -/
theorem malformed_digest_marks : ¬∀ (float : List Char → Option FloatText) (host : Host) (args : Args)
    (p : Path) (stop : Option ℕ), Atomic float host args p stop := by
  intro atomic
  have marks := (atomic_creates (sample_creates "xyz")).mp (atomic (fun _ => none) _ _ _ _)
  exact absurd marks.digest (by decide)

end PlatformConfig.CompletionMarker
