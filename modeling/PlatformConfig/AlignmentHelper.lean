import PlatformConfig.AlignmentManifest
import PlatformConfig.CrashThreads
import PlatformConfig.GuardPlan

/-!
# The alignment helper

`prepare` and `apply` of `platform-rocky-minor-alignment` as programs on one host: the installed
packages, the staging directory of the transaction, the release override and the lock of the RPM
database. What DNF resolves, downloads and installs is an answer of the surroundings, and the checks of
what is not in the state are one inspection each.
-/
namespace PlatformConfig.MinorAlignment

open CanonicalJson CrashProgram CrashDisk Prog
open CompletionMarker (canonicalJson isDigest)
open RecordText (Bytes encode)

/-! ## The state -/

/-- The names below the staging directory. -/
inductive Name
  | rpm (filename : String)
  | manifest
  | started
  | complete
  deriving DecidableEq

/-- The staging directory: whether `rpms` is there, and the entries. -/
structure Staging where
  rpms : Bool
  entry : Name → Option Entry

/-- A release override: a file of root with its text, or something else. -/
inductive Override
  | text (t : List Char)
  | other
  deriving DecidableEq

/-- The host: the rows of `rpm -qa`, the staging directory, the overrides below `/etc/dnf/vars` and
`/etc/yum/vars`, and the process that holds the lock of the RPM database. -/
structure State where
  installed : List String
  staging : Option Staging
  dnfVar : Option Override
  yumVar : Option Override
  lock : Option ℕ

def State.entry (s : State) (n : Name) : Option Entry := s.staging.bind fun st => st.entry n

def Staging.set (st : Staging) (n : Name) (e : Entry) : Staging :=
  { st with entry := Function.update st.entry n (some e) }

/-- Write to a file that has been created under this name. -/
def Staging.fill (st : Staging) (n : Name) (d : Bytes) : Staging :=
  if (st.entry n).isSome then st.set n (.file d) else st

inductive Write
  | mkdirStaging
  | mkdirRpms
  | create (n : Name)
  | fill (n : Name) (d : Bytes)
  | clear (left : Option (Bool × List Name))
  | acquire (pid : ℕ)
  | release (pid : ℕ)
  | unlinkReleasever
  | install (rows : List String)

/-- What is left of a directory that is removed: nothing, or `rpms` and some of the names. -/
def Staging.left (st : Staging) : Option (Bool × List Name) → Option Staging
  | none => none
  | some (rpms, names) => some ⟨st.rpms && rpms, fun n => if n ∈ names then st.entry n else none⟩

/-- A name can be created in the directory that it belongs to. -/
def Staging.holds (st : Staging) : Name → Bool
  | .rpm _ => st.rpms
  | _ => true

def Write.apply : Write → State → Option State
  | .mkdirStaging, s => if s.staging.isSome then none else some { s with staging := some ⟨false, fun _ => none⟩ }
  | .mkdirRpms, s =>
    match s.staging with
    | some st => if st.rpms then none else some { s with staging := some { st with rpms := true } }
    | none => none
  | .create n, s =>
    match s.staging with
    | some st =>
      if st.holds n && (st.entry n).isNone then some { s with staging := some (st.set n (.file [])) } else none
    | none => none
  | .fill n d, s => some { s with staging := s.staging.map fun st => st.fill n d }
  | .clear left, s => some { s with staging := s.staging.bind fun st => st.left left }
  | .acquire pid, s => if s.lock.isSome then none else some { s with lock := some pid }
  | .release pid, s => if s.lock = some pid then some { s with lock := none } else none
  | .unlinkReleasever, s => if s.dnfVar.isSome then some { s with dnfVar := none } else none
  | .install rows, s => some { s with installed := rows }

/-- A kill inside a write leaves the beginning of a file, a part of a directory that is removed, or
a transaction that is not finished. -/
inductive Torn : Write → State → State → Prop
  | fill {n d p s t} (front : p <+: d) (applied : (Write.fill n p).apply s = some t) : Torn (.fill n d) s t
  | clear {left left' s t} (applied : (Write.clear left').apply s = some t) : Torn (.clear left) s t
  | install {rows rows' s t} (applied : (Write.install rows').apply s = some t) : Torn (.install rows) s t

/-- A downloaded package: what `package_signature_check` says of it, the name and the content of its
file and its installed size. -/
structure Package where
  nevra : String
  signed : Bool
  filename : String
  content : Bytes
  installSize : ℕ

/-- What a run asks: whether a check of what is not in the state or a `fsync` passes, the text of
`/etc/os-release`, how much a write takes, what DNF makes of the repositories and of local files, what
a transaction leaves installed and whether it succeeds, and what a removal leaves. -/
inductive Ask
  | inspect
  | osRelease
  | accepts (bytes : ℕ)
  | resolve
  | capacity
  | download
  | resolveLocal (filenames : List String)
  | transact (rows : List Row)
  | remains

abbrev Answer : Ask → Type
  | .inspect => Bool
  | .osRelease => List Char
  | .accepts _ => ℕ
  | .resolve => Option (List Item)
  | .capacity => Option ℕ
  | .download => Option (List Package)
  | .resolveLocal _ => Option (List Item)
  | .transact _ => List String × Bool
  | .remains => Option (Bool × List Name)

/-- The conditions of a run: whether a check or a write can fail, whether a write can take a part,
and what the surroundings can answer. -/
structure Conditions where
  faults : Prop
  short : Prop
  osRelease : List Char → Prop
  resolve : Option (List Item) → Prop
  capacity : Option ℕ → Prop
  download : Option (List Package) → Prop
  resolveLocal : List String → State → Option (List Item) → Prop
  transact : List Row → State → List String × Bool → Prop

def disk (k : Conditions) : Disk State Write Ask Answer where
  apply := Write.apply
  answers
    | .inspect, _, passed => passed = true ∨ k.faults
    | .osRelease, _, text => k.osRelease text
    | .accepts bytes, _, n => n = bytes ∨ k.short ∧ n ≤ bytes
    | .resolve, _, y => k.resolve y
    | .capacity, _, y => k.capacity y
    | .download, _, y => k.download y
    | .resolveLocal filenames, s, y => k.resolveLocal filenames s y
    | .transact rows, s, y => k.transact rows s y
    | .remains, _, left => left = none ∨ k.faults
  fails _ := k.faults
  torn := Torn

/-- What the surroundings of an application answer where nothing fails by accident. -/
structure Answers where
  osRelease : List Char
  resolveLocal : List String → State → Option (List Item)
  transact : List Row → State → List String × Bool

def Answers.conditions (x : Answers) : Conditions where
  faults := False
  short := False
  osRelease text := text = x.osRelease
  resolve _ := True
  capacity _ := True
  download _ := True
  resolveLocal filenames s y := y = x.resolveLocal filenames s
  transact rows s y := y = x.transact rows s

abbrev Run := Program State Write Ask Answer String

/-- SHA-256 in lowercase hexadecimal digits, and the reading of a float. -/
structure Tools where
  sha256 : Bytes → String
  hex : ∀ d, isDigest (sha256 d).toList = true
  float : List Char → Option FloatText

/-! ## Steps -/

def inspect (e : String) : Run Unit := (ask Ask.inspect).bind fun passed => require passed e

def ofExcept {α : Type} : Except String α → Run α
  | .ok a => .ret a
  | .error e => .fail e

def ofOption {α : Type} (e : String) : Option α → Run α
  | some a => .ret a
  | none => .fail e

/-- The text of an error of the operating system is not modelled. -/
def osError : String := "OSError"

/-- `write_exclusive`, which does not look at how much was written. -/
def writeExclusive (n : Name) (payload : Bytes) : Run Unit := do
  write (.create n) osError
  let taken ← ask (.accepts payload.length)
  write (.fill n (payload.take taken)) osError
  inspect osError

def strip (drop : Char → Bool) (t : List Char) : List Char := ((t.dropWhile drop).reverse.dropWhile drop).reverse

/-- The last value of a key of `/etc/os-release`. -/
def osReleaseValue (text : List Char) (key : String) : Option (List Char) :=
  ((RecordText.splitLines text).filterMap fun line => match RecordText.splitField line with
    | some (k, value) => if k = key.toList then some (strip (· = '"') (strip GuardPlan.isSpace value)) else none
    | none => none).getLast?

/-- `os_release_version` -/
def osReleaseVersion (p : Transition) (text : List Char) : Except String String :=
  match osReleaseValue text "ID", osReleaseValue text "VERSION_ID" with
  | some id, some version =>
    if id = "rocky".toList && (version = p.source.toList || version = p.target.toList) then
      .ok (String.ofList version)
    else .error "helper accepts only the releases of the transition"
  | _, _ => .error "helper accepts only the releases of the transition"

variable (t : Tools)

/-- The digest of `installed_state` -/
def installedState (rows : List String) : String :=
  t.sha256 (encode ("\n".intercalate (rows.insertionSort (· ≤ ·)) ++ "\n").toList)

/-! ## Preparation -/

structure PrepareArgs where
  transition : Transition
  policy : Json
  /-- The policy as `json.loads` returns it. -/
  read : JsonText.WellFormed t.float policy

/-- What `prepare` reports. -/
structure Prepared where
  installedStateSha256 : String
  downloadSize : ℕ
  installSize : ℕ
  manifestSha256 : String
  payloadCount : ℕ
  transaction : List Row
  deriving DecidableEq

/-- `payload_record` for one package after the other. -/
def payloadRecords : List Package → Run (List Payload)
  | [] => pure []
  | x :: rest => do
    require x.signed ("RPM signature validation failed for " ++ x.nevra)
    require (isRpmName x.filename.toList) ("unsafe RPM filename: " ++ x.filename)
    write (.create (.rpm x.filename)) osError
    write (.fill (.rpm x.filename) x.content) osError
    inspect osError
    let s ← look
    match s.entry (.rpm x.filename) with
    | some (.file d) => do
      let others ← payloadRecords rest
      return ⟨x.filename, x.nevra, t.sha256 d, d.length⟩ :: others
    | _ => .fail osError

/-- The part of `prepare` that removes the staging directory when it fails. -/
def stageTransaction (a : PrepareArgs t) : Run Prepared := do
  let items ← ask .resolve
  let items ← ofOption "target-release transaction is empty" items
  let rows ← ofExcept (transactionRows items)
  ofExcept (requireTargetRelease rows a.transition.target)
  let capacity ← ask .capacity
  let expected ← ofOption "insufficient free space before transaction download" capacity
  let packages ← ask .download
  let packages ← ofOption osError packages
  let payloads ← payloadRecords t (packages.insertionSort fun x y => x.nevra ≤ y.nevra)
  let size := (payloads.map Payload.size).sum
  require (size ≤ expected) "downloaded RPM size exceeds the preflight capacity bound"
  let s ← look
  let digest := installedState t s.installed
  inspect "enabled repository identities or origins differ from the reviewed policy"
  let manifest : Manifest := ⟨size, (packages.map Package.installSize).sum, digest, payloads, a.policy, rows⟩
  writeExclusive .manifest (canonicalJson (manifest.json a.transition))
  return ⟨digest, size, manifest.installSize, t.sha256 (canonicalJson (manifest.json a.transition)),
    payloads.length, rows⟩

/-- `shutil.rmtree` of the staging directory, errors ignored. -/
def removeStaging : Run Unit := do
  let left ← ask .remains
  write (.clear left) osError

/-- `command_prepare` -/
def commandPrepare (a : PrepareArgs t) : Run Prepared := do
  ofExcept (decodePolicy a.policy)
  inspect "Rocky signing key digest differs from the qualified key"
  let text ← ask .osRelease
  let release ← ofExcept (osReleaseVersion a.transition text)
  require (release = a.transition.source) ("transaction preparation requires Rocky Linux " ++ a.transition.source)
  inspect "DNF package builds differ from the qualified Rocky builds"
  inspect "unsafe root state path"
  write .mkdirStaging "transaction staging path already exists"
  inspect "transaction staging path is unsafe"
  write .mkdirRpms osError
  (stageTransaction t a).handle fun e => do
    removeStaging
    .fail e

/-! ## Apply -/

structure ApplyArgs where
  transition : Transition
  manifestSha256 : String
  installedStateSha256 : String

/-- `verify_payloads`, each file as it is when it is read. -/
def verifyPayloads : List Json → Run (List String)
  | [] => pure []
  | x :: rest => do
    let s ← look
    let filename ← ofExcept (verifyPayload t.sha256 (fun f => s.entry (.rpm f)) x)
    let others ← verifyPayloads rest
    return filename :: others

/-- `source_releasever_path`: whether the override is to be removed. -/
def sourceReleaseverPath (p : Transition) (s : State) : Except String Bool :=
  match p.sourceReleasever with
  | none =>
    if s.dnfVar.isSome || s.yumVar.isSome then .error "source release override must be absent" else .ok false
  | some expected =>
    match s.dnfVar with
    | some (.text text) =>
      if strip GuardPlan.isSpace text = expected.toList then .ok true
      else .error "source release override changed after approval"
    | some .other => .error "source release override changed after approval"
    | none => .error osError

def ApplyArgs.started (a : ApplyArgs) : Json :=
  .obj [("installed_state_sha256", .str a.installedStateSha256), ("manifest_sha256", .str a.manifestSha256),
    ("migration_id", .str a.transition.migrationId), ("phase", .str "apply-started"), ("schema", .int 1)]

def ApplyArgs.complete (a : ApplyArgs) : Json :=
  .obj [("manifest_sha256", .str a.manifestSha256), ("migration_id", .str a.transition.migrationId),
    ("phase", .str "transaction-complete"), ("schema", .int 1)]

/-- What `apply` reads before it takes the lock: the payload records and the approved rows. -/
def readManifest (a : ApplyArgs) : Run (List Json × List Row) := do
  inspect "transaction staging directory is unsafe"
  let s ← look
  let m ← ofExcept (loadManifest t.float t.sha256 a.manifestSha256 (s.entry .manifest))
  ofExcept (validateManifestIdentity a.transition m)
  require (((m.get? "installed_state_sha256").bind Json.str?) = some a.installedStateSha256)
    "approved installed-state digest differs from the manifest"
  return ((payloads? m).getD [], approvedRows m)

/-- The part of `apply` between the lock and the transaction. -/
def approveTransaction (a : ApplyArgs) (payloads : List Json) (approved : List Row) : Run (List Row × Bool) := do
  let s ← look
  require (installedState t s.installed = a.installedStateSha256) "installed RPM state changed after approval"
  let filenames ← verifyPayloads t payloads
  let items ← ask (.resolveLocal filenames)
  let items ← ofOption "local-only transaction is empty" items
  let rows ← ofExcept (transactionRows items)
  require (rows.map Row.local = approved) "local-only DNF action set differs from the approved transaction"
  inspect "Rocky signing key digest differs from the qualified key"
  let s ← look
  let releasever ← ofExcept (sourceReleaseverPath a.transition s)
  return (rows.map Row.local, releasever)

/-- The release override is removed where there is one. -/
def removeOverride (releasever : Bool) : Run Unit :=
  if releasever then write .unlinkReleasever osError else pure ()

/-- `command_apply` in the process `pid` -/
def commandApply (pid : ℕ) (a : ApplyArgs) : Run Unit := do
  let text ← ask .osRelease
  let release ← ofExcept (osReleaseVersion a.transition text)
  require (release = a.transition.source) ("transaction apply requires Rocky Linux " ++ a.transition.source)
  inspect "DNF package builds differ from the qualified Rocky builds"
  let (payloads, approved) ← readManifest t a
  write (.acquire pid) osError
  let (rows, releasever) ← approveTransaction t a payloads approved
  writeExclusive .started (canonicalJson a.started)
  removeOverride releasever
  let outcome : List String × Bool ← ask (Ask.transact rows)
  write (.install outcome.1) osError
  require outcome.2 "DNF transaction failed"
  writeExclusive .complete (canonicalJson a.complete)
  write (.release pid) osError

/-! ## A sample host -/

def sampleTools : Tools where
  sha256 _ := "0000000000000000000000000000000000000000000000000000000000000000"
  hex _ := by decide
  float _ := none

def sampleTransition : Transition := ⟨⟨"2026-08-rocky-10.0-to-10.2", "10.0", "10.2"⟩, none⟩

/-- One repository. -/
def samplePolicy : Json :=
  .obj [("baseos", .obj [("baseurl", .arr []), ("gpgcheck", .bool true), ("gpgkey", .arr []), ("metalink", .null),
    ("mirrorlist", .null), ("repo_gpgcheck", .bool false)])]

def samplePrepare : PrepareArgs sampleTools where
  transition := sampleTransition
  policy := samplePolicy
  read := by
    have ordered : policyFields.Pairwise (· < ·) := by decide
    exact ⟨by simp, ⟨ordered, by simp [JsonText.FieldsWellFormed, JsonText.ElementsWellFormed, JsonText.WellFormed]⟩, trivial⟩

/-- The release package is upgraded, and nothing else. -/
def sampleItems : List Item :=
  [⟨.ok .upgradeIn, "rocky-release", "rocky-release-10.2-1.noarch", some "baseos", "10.2"⟩,
    ⟨.ok .upgradeOut, "rocky-release", "rocky-release-10.0-1.noarch", some "baseos", "10.0"⟩]

def sampleAnswers : Answers where
  osRelease := "ID=\"rocky\"\nVERSION_ID=\"10.0\"\n".toList
  resolveLocal _ _ := some sampleItems
  transact _ _ := (["rocky-release-10.2-1.noarch"], true)

def sampleAnswer : (x : Ask) → State → Answer x
  | .inspect, _ => true
  | .osRelease, _ => sampleAnswers.osRelease
  | .accepts bytes, _ => bytes
  | .resolve, _ => some sampleItems
  | .capacity, _ => some 1000
  | .download, _ => some [⟨"rocky-release-10.2-1.noarch", true, "rocky-release-10.2-1.noarch.rpm", [1, 2, 3], 7⟩]
  | .resolveLocal filenames, s => sampleAnswers.resolveLocal filenames s
  | .transact rows, s => sampleAnswers.transact rows s
  | .remains, _ => none

abbrev sampleRun : (o : Op Write Ask) → State → Reply State Answer o × State :=
  (disk sampleAnswers.conditions).answering sampleAnswer

lemma sample_within : Within sampleRun (disk sampleAnswers.conditions).semantics :=
  answering_within fun x s => by cases x <;> simp [disk, Answers.conditions, sampleAnswer]

def bare : State := ⟨["rocky-release-10.0-1.noarch"], none, none, none, none⟩

/-- What the preparation reports. -/
def samplePrepared : Prepared where
  installedStateSha256 := sampleTools.sha256 []
  downloadSize := 3
  installSize := 7
  manifestSha256 := sampleTools.sha256 []
  payloadCount := 1
  transaction := [⟨"upgrade-in", "rocky-release", "rocky-release-10.2-1.noarch", "baseos", "10.2"⟩,
    ⟨"upgrade-out", "rocky-release", "rocky-release-10.0-1.noarch", "baseos", "10.0"⟩]

/-- The host after the preparation. -/
def prepared : State := (run sampleRun (commandPrepare sampleTools samplePrepare) bare).2

def reports (r : Prepared) : Except String Prepared → Bool
  | .ok r' => r' = r
  | .error _ => false

/-- The arguments for the transaction that was reported as `r`. -/
def Prepared.args (r : Prepared) (p : Transition) : ApplyArgs := ⟨p, r.manifestSha256, r.installedStateSha256⟩


end PlatformConfig.MinorAlignment
