import PlatformConfig.StorageRows
import PlatformConfig.ExtentArithmetic

/-!
# Storage checks of the self-bootstrap preflight

The loop of the preflight over the storage rows, with its findings, its four tables by volume group
and every arithmetic expression it evaluates. A host answers the commands; what it reports of its
volume groups is a whole number of sectors below `2 ^ 60` bytes.
-/
namespace PlatformConfig.StoragePreflight

open CanonicalJson StorageRows ExtentArithmetic
open Operation (startsWith)

/-- A size that a volume manager reports. -/
structure Sectors where
  count : ℕ
  below : 512 * count < 2 ^ 60
  deriving DecidableEq

def Sectors.bytes (s : Sectors) : ℕ := 512 * s.count

/-- A reported size behind `awk` and the shell. -/
def Sectors.reported (s : Sectors) : ℤ := wrap (printed s.bytes)

structure Finding where
  passed : Bool
  check : String
  message : String
  deriving DecidableEq, Repr

def pass (check message : String) : Finding := ⟨true, check, message⟩

def fail (check message : String) : Finding := ⟨false, check, message⟩

/-- What `lsblk` says about a partition. -/
structure Partition where
  kind : String
  parent : String
  number : String

/-- The answers of the commands. A status other than zero is `none`, or stands before the output. -/
structure Host where
  rootSource : Option String
  ancestors : String → Option (List String)
  realpath : String → Option String
  rootVg : String
  isBlock : String → Bool
  diskBytes : String → Option ℕ
  topology : String → Option String
  wipefs : String → Option String
  blkid : String → ℕ × String
  lvmTools : Bool
  partition : String → Partition
  pvVg : String → String
  pvCount : String → ℕ
  vgExtent : String → Option Sectors
  exists? : String → Bool
  isLink : String → Bool
  isDirectory : String → Bool
  fstypeOf : String → String
  lvSize : String → Option Sectors
  mountTargets : String → ℕ × List String
  mountRecord : String → ℕ × Option Json
  identity : String → String
  content : String → ℕ × String

/-! ## Tables by volume group -/

abbrev Table := List (String × ℤ)

namespace Table

/-- `${table[$key]:-0}` -/
def amount (t : Table) (key : String) : ℤ := (t.lookup key).getD 0

def put (t : Table) (key : String) (n : ℤ) : Table := (key, n) :: t.filter fun p => p.1 ≠ key

def keys (t : Table) : List String := t.map Prod.fst

end Table

/-- The tables, the devices seen and the expressions evaluated so far. -/
structure Books where
  checked : List String
  extent : Table
  missing : Table
  growth : Table
  headroom : Table
  log : List Expr

def Books.empty : Books := ⟨[], [], [], [], [], []⟩

/-- `$((gib * 1024 * 1024 * 1024))` -/
def requestedBytes (gib : ℕ) : Expr :=
  .mul (.mul (.mul (.num gib) (.num 1024)) (.num 1024)) (.num 1024)

/-- `$(( (requested + extent - 1) / extent * extent ))` -/
def roundedBytes (requested extent : ℤ) : Expr :=
  .mul (.div (.sub (.add (.num requested) (.num extent)) (.num 1)) (.num extent)) (.num extent)

/-- The rounded size with the expressions behind it. -/
def rounding (gib : ℕ) (extent : ℤ) : ℤ × List Expr :=
  let requested := requestedBytes gib
  let rounded := roundedBytes requested.value extent
  if 0 < extent then (rounded.value, [requested, rounded]) else (0, [requested])

/-! ## Root and device checks -/

/-- The root source with its ancestors. -/
def rootDiscovery (host : Host) : Finding × Option (List String) :=
  match host.rootSource.filter (startsWith · "/dev/") with
  | none => (fail "storage.root-discovery"
      "root filesystem source is unavailable or not block-backed", none)
  | some source =>
    match host.ancestors source with
    | none | some [] => (fail "storage.root-discovery"
        "could not resolve the root storage ancestor chain", none)
    | some chain => (pass "storage.root-discovery" source, some chain)

/-- The root ancestors against one canonical candidate: failures, and whether the disk is taken for
the one of the root. -/
def rootAncestors (host : Host) (real : String) : List String → List Finding × Bool
  | [] => ([], false)
  | "" :: chain => rootAncestors host real chain
  | ancestor :: chain =>
    let (findings, osDisk) := rootAncestors host real chain
    match host.realpath ancestor with
    | none => (fail "storage.os-disk" s!"could not canonicalize root ancestor: {ancestor}" :: findings,
        true)
    | some root => (findings, root = real || osDisk)

def candidateAncestors (host : Host) (rootChain : List String) : List String → List Finding × Bool
  | [] => ([], false)
  | "" :: chain => candidateAncestors host rootChain chain
  | ancestor :: chain =>
    let (findings, osDisk) := candidateAncestors host rootChain chain
    match host.realpath ancestor with
    | none => (fail "storage.os-disk" s!"could not canonicalize candidate ancestor: {ancestor}" ::
        findings, true)
    | some real =>
      let (rootFindings, root) := rootAncestors host real rootChain
      (rootFindings ++ findings, root || osDisk)

/-- The checks before the first `continue` is passed: `false` skips the row. -/
def reach (host : Host) (rootChain : List String) (row : Row) : List Finding × Bool :=
  let device := row.device
  if !host.isBlock device then ([fail "storage.device" s!"not a block device: {device}"], false)
  else if !startsWith device "/dev/disk/by-id/" && !startsWith device "/dev/disk/by-path/" then
    ([fail "storage.device" s!"unstable device path: {device}"], false)
  else if (host.realpath device).isNone then
    ([fail "storage.device" s!"cannot resolve stable device: {device}"], false)
  else
    match host.ancestors device with
    | none | some [] => ([fail "storage.device"
        s!"could not resolve candidate storage ancestors: {device}"], false)
    | some chain =>
      let (findings, osDisk) := candidateAncestors host rootChain chain
      if osDisk then
        (findings ++ [fail "storage.os-disk" s!"{device} intersects the root storage stack"], false)
      else (findings ++ [pass "storage.os-disk" s!"{device} is separate from the root storage stack"],
        true)

def capacityFinding (host : Host) (row : Row) : Finding :=
  match host.diskBytes row.device with
  | none => fail "storage.capacity" s!"could not read capacity for {row.device}"
  | some bytes =>
    if row.capacityGib = 0 ∨ (requestedBytes row.capacityGib).value ≤ wrap bytes then
      pass "storage.capacity" s!"{row.device} satisfies declared capacity"
    else fail "storage.capacity" s!"{row.device} is smaller than declared capacity"

/-- A disk to be initialized is empty. -/
def newDeviceFinding (host : Host) (device : String) : Finding :=
  match host.topology device with
  | none => fail "storage.new-device" s!"could not inspect topology for {device}"
  | some topology =>
    if topology ≠ "disk" then fail "storage.new-device" s!"{device} has child block devices"
    else
      match host.wipefs device with
      | none => fail "storage.new-device" s!"wipefs could not inspect signatures on {device}"
      | some signatures =>
        if signatures.toList.any fun c => !c.isWhitespace then fail "storage.new-device"
          s!"{device} has filesystem, partition, RAID, or LVM signatures"
        else
          let (status, output) := host.blkid device
          if status = 2 ∧ output = "" then pass "storage.new-device" s!"{device} is an empty disk"
          else if status = 0 then fail "storage.new-device" s!"{device} has a blkid signature"
          else fail "storage.new-device" s!"blkid could not safely inspect {device}"

/-- The extent of the row's volume group, where its one partition is the declared one. -/
def ownedExtent (host : Host) (row : Row) : Option ℤ :=
  let part := host.partition row.pv
  let owned := (host.realpath row.pv).isSome && part.kind = "part" && part.parent ≠ "" &&
    host.realpath s!"/dev/{part.parent}" = host.realpath row.device &&
    part.number = toString row.partition && host.pvVg row.pv = row.vg && host.pvCount row.vg = 1 &&
    row.vg ≠ host.rootVg
  if owned then ((host.vgExtent row.vg).map Sectors.reported).filter fun n => 0 < n else none

/-- The layout of a device that holds data already. -/
def existingLayout (host : Host) (row : Row) : Finding × Option ℤ :=
  if row.reuse = false then
    (fail "storage.existing-layout" s!"{row.device} requires explicit reuse_existing_vg: true", none)
  else if !host.lvmTools then
    (fail "storage.existing-layout" "pvs and lvs are required to verify existing VG reuse", none)
  else if !host.isBlock row.pv then
    (fail "storage.existing-layout" s!"declared PV does not exist: {row.pv}", none)
  else
    match ownedExtent host row with
    | none => (fail "storage.existing-layout"
        "existing PV/VG ownership does not match the declared one-PV non-root layout", none)
    | some extent => (pass "storage.existing-layout"
        s!"{row.pv} is the declared partition and sole PV for non-root VG {row.vg}", some extent)

/-- What is found on a device, and the extent that is noted for the row's volume group. -/
def deviceLayout (host : Host) (row : Row) : Finding × Option ℤ :=
  if row.initializes then (newDeviceFinding host row.device, none) else existingLayout host row

def Books.note (b : Books) (vg : String) : Option ℤ → Books
  | none => b
  | some extent => { b with
      extent := b.extent.put vg extent
      headroom := b.headroom.put vg (b.headroom.amount vg) }

/-- A device is checked with the first row that names it. -/
def reviewDevice (host : Host) (b : Books) (row : Row) : List Finding × Books :=
  if row.device ∈ b.checked then ([], b)
  else
    let (finding, extent) := deviceLayout host row
    ([capacityFinding host row, finding], { b with
      checked := row.device :: b.checked
      log := b.log ++ [requestedBytes row.capacityGib] }.note row.vg extent)

/-! ## Logical volumes -/

def lvPath (row : Row) : String := s!"/dev/{row.vg}/{row.lv}"

def filesystemFinding (host : Host) (row : Row) : Finding :=
  let path := lvPath row
  let existing := host.fstypeOf path
  if row.reuse then
    if existing = row.fstype then pass "storage.logical-volume" s!"{path} has compatible filesystem state"
    else fail "storage.logical-volume"
      s!"{path} must have the declared {row.fstype} filesystem before reuse"
  else if existing = "" ∨ existing = row.fstype then
    pass "storage.logical-volume" s!"{path} has compatible filesystem state"
  else fail "storage.logical-volume" s!"{path} has {existing}, expected {row.fstype}"

/-- The rounded size before growth, which is the rounded size where none is reviewed. -/
def sourceRounding (row : Row) (extent : ℤ) : ℤ × List Expr :=
  if row.growthFromSizeGib ≠ 0 then
    if 0 < extent then rounding row.growthFromSizeGib extent else (0, [])
  else ((rounding row.sizeGib extent).1, [])

/-- `current + rounded - size` -/
def grownBytes (current rounded size : ℤ) : Expr := .sub (.add (.num current) (.num rounded)) (.num size)

/-- The size of an existing volume of a reused volume group. -/
def reviewSize (host : Host) (b : Books) (row : Row) : List Finding × Books :=
  if row.reuse then
    let path := lvPath row
    let extent := b.extent.amount row.vg
    let (rounded, log) := rounding row.sizeGib extent
    let (source, sourceLog) := sourceRounding row extent
    let b := { b with log := b.log ++ log ++ sourceLog }
    let refused := ([fail "storage.logical-volume-size"
      s!"{path} does not match the extent-rounded reviewed source or target size"], b)
    match (host.lvSize path).map Sectors.reported with
    | none => refused
    | some size =>
      if 0 < rounded ∧ (size = source ∨ size = rounded) then
        let finding := pass "storage.logical-volume-size"
          s!"{path} matches the extent-rounded reviewed source or target size"
        if size = source ∧ source < rounded then
          let grown := grownBytes (b.growth.amount row.vg) rounded size
          ([finding], { b with
            growth := b.growth.put row.vg grown.value
            log := b.log ++ [grown] })
        else ([finding], b)
      else refused
  else ([], b)

/-- The record that `findmnt` shows is the volume's own filesystem, mounted from its root. -/
def identityMatches (target filesystem identity : String) (document : Option Json) : Bool :=
  match document.bind (·.get? "filesystems") with
  | some (.arr [record]) => hasText (getD record "target" .null) target &&
      hasText (getD record "fstype" .null) filesystem && hasText (getD record "fsroot" .null) "/" &&
      hasText (getD record "maj:min" .null) identity
  | _ => false

/-- Where an existing volume is mounted, and whether this is its own mountpoint. -/
def reviewMounts (host : Host) (row : Row) : List Finding × Bool :=
  let path := lvPath row
  let (mountStatus, targets) := host.mountTargets path
  let (recordStatus, record) := host.mountRecord row.mountpoint
  let matching := recordStatus = 0 && identityMatches row.mountpoint row.fstype (host.identity path) record
  let record := if matching then []
    else if recordStatus = 0 then [fail "storage.logical-volume-mounts"
      s!"{row.mountpoint} is mounted from an unexpected filesystem root or block device"]
    else if recordStatus ≠ 1 then [fail "storage.logical-volume-mounts"
      s!"could not inspect exact mountpoint {row.mountpoint}"]
    else []
  let only := targets ≠ [] && targets.all (fun t => t = row.mountpoint || t = "") &&
    targets.count row.mountpoint = 1 && matching
  if row.growthFromSizeGib ≠ 0 then
    if mountStatus = 0 && only then (record ++ [pass "storage.logical-volume-mounts"
      s!"{path} is mounted only at {row.mountpoint} as required for growth"], true)
    else (record ++ [fail "storage.logical-volume-mounts"
      s!"{path} must be mounted only at {row.mountpoint} for reviewed growth"], false)
  else if mountStatus = 1 ∧ recordStatus = 1 then
    (record ++ [pass "storage.logical-volume-mounts" s!"{path} is unmounted"], false)
  else if mountStatus ≠ 0 then
    (record ++ [fail "storage.logical-volume-mounts" s!"could not inspect mount targets for {path}"], false)
  else if only then (record ++ [pass "storage.logical-volume-mounts"
    s!"{path} is mounted only at {row.mountpoint}"], true)
  else (record ++ [fail "storage.logical-volume-mounts"
    s!"{path} is mounted outside {row.mountpoint}"], false)

/-- The allocation of a missing volume of a reused volume group. -/
def reviewMissing (b : Books) (row : Row) : List Finding × Books :=
  if row.reuse ∧ row.growthFromSizeGib = 0 then
    let extent := b.extent.amount row.vg
    let (rounded, log) := rounding row.sizeGib extent
    if 0 < extent then
      let total := Expr.add (.num (b.missing.amount row.vg)) (.num rounded)
      ([], { b with
        missing := b.missing.put row.vg total.value
        log := b.log ++ log ++ [total] })
    else ([fail "storage.logical-volume-size"
      "cannot calculate missing LV allocation without a valid VG extent"], { b with log := b.log ++ log })
  else ([], b)

def missingFinding (row : Row) : Finding :=
  if row.growthFromSizeGib ≠ 0 then
    fail "storage.logical-volume" s!"{lvPath row} must already exist for reviewed growth"
  else pass "storage.logical-volume" s!"{lvPath row} will be created"

/-- The volume of a row, and whether it is mounted where it belongs. -/
def reviewVolume (host : Host) (b : Books) (row : Row) : List Finding × Books × Bool :=
  if host.exists? (lvPath row) then
    let (sizes, b) := reviewSize host b row
    let (mounts, active) := reviewMounts host row
    (filesystemFinding host row :: sizes ++ mounts, b, active)
  else
    let (findings, b) := reviewMissing b row
    (missingFinding row :: findings, b, false)

/-- The largest required free space of a volume group. -/
def reviewHeadroom (b : Books) (row : Row) : Books :=
  if row.reuse then
    let required := requestedBytes row.requiredFreeGib
    let current := b.headroom.amount row.vg
    { b with
      headroom := b.headroom.put row.vg (if current < required.value then required.value else current)
      log := b.log ++ [required] }
  else b

def mountpointFinding (host : Host) (row : Row) (active : Bool) : Finding :=
  let mountpoint := row.mountpoint
  if !host.exists? mountpoint && !host.isLink mountpoint then
    pass "storage.mountpoint" s!"{mountpoint} is absent"
  else if host.isLink mountpoint || !host.isDirectory mountpoint then
    fail "storage.mountpoint" s!"{mountpoint} exists but is not a safe directory"
  else if active then
    pass "storage.mountpoint" s!"{mountpoint} content is on the intended logical volume"
  else
    let (status, content) := host.content mountpoint
    if status ≠ 0 then fail "storage.mountpoint" s!"could not inspect {mountpoint}"
    else if content ≠ "" then fail "storage.mountpoint" s!"{mountpoint} is not empty"
    else pass "storage.mountpoint" s!"{mountpoint} is empty"

/-! ## The loop -/

/-- One pass of the loop. -/
def reviewRow (host : Host) (rootChain : List String) (b : Books) (row : Row) : List Finding × Books :=
  let (reached, goesOn) := reach host rootChain row
  if goesOn then
    let (device, b) := reviewDevice host b row
    let (volume, b, active) := reviewVolume host b row
    (reached ++ device ++ volume ++ [mountpointFinding host row active], reviewHeadroom b row)
  else (reached, b)

def reviewRows (host : Host) (rootChain : List String) :
    Books → List Row → List (Row × List Finding) × Books
  | b, [] => ([], b)
  | b, row :: rows =>
    let (findings, b) := reviewRow host rootChain b row
    let (rest, b) := reviewRows host rootChain b rows
    ((row, findings) :: rest, b)

/-- What the free space of a volume group has to hold. -/
def requiredBytes (b : Books) (vg : String) : Expr :=
  .add (.add (.num (b.missing.amount vg)) (.num (b.growth.amount vg))) (.num (b.headroom.amount vg))

def headroomFinding (free : String → Option Sectors) (b : Books) (vg : String) : Finding :=
  let refused := fail "storage.vg-headroom"
    s!"{vg} lacks declared free space, missing-LV allocation, and growth headroom"
  match (free vg).map Sectors.reported with
  | none => refused
  | some bytes =>
    if (requiredBytes b vg).value ≤ bytes then pass "storage.vg-headroom" s!"{vg} has required free space"
    else refused

/-- The findings on the root, on each row and on each volume group, and the expressions evaluated. -/
structure Report where
  root : Finding
  rows : List (Row × List Finding)
  groups : List (String × Finding)
  log : List Expr

/-- The storage checks of a host with valid rows. Without the root source no row is looked at. -/
def review (host : Host) (free : String → Option Sectors) (rows : List Row) : Report :=
  let (root, chain) := rootDiscovery host
  let (findings, b) := (chain.map fun c => reviewRows host c .empty rows).getD ([], .empty)
  ⟨root, findings, b.headroom.keys.map fun vg => (vg, headroomFinding free b vg),
    b.log ++ b.headroom.keys.map (requiredBytes b)⟩

end PlatformConfig.StoragePreflight
