import PlatformConfig.CanonicalJson
import PlatformConfig.OperationSummary

/-!
# Storage rows of the self-bootstrap preflight

The validator embedded in the preflight reads the storage volumes and layouts of the selected
inventory host and prints one row for each volume. Whatever it refuses ends in the same status, so
a refusal is `none` here. An accepted row carries its bounds.
-/
namespace PlatformConfig.StorageRows

open CanonicalJson
open Operation (startsWith)

/-- One volume with what its layout adds. -/
structure Row where
  device : String
  initializes : Bool
  mountpoint : String
  reuse : Bool
  vg : String
  lv : String
  pv : String
  fstype : String
  capacityGib : ℕ
  sizeGib : ℕ
  requiredFreeGib : ℕ
  partition : ℕ
  growthFromSizeGib : ℕ
  capacity_le : capacityGib ≤ 1000000
  size_pos : 0 < sizeGib
  size_le : sizeGib + requiredFreeGib ≤ capacityGib
  growth_lt : growthFromSizeGib = 0 ∨ growthFromSizeGib < sizeGib ∧ reuse = true
  deriving DecidableEq

def isObject : Json → Bool
  | .obj _ => true
  | _ => false

/-- `j.get(key, default)` -/
def getD (j : Json) (key : String) (default : Json) : Json := (j.get? key).getD default

def bool? : Json → Option Bool
  | .bool b => some b
  | _ => none

def hasText (j : Json) (s : String) : Bool :=
  match j with
  | .str t => t = s
  | _ => false

/-- A string that can stand in a tab-separated row. -/
def cell? (j : Json) : Option String :=
  j.str?.filter fun s => s ≠ "" && s.toList.all fun c => c ≠ '\t' && c ≠ '\n' && c ≠ '\r'

/-- `^/dev/disk/by-(id|path)/.+` -/
def isStable (s : String) : Bool :=
  (startsWith s "/dev/disk/by-id/" && s ≠ "/dev/disk/by-id/") ||
    (startsWith s "/dev/disk/by-path/" && s ≠ "/dev/disk/by-path/")

/-- An integer from 0 to 1000000. -/
def gib? (j : Json) : Option ℕ :=
  (j.int?.filter fun n => 0 ≤ n ∧ n ≤ 1000000).map Int.toNat

def layoutName (layout : Json) : Option String := (layout.get? "name").bind Json.str?

/-- The capacity of one layout holds the volumes that name it and the required free space. -/
def checkLayout (volumes : List Json) (layout : Json) (name : String) : Option Unit := do
  let capacity ← (getD layout "capacity_gib" (.int 0)).int?
  let requiredFree ← (getD layout "required_free_gib" (.int 0)).int?
  let requested := volumes.filter fun v => isObject v && hasText (getD v "layout" .null) name
  let sizes ← requested.mapM fun v => (getD v "size_gib" (.int 0)).int?
  guard (requested.isEmpty = false ∧ 0 < capacity ∧ 0 ≤ requiredFree)
  guard ((∀ size ∈ sizes, 0 < size) ∧ sizes.sum + requiredFree ≤ capacity)

/-- The row of one volume. -/
def volumeRow (layoutMap : List (String × Json)) (volume : Json) : Option Row := do
  guard (isObject volume)
  let name ← (volume.get? "layout").bind Json.str?
  let layout ← layoutMap.lookup name
  let device ← cell? (getD volume "device" (getD layout "device" (.str "")))
  let mountpoint ← cell? (getD volume "mountpoint" (.str ""))
  let vg ← cell? (getD volume "vg_name" (getD layout "vg_name" (.str "")))
  let lv ← cell? (getD volume "lv_name" (.str ""))
  let initializes ← bool? (getD volume "initialize" (getD layout "initialize" (.bool false)))
  let reuse ← bool? (getD layout "reuse_existing_vg" (.bool false))
  let partition ← (getD volume "partition_number" (getD layout "partition_number" (.int 1))).int?
  let pv ← cell? (getD volume "pv_device"
    (getD layout "pv_device" (.str s!"{device}-part{partition}")))
  let fstype ← cell? (getD volume "fstype" (.str "xfs"))
  let capacity ← gib? (getD layout "capacity_gib" (.int 0))
  let size ← gib? (getD volume "size_gib" (.int 0))
  let growthFrom ← gib? (getD volume "grow_from_size_gib" (.int 0))
  let requiredFree ← gib? (getD layout "required_free_gib" (.int 0))
  guard (isStable device && isStable pv && startsWith mountpoint "/" && 0 < partition)
  guard (growthFrom = 0 ∨ ((layout.get? "initialize").bind bool? = some false ∧
    (volume.get? "lv_size").isNone ∧ fstype = "xfs" ∧
      hasText (getD volume "state" (.str "mounted")) "mounted"))
  if h : capacity ≤ 1000000 ∧ 0 < size ∧ size + requiredFree ≤ capacity ∧
      (growthFrom = 0 ∨ growthFrom < size ∧ reuse = true) then
    some ⟨device, initializes, mountpoint, reuse, vg, lv, pv, fstype, capacity, size, requiredFree,
      partition.toNat, growthFrom, h.1, h.2.1, h.2.2.1, h.2.2.2⟩
  else none

def listOf : Json → Option (List Json)
  | .arr xs => some xs
  | _ => none

/-- The rows that the validator prints, unless it ends with status 1. A later layout hides an
earlier one of its name. -/
def storageRows (selected : Json) : Option (List Row) := do
  let volumes ← listOf (getD selected "storage_volumes" (.arr []))
  let layouts ← listOf (getD selected "storage_layouts" (.arr []))
  guard (volumes.isEmpty = false)
  let names ← layouts.mapM layoutName
  let layoutMap := names.zip layouts
  layoutMap.forM fun p => checkLayout volumes p.2 p.1
  volumes.mapM (volumeRow layoutMap.reverse)

end PlatformConfig.StorageRows
