import PlatformConfig.GroupHosts
import Mathlib.Data.Finset.Sort

/-!
# The scope of a transport operation

`command_hosts` resolves the hosts of an operation from an inventory and a snapshot of the
controller's variables, with a branch for each family of operations. The exact value of a float is
a parameter; it matters only where members of a cluster are compared.
-/
namespace PlatformConfig.TransportScope

open CanonicalJson Operation GroupHosts

/-- `[A-Za-z0-9][A-Za-z0-9_.-]{0,254}` -/
def isLiteral (s : String) : Bool :=
  match s.toList with
  | [] => false
  | c :: cs => c.isAlphanum && cs.length ≤ 254 &&
      cs.all fun c => c.isAlphanum || c = '_' || c = '.' || c = '-'

section Equality
variable (value : FloatText → ℚ)

def number? : Json → Option ℚ
  | .bool b => some (if b then 1 else 0)
  | .int n => some n
  | .float t => some (value t)
  | _ => none

mutual

/-- `==` -/
def equal : Json → Json → Bool
  | .null, .null => true
  | .str s, .str t => s = t
  | .arr xs, .arr ys => equalAll xs ys
  | .obj fields, .obj others => fields.length = others.length && equalFields fields others
  | x, y => (number? value x).any fun m => (number? value y).any fun n => m = n

def equalAll : List Json → List Json → Bool
  | [], [] => true
  | x :: xs, y :: ys => equal x y && equalAll xs ys
  | _, _ => false

def equalFields : List (String × Json) → List (String × Json) → Bool
  | [], _ => true
  | (key, x) :: fields, others => (others.lookup key).any (equal x) && equalFields fields others

end

end Equality

section ControllerVars

mutual

/-- No object at any depth has a key twice. -/
def noDuplicates : Json → Bool
  | .arr xs => noDuplicatesAll xs
  | .obj fields => (fields.map Prod.fst).Nodup && noDuplicatesFields fields
  | _ => true

def noDuplicatesAll : List Json → Bool
  | [] => true
  | x :: xs => noDuplicates x && noDuplicatesAll xs

def noDuplicatesFields : List (String × Json) → Bool
  | [] => true
  | (_, x) :: fields => noDuplicates x && noDuplicatesFields fields

end

def nullFields : List String := ["ansible_become_password", "ansible_become_pass", "ansible_sudo_pass",
  "ansible_su_pass", "ansible_private_key", "ansible_password", "ansible_ssh_pass"]

def fixedFields : List (String × String) := [("ansible_ssh_password_mechanism", "disable"),
  ("ansible_ssh_pkcs11_provider", ""), ("ansible_ssh_common_args", ""), ("ansible_ssh_extra_args", ""),
  ("ansible_ssh_private_key_file", "\x7b\x7b platform_ci_ssh_private_key_files[inventory_hostname] \x7d\x7d")]

def keyFiles : String := "platform_ci_ssh_private_key_files"

/-- `literal` -/
def literal (v : Json) : Option String :=
  (textOf v 8192).filter fun text =>
    ["\x7b\x7b", "\x7b%", "\x7b#"].all fun marker => !(marker.toList <:+: text.toList)

def isAbsolute (v : Json) : Bool := (literal v).any (startsWith · "/")

/-- One variable of the snapshot. -/
def checkVar (address : String → Bool) (key : String) (v : Json) : Bool :=
  if key ∈ nullFields then v matches .null
  else match fixedFields.lookup key with
    | some text => v.str? = some text
    | none =>
      if key = keyFiles then
        match v with
        | .obj files => files ≠ [] && files.all fun file =>
            safeHost address file.1 && isLiteral file.1 && isAbsolute file.2
        | _ => false
      else if key = "ansible_ssh_executable" then isAbsolute v
      else (literal v).isSome

/-- `transport_controller_vars` -/
def transportControllerVars (address : String → Bool) (snapshot : Json) : Option (List (String × Json)) :=
  match snapshot with
  | .obj values =>
    let allowed := nullFields ++ fixedFields.map Prod.fst ++ [keyFiles, "ansible_ssh_executable", "ansible_ssh_args"]
    if noDuplicates snapshot && values.all (fun v => v.1 ∈ allowed && checkVar address v.1 v.2) &&
        ((values.lookup "ansible_ssh_private_key_file").isNone || (values.lookup keyFiles).isSome)
    then some values else none
  | _ => none

end ControllerVars

/-- The arguments of `command_hosts` besides the inventory. -/
structure Args where
  operation : String
  node : Option String
  controllerVars : Option Json

section Hosts
variable (address : String → Bool) (value : FloatText → ℚ) (inventory : Inventory)

abbrev Records := List (String × String)

/-- The union of some groups. -/
def unionHosts (groups : List String) : Option (Finset String) := do
  let all ← groups.mapM (groupHosts address inventory)
  return all.foldr (· ∪ ·) ∅

/-- `metadata.get("hostvars", {})` of the `_meta` mapping -/
def hostvars : Json :=
  match inventory.lookup "_meta" with
  | some (.obj metadata) => (metadata.lookup "hostvars").getD (.obj [])
  | _ => .obj []

/-- The variables of a host, where they are a mapping. -/
def hostValues (host : String) : Option (List (String × Json)) :=
  match (hostvars inventory).get? host with
  | some (.obj values) => some values
  | _ => none

/-- Declared storage volumes of a host, and no foreign type of layouts. -/
def storageVolumes (values : List (String × Json)) : Option (List Json) :=
  match values.lookup "storage_volumes", listField values "storage_volume_layouts" with
  | some (.arr (volume :: volumes)), some _ => some (volume :: volumes)
  | _, _ => none

/-- Every volume is a mapping whose state is `mounted`. -/
def mounted (values : List (String × Json)) (volumes : List Json) : Bool :=
  let default := (values.lookup "storage_volume_default_mount_state").getD (.str "mounted")
  volumes.all fun volume =>
    match volume with
    | .obj fields => ((fields.lookup "state").getD default).str? = some "mounted"
    | _ => false

/-- A selection is covered by the per-host keys, where the snapshot declares them. -/
def covered (selected : Finset String) (values : List (String × Json)) : Bool :=
  match values.lookup keyFiles with
  | some files => selected ⊆ ((files.keys?).getD []).toFinset
  | none => true

/-- A literal host name that is no group of the inventory. -/
def isHostName (host : String) : Bool := isLiteral host && (inventory.lookup host).isNone

def storageScope (operation : String) (values : List (String × Json)) : Option Unit := do
  let volumes ← storageVolumes values
  guard (operation ≠ "openbao-storage-apply" ∧ operation ≠ "storage-apply" ∨ mounted values volumes = true)

def openbaoStorageHosts (args : Args) : Option Records := do
  let selected ← groupHosts address inventory "openbao_storage"
  let excluded ← unionHosts address inventory ["rke2_cluster", "rke2_servers", "rke2_agents", "rocky",
    "container_hosts", "openbao"]
  let volumeHosts ← groupHosts address inventory "storage_volume_hosts"
  let node ← args.node
  guard (selected.card = 3 ∧ selected ∩ excluded = ∅ ∧ selected ⊆ volumeHosts ∧ node ∈ selected)
  guard ((hostvars inventory).keys?.isSome)
  (selected.sort (· ≤ ·)).forM fun host => do
    guard (isHostName inventory host ∧ host ∉ ["all", "ungrouped"] ∧ safeHost address host)
    storageScope args.operation (← hostValues inventory host)
  return [(node, "openbao-storage")]

def storageHosts (args : Args) : Option Records := do
  let node ← args.node
  guard (isHostName inventory node)
  let cluster ← groupHosts address inventory "rke2_cluster"
  let volumeHosts ← groupHosts address inventory "storage_volume_hosts"
  guard (node ∈ cluster ∧ node ∈ volumeHosts ∧ safeHost address node)
  let servers ← groupHosts address inventory "rke2_servers"
  let agents ← groupHosts address inventory "rke2_agents"
  guard (¬(node ∈ servers ↔ node ∈ agents))
  storageScope args.operation (← hostValues inventory node)
  return [(node, if node ∈ servers then "server" else "agent")]

/-- What the storage operations require of the declared volumes of the registry host. -/
def registryStorage (operation : String) (registry : Finset String) : Option Unit :=
  if startsWith operation "registry-storage-" then
    (registry.sort (· ≤ ·)).forM fun host => do
      let values ← hostValues inventory host
      let volumes ← storageVolumes values
      guard (volumes.all (·.keys?.isSome) = true ∧
        (operation ≠ "registry-storage-apply" ∨ mounted values volumes = true))
  else some ()

/-- The snapshot of the controller's variables, where it covers the selected hosts. -/
def transportVars (args : Args) (selected : Finset String) : Option Unit := do
  let values ← transportControllerVars address (← args.controllerVars)
  guard (covered selected values)

def needsClients (operation : String) : Bool :=
  startsWith operation "registry-clients-" || startsWith operation "registry-smoke"

/-- The hosts of a registry operation: the registry, its clients or both. -/
def registrySelected (operation : String) (registry clients : Finset String) : Finset String :=
  if startsWith operation "registry-clients-" then clients
  else if needsClients operation then registry ∪ clients else registry

def registryHosts (args : Args) : Option Records := do
  let registry ← groupHosts address inventory "registry"
  let clients ← groupHosts address inventory "registry_clients"
  let others ← unionHosts address inventory ["gitlab_runners", "rke2_cluster", "rke2_servers",
    "rke2_agents", "openbao"]
  let rocky ← groupHosts address inventory "rocky"
  let containerHosts ← groupHosts address inventory "container_hosts"
  let volumeHosts ← groupHosts address inventory "storage_volume_hosts"
  guard (registry.card = 1 ∧ registry ∩ (clients ∪ others) = ∅ ∧ registry ⊆ rocky ∧
    registry ⊆ containerHosts ∧ registry ⊆ volumeHosts)
  guard (needsClients args.operation = true → clients ≠ ∅)
  let selected := registrySelected args.operation registry clients
  guard (∀ host ∈ selected ∪ registry, isHostName inventory host ∧ host ∉ ["all", "ungrouped"] ∧
    safeHost address host)
  registryStorage inventory args.operation registry
  transportVars address args selected
  return (selected.sort (· ≤ ·)).map fun host =>
    (host, if host ∈ registry then "registry" else "registry-client")

/-- The names of the members of a cluster. -/
def memberNames (members : List Json) : Option (List String) :=
  members.mapM fun member => (member.get? "name").bind Json.str?

/-- Every host declares the same three members, which are the selected hosts. -/
def sameMembers (selected : List String) : Option (List Json) → List String → Option Unit
  | _, [] => some ()
  | canonical, host :: hosts => do
    let values ← hostValues inventory host
    match values.lookup "openbao_cluster_members" with
    | some (.arr members) =>
      let names ← memberNames members
      guard (members.length = 3 ∧ names.mergeSort (· ≤ ·) = selected ∧
        canonical.all (fun declared => equalAll value members declared) = true)
      sameMembers selected (some members) hosts
    | _ => none

/-- What the initial operations require of the declared members. -/
def initialMembers (operation : String) (selected : Finset String) : Option Unit :=
  if operation ∈ openbaoInitialOperations then do
    guard ((hostvars inventory).keys?.isSome)
    sameMembers value inventory (selected.sort (· ≤ ·)) none (selected.sort (· ≤ ·))
  else some ()

/-- The PKI operations are for one of the selected hosts. -/
def requested (args : Args) (selected : Finset String) : Option (Finset String) :=
  if args.operation ∈ openbaoPkiOperations then (args.node.filter (· ∈ selected)).map singleton
  else some selected

def preparedOpenbaoHosts (args : Args) (selected : Finset String) : Option (Finset String) := do
  let excluded ← unionHosts address inventory ["rke2_cluster", "rke2_servers", "rke2_agents", "registry",
    "registry_clients", "gitlab", "gitlab_runners", "monitoring", "bastion", "k8s_bastion",
    "load_balancers", "haproxy", "openbao_storage"]
  let rocky ← groupHosts address inventory "rocky"
  guard (selected.card = 3 ∧ selected ∩ excluded = ∅ ∧ selected ⊆ rocky)
  guard (∀ host ∈ selected, isHostName inventory host ∧ ¬host.toList.all (fun c => c.isDigit || c = '.'))
  initialMembers value inventory args.operation selected
  let selected ← requested args selected
  transportVars address args selected
  return selected

def openbaoHosts (args : Args) : Option Records := do
  let selected ← groupHosts address inventory "openbao"
  let selected ← if args.operation ∈ openbaoPreparationOperations ++ openbaoInitialOperations
    then preparedOpenbaoHosts address value inventory args selected else some selected
  return (selected.sort (· ≤ ·)).map fun host => (host, "openbao")

/-- What a transport operation requires of the cluster. -/
def rke2Transport (args : Args) (selected servers agents : Finset String) : Option Unit :=
  if args.operation ∈ transportOperations then do
    guard (servers ≠ ∅ ∧ selected ≠ ∅ ∧ servers ∩ agents = ∅ ∧ selected = servers ∪ agents)
    guard (∀ host ∈ selected, isHostName inventory host)
    transportVars address args selected
  else some ()

def rke2Hosts (args : Args) : Option Records := do
  let selected ← groupHosts address inventory "rke2_cluster"
  let servers ← groupHosts address inventory "rke2_servers"
  let agents ← groupHosts address inventory "rke2_agents"
  rke2Transport address inventory args selected servers agents
  return (selected.sort (· ≤ ·)).map fun host =>
    (host, if host ∈ servers ↔ host ∈ agents then "N/A" else if host ∈ servers then "server" else "agent")

/-- `command_hosts` -/
def commandHosts (args : Args) : Option Records :=
  if !(safeText args.operation 64 && (operations.lookup args.operation).isSome) then none
  else if args.operation ∈ openbaoStorageOperations then openbaoStorageHosts address inventory args
  else if args.operation ∈ ["storage-check", "storage-apply"] then storageHosts address inventory args
  else if args.node.isSome && args.operation ∉ openbaoPkiOperations then none
  else if args.operation ∈ registryOperations then registryHosts address inventory args
  else if args.operation ∈ openbaoOperations then openbaoHosts address value inventory args
  else rke2Hosts address inventory args

/-- `command_registry_limit` -/
def commandRegistryLimit (log : Log) : Option (List Char) := do
  let (hosts, _) ← parseRecords address log
  guard (log.operation ∈ registryOperations ∧ hosts ≠ [])
  return [','].intercalate (((hosts.map Prod.fst).mergeSort (· ≤ ·)).map String.toList)

end Hosts

end PlatformConfig.TransportScope
