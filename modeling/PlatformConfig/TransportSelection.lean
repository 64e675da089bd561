import PlatformConfig.TransportScope
import PlatformConfig.OperationVerdict

/-!
# What a resolved scope contains

Every host that `command_hosts` records for a transport operation is a literal host name of the
operation's group with its role and its key, the record is complete, and the limit that is joined
from it selects exactly these hosts.
-/
namespace PlatformConfig.TransportScope

open CanonicalJson Operation GroupHosts

section Scope
variable (address : String → Bool) (inventory : Inventory)

/-- A host of a group, directly or through its children. -/
def InGroup (group host : String) : Prop :=
  ∃ g, Reaches inventory group g ∧ Lists address inventory g host

def storageOperations : List String := ["storage-check", "storage-apply"]

/-- The operations on one requested node. -/
def singleOperations : List String := openbaoStorageOperations ++ storageOperations ++ openbaoPkiOperations

/-- The operations whose hosts are contacted with the transport of the snapshot, or storage. -/
def scopedOperations : List String := registryOperations ++ openbaoPreparationOperations ++
  openbaoInitialOperations ++ openbaoStorageOperations ++ storageOperations ++
  aliasOperations ++ ["rke2-deployment-runners-smoke"]

/-- The groups that an operation is for. -/
def scopeGroups (operation : String) : List String :=
  if operation ∈ openbaoStorageOperations then ["openbao_storage"]
  else if operation ∈ storageOperations then ["rke2_cluster"]
  else if operation ∈ registryOperations then
    if startsWith operation "registry-clients-" then ["registry_clients"]
    else if startsWith operation "registry-smoke" then ["registry", "registry_clients"]
    else ["registry"]
  else if operation ∈ openbaoOperations then ["openbao"]
  else ["rke2_cluster"]

def InScope (operation host : String) : Prop := ∃ g ∈ scopeGroups operation, InGroup address inventory g host

/-- The groups that an operation excludes. -/
def excludedGroups (operation : String) : List String :=
  if operation ∈ openbaoStorageOperations then
    ["rke2_cluster", "rke2_servers", "rke2_agents", "rocky", "container_hosts", "openbao"]
  else if operation ∈ registryOperations then
    ["registry_clients", "gitlab_runners", "rke2_cluster", "rke2_servers", "rke2_agents", "openbao"]
  else if operation ∈ openbaoPreparationOperations ++ openbaoInitialOperations then
    ["rke2_cluster", "rke2_servers", "rke2_agents", "registry", "registry_clients", "gitlab",
      "gitlab_runners", "monitoring", "bastion", "k8s_bastion", "load_balancers", "haproxy",
      "openbao_storage"]
  else []

/-- The role of a host by its groups. -/
def RoleOf (operation host role : String) : Prop :=
  if operation ∈ openbaoStorageOperations then role = "openbao-storage"
  else if operation ∈ registryOperations then
    role = "registry" ∧ InGroup address inventory "registry" host ∨
      role = "registry-client" ∧ InGroup address inventory "registry_clients" host ∧
        ¬InGroup address inventory "registry" host
  else if operation ∈ openbaoOperations then role = "openbao"
  else role = "server" ∧ InGroup address inventory "rke2_servers" host ∧
      ¬InGroup address inventory "rke2_agents" host ∨
    role = "agent" ∧ InGroup address inventory "rke2_agents" host ∧
      ¬InGroup address inventory "rke2_servers" host

/-- What holds of a recorded host. -/
structure Vetted (args : Args) (r : String × String) : Prop where
  selected : InScope address inventory args.operation r.1
  excluded : r.2 ≠ "registry-client" → ∀ g ∈ excludedGroups args.operation, ¬InGroup address inventory g r.1
  literal : isLiteral r.1 = true
  named : address r.1 = false
  apart : inventory.lookup r.1 = none
  keyed : args.operation ∉ openbaoStorageOperations ++ storageOperations → ∀ values files,
    args.controllerVars = some (.obj values) → values.lookup keyFiles = some (.obj files) →
    r.1 ∈ files.map Prod.fst
  role : RoleOf address inventory args.operation r.1 r.2

/-- What holds of the recorded hosts together. -/
structure Selection (args : Args) (records : Records) : Prop where
  some_ : records ≠ []
  each : ∀ r ∈ records, Vetted address inventory args r
  sorted : (records.map Prod.fst).Pairwise (· < ·)
  node : args.operation ∈ singleOperations → ∃ node, args.node = some node ∧ records.map Prod.fst = [node]
  group : args.operation ∉ singleOperations →
    ∀ host, host ∈ records.map Prod.fst ↔ InScope address inventory args.operation host

/-- How a limit is read: names joined by commas, each of a group or else of a host. -/
def Selects (limit : List Char) (host : String) : Prop :=
  ∃ part ∈ limit.splitOn ',', if (inventory.lookup (String.ofList part)).isSome
    then InGroup address inventory (String.ofList part) host else host = String.ofList part

end Scope

/-! ## The tables of operations -/

/-- The tables that filter another one, written out; the kernel evaluates them together. -/
lemma tables_eq :
    registryOperations = ["registry-host-plan", "registry-host-apply", "registry-storage-plan",
      "registry-storage-apply", "registry-stage-plan", "registry-stage-apply", "registry-clients-plan",
      "registry-clients-apply", "registry-pki-request-plan", "registry-pki-request",
      "registry-pki-activate-plan", "registry-pki-activate", "registry-smoke-plan", "registry-smoke"] ∧
    openbaoPkiOperations = ["openbao-pki-request-plan", "openbao-pki-request",
      "openbao-pki-activate-plan", "openbao-pki-activate"] ∧
    openbaoInitialOperations = ["openbao-pki-request-plan", "openbao-pki-request",
      "openbao-pki-activate-plan", "openbao-pki-activate", "openbao-bootstrap-start",
      "openbao-bootstrap-complete-plan", "openbao-bootstrap-complete"] ∧
    openbaoOperations = openbaoInitialOperations ++ openbaoPreparationOperations ++
      ["openbao-status", "openbao-haproxy-plan", "openbao-haproxy-activate", "openbao-keepalived-plan",
        "openbao-keepalived-activate", "openbao-smoke", "openbao-vip-smoke", "openbao-haproxy-failover-plan",
        "openbao-haproxy-failover", "openbao-haproxy-failover-recover", "openbao-restart-plan",
        "openbao-converge-plan", "openbao-restart", "openbao-deploy"] := by
  decide +kernel

/-- No operation of one family stands in the table of another. -/
lemma families_apart :
    (∀ operation ∈ registryOperations, operation ∉ openbaoStorageOperations ∧
      operation ∉ storageOperations ∧ operation ∉ singleOperations ∧ safeText operation 64 = true) ∧
    (∀ operation ∈ storageOperations, operation ∉ registryOperations ∧
      operation ∉ openbaoOperations ∧ operation ∉ openbaoPreparationOperations ++ openbaoInitialOperations) ∧
    (∀ operation ∈ openbaoPreparationOperations ++ openbaoInitialOperations,
      operation ∉ openbaoStorageOperations ∧ operation ∉ storageOperations ∧
      operation ∉ registryOperations ∧ operation ∈ openbaoOperations) ∧
    (∀ operation ∈ aliasOperations ++ ["rke2-deployment-runners-smoke"],
      operation ∉ openbaoStorageOperations ∧ operation ∉ storageOperations ∧
      operation ∉ registryOperations ∧ operation ∉ openbaoOperations ∧
      operation ∉ openbaoPreparationOperations ++ openbaoInitialOperations ∧
      operation ∉ singleOperations ∧ operation ∈ transportOperations) := by
  obtain ⟨registry, pki, initial, openbao⟩ := tables_eq
  simp only [singleOperations, transportOperations, preparedOperations, registry, openbao, pki, initial]
  decide +kernel

lemma registry_apart : ∀ operation ∈ registryOperations, operation ∉ openbaoStorageOperations ∧
    operation ∉ storageOperations ∧ operation ∉ singleOperations ∧ safeText operation 64 = true :=
  families_apart.1

lemma storage_apart : ∀ operation ∈ storageOperations, operation ∉ registryOperations ∧
    operation ∉ openbaoOperations ∧ operation ∉ openbaoPreparationOperations ++ openbaoInitialOperations :=
  families_apart.2.1

lemma prepared_apart : ∀ operation ∈ openbaoPreparationOperations ++ openbaoInitialOperations,
    operation ∉ openbaoStorageOperations ∧ operation ∉ storageOperations ∧
    operation ∉ registryOperations ∧ operation ∈ openbaoOperations :=
  families_apart.2.2.1

lemma rke2_apart : ∀ operation ∈ aliasOperations ++ ["rke2-deployment-runners-smoke"],
    operation ∉ openbaoStorageOperations ∧ operation ∉ storageOperations ∧
    operation ∉ registryOperations ∧ operation ∉ openbaoOperations ∧
    operation ∉ openbaoPreparationOperations ++ openbaoInitialOperations ∧
    operation ∉ singleOperations ∧ operation ∈ transportOperations :=
  families_apart.2.2.2

variable {address : String → Bool} {value : FloatText → ℚ} {inventory : Inventory} {args : Args}
  {records : Records}

lemma mem_groupHosts {group host : String} {hosts : Finset String}
    (expanded : groupHosts address inventory group = some hosts) :
    host ∈ hosts ↔ InGroup address inventory group host :=
  (group_hosts_exact address inventory group).2 hosts expanded host

lemma mem_unionHosts {groups : List String} {host : String} {hosts : Finset String}
    (expanded : unionHosts address inventory groups = some hosts) :
    host ∈ hosts ↔ ∃ g ∈ groups, InGroup address inventory g host := by
  obtain ⟨all, each, union⟩ := Option.bind_eq_some_iff.mp expanded
  cases union
  clear expanded
  induction groups generalizing all with
  | nil =>
    cases each
    simp
  | cons group groups ih =>
    obtain ⟨first, head, each⟩ := Option.bind_eq_some_iff.mp (List.mapM_cons.symm.trans each)
    obtain ⟨rest, tail, each⟩ := Option.bind_eq_some_iff.mp each
    cases each
    rw [List.foldr_cons, Finset.mem_union, mem_groupHosts head, ih rest tail]
    simp

lemma InGroup.safe {group host : String} (member : InGroup address inventory group host) :
    safeHost address host = true := by
  obtain ⟨g, -, value, hosts, entry, -, -, -, named⟩ := member
  exact (Option.filter_eq_some_iff.mp named).2

lemma InGroup.not_address {group host : String} (member : InGroup address inventory group host) :
    address host = false := by
  have safe := member.safe
  simp only [safeHost, Bool.and_eq_true, Bool.not_eq_true'] at safe
  exact safe.2

lemma isHostName_iff {host : String} : isHostName inventory host = true ↔
    isLiteral host = true ∧ inventory.lookup host = none := by
  simp [isHostName]

/-- The snapshot has a key for every selected host, where it declares keys. -/
lemma transportVars_keyed {selected : Finset String} {u : Unit}
    (passed : transportVars address args selected = some u) {host : String} (member : host ∈ selected)
    {values files : List (String × Json)} (snapshot : args.controllerVars = some (.obj values))
    (declared : values.lookup keyFiles = some (.obj files)) : host ∈ files.map Prod.fst := by
  obtain ⟨json, given, read⟩ := Option.bind_eq_some_iff.mp passed
  obtain ⟨values', read, covers⟩ := Option.bind_eq_some_iff.mp read
  obtain rfl : json = .obj values := by simpa [snapshot] using given.symm
  have same : values' = values := by
    simp only [transportControllerVars] at read
    exact (Option.some.inj (Option.ite_none_right_eq_some.mp read).2).symm
  have inside := guard_iff.mp (same ▸ covers)
  simp only [covered, declared, decide_eq_true_eq] at inside
  simpa [Json.keys?] using inside member

lemma map_fst (selected : Finset String) (role : String → String) :
    ((selected.sort (· ≤ ·)).map fun host => (host, role host)).map Prod.fst = selected.sort (· ≤ ·) := by
  simp [Function.comp_def]

/-- A selection of a whole group, from the facts about one host and its role. -/
lemma Selection.of_group {selected : Finset String} {role : String → String} (some_ : selected.Nonempty)
    (several : args.operation ∉ singleOperations)
    (scope : ∀ host, host ∈ selected ↔ InScope address inventory args.operation host)
    (each : ∀ host ∈ selected, Vetted address inventory args (host, role host)) :
    Selection address inventory args ((selected.sort (· ≤ ·)).map fun host => (host, role host)) := by
  refine ⟨?_, fun r mem => ?_, ?_, fun single => absurd single several, fun _ host => ?_⟩
  · obtain ⟨host, mem⟩ := some_
    exact List.ne_nil_of_mem (List.mem_map_of_mem ((Finset.mem_sort (· ≤ ·)).mpr mem))
  · obtain ⟨host, member, rfl⟩ := List.mem_map.mp mem
    exact each host ((Finset.mem_sort _).mp member)
  · rw [map_fst]
    exact Finset.sortedLT_sort _ |>.pairwise
  · rw [map_fst, Finset.mem_sort, scope]

/-- A selection of one requested node. -/
lemma Selection.of_node {node role : String} (single : args.operation ∈ singleOperations)
    (requested : args.node = some node) (vetted : Vetted address inventory args (node, role)) :
    Selection address inventory args [(node, role)] := by
  refine ⟨List.cons_ne_nil _ _, fun r mem => ?_, List.pairwise_singleton _ _, fun _ => ⟨node, requested, rfl⟩,
    fun several => absurd single several⟩
  obtain rfl := List.mem_singleton.mp mem
  exact vetted

lemma each_of_forM {α : Type} {f : α → Option Unit} {xs : List α} {u : Unit}
    (ran : xs.forM f = some u) {x : α} (mem : x ∈ xs) : f x = some () := by
  induction xs with
  | nil => cases mem
  | cons y ys ih =>
    obtain ⟨⟨⟩, first, rest⟩ := Option.bind_eq_some_iff.mp (List.forM_cons.symm.trans ran)
    rcases List.mem_cons.mp mem with rfl | mem
    · exact first
    · exact ih rest mem

lemma notMem_of_disjoint {s t : Finset String} (disjoint : s ∩ t = ∅) {x : String} (mem : x ∈ s) : x ∉ t := by
  intro also
  have both := Finset.mem_inter.mpr ⟨mem, also⟩
  rw [disjoint] at both
  simp at both

/-! ## The families of operations -/

lemma openbaoStorage_selection (family : args.operation ∈ openbaoStorageOperations)
    (resolved : openbaoStorageHosts address inventory args = some records) :
    Selection address inventory args records := by
  obtain ⟨selected, group, resolved⟩ := Option.bind_eq_some_iff.mp resolved
  obtain ⟨excluded, others, resolved⟩ := Option.bind_eq_some_iff.mp resolved
  obtain ⟨volumeHosts, -, resolved⟩ := Option.bind_eq_some_iff.mp resolved
  obtain ⟨node, requested, resolved⟩ := Option.bind_eq_some_iff.mp resolved
  obtain ⟨_, scope, resolved⟩ := Option.bind_eq_some_iff.mp resolved
  obtain ⟨_, -, resolved⟩ := Option.bind_eq_some_iff.mp resolved
  obtain ⟨_, vetted, resolved⟩ := Option.bind_eq_some_iff.mp resolved
  cases resolved
  obtain ⟨-, disjoint, -, member⟩ := guard_iff.mp scope
  obtain ⟨_, named, -⟩ := Option.bind_eq_some_iff.mp (each_of_forM vetted ((Finset.mem_sort _).mpr member))
  obtain ⟨name, -, -⟩ := guard_iff.mp named
  obtain ⟨literal, apart⟩ := isHostName_iff.mp name
  have inGroup := (mem_groupHosts group).mp member
  refine .of_node (by simp [singleOperations, family]) requested ⟨?_, fun _ g mem also => ?_, literal,
    inGroup.not_address, apart, fun other => ?_, ?_⟩
  · simpa [InScope, scopeGroups, family] using inGroup
  · refine notMem_of_disjoint disjoint member ((mem_unionHosts others).mpr ⟨g, ?_, also⟩)
    simpa only [excludedGroups, if_pos family] using mem
  · exact absurd (List.mem_append_left _ family) other
  · simp [RoleOf, family]

lemma storage_selection (family : args.operation ∈ storageOperations)
    (other : args.operation ∉ openbaoStorageOperations)
    (resolved : storageHosts address inventory args = some records) :
    Selection address inventory args records := by
  have apartFrom := storage_apart _ family
  obtain ⟨node, requested, resolved⟩ := Option.bind_eq_some_iff.mp resolved
  obtain ⟨_, name, resolved⟩ := Option.bind_eq_some_iff.mp resolved
  obtain ⟨cluster, group, resolved⟩ := Option.bind_eq_some_iff.mp resolved
  obtain ⟨volumeHosts, -, resolved⟩ := Option.bind_eq_some_iff.mp resolved
  obtain ⟨_, member, resolved⟩ := Option.bind_eq_some_iff.mp resolved
  obtain ⟨servers, inServers, resolved⟩ := Option.bind_eq_some_iff.mp resolved
  obtain ⟨agents, inAgents, resolved⟩ := Option.bind_eq_some_iff.mp resolved
  obtain ⟨_, one, resolved⟩ := Option.bind_eq_some_iff.mp resolved
  obtain ⟨values, -, resolved⟩ := Option.bind_eq_some_iff.mp resolved
  obtain ⟨_, -, resolved⟩ := Option.bind_eq_some_iff.mp resolved
  cases resolved
  obtain ⟨literal, apart⟩ := isHostName_iff.mp (guard_iff.mp name)
  have inGroup := (mem_groupHosts group).mp (guard_iff.mp member).1
  have one := guard_iff.mp one
  refine .of_node (by simp [singleOperations, family]) requested ⟨?_, fun _ g mem => ?_, literal,
    inGroup.not_address, apart, fun neither => ?_, ?_⟩
  · simpa [InScope, scopeGroups, family, other] using inGroup
  · rw [excludedGroups, if_neg other, if_neg apartFrom.1, if_neg apartFrom.2.2] at mem
    cases mem
  · exact absurd (List.mem_append_right _ family) neither
  · rw [RoleOf, if_neg other, if_neg apartFrom.1, if_neg apartFrom.2.1, ← mem_groupHosts inServers,
      ← mem_groupHosts inAgents]
    by_cases server : node ∈ servers
    · exact .inl ⟨if_pos server, server, fun agent => one ⟨fun _ => agent, fun _ => server⟩⟩
    · refine .inr ⟨if_neg server, ?_, server⟩
      by_contra agent
      exact one ⟨fun mem => absurd mem server, fun mem => absurd mem agent⟩

lemma registry_selection (family : args.operation ∈ registryOperations)
    (resolved : registryHosts address inventory args = some records) :
    Selection address inventory args records := by
  have apartFrom := registry_apart _ family
  obtain ⟨registry, inRegistry, resolved⟩ := Option.bind_eq_some_iff.mp resolved
  obtain ⟨clients, inClients, resolved⟩ := Option.bind_eq_some_iff.mp resolved
  obtain ⟨others, inOthers, resolved⟩ := Option.bind_eq_some_iff.mp resolved
  obtain ⟨rocky, -, resolved⟩ := Option.bind_eq_some_iff.mp resolved
  obtain ⟨containerHosts, -, resolved⟩ := Option.bind_eq_some_iff.mp resolved
  obtain ⟨volumeHosts, -, resolved⟩ := Option.bind_eq_some_iff.mp resolved
  obtain ⟨_, scope, resolved⟩ := Option.bind_eq_some_iff.mp resolved
  obtain ⟨_, needed, resolved⟩ := Option.bind_eq_some_iff.mp resolved
  obtain ⟨_, names, resolved⟩ := Option.bind_eq_some_iff.mp resolved
  obtain ⟨_, -, resolved⟩ := Option.bind_eq_some_iff.mp resolved
  obtain ⟨_, vars, resolved⟩ := Option.bind_eq_some_iff.mp resolved
  cases resolved
  obtain ⟨one, disjoint, -⟩ := guard_iff.mp scope
  have names := guard_iff.mp names
  have member : ∀ host, host ∈ registrySelected args.operation registry clients ↔
      InScope address inventory args.operation host := by
    intro host
    rw [registrySelected, InScope, scopeGroups, if_neg apartFrom.1, if_neg apartFrom.2.1, if_pos family]
    by_cases client : startsWith args.operation "registry-clients-" = true
    · simp [client, mem_groupHosts inClients]
    · by_cases smoke : startsWith args.operation "registry-smoke" = true
      · simp [needsClients, client, smoke, mem_groupHosts inClients, mem_groupHosts inRegistry]
      · simp [needsClients, client, smoke, mem_groupHosts inRegistry]
  have inGroup : ∀ host, InScope address inventory args.operation host → host ∉ registry →
      InGroup address inventory "registry_clients" host := by
    intro host inside client
    obtain ⟨g, mem, inGroup⟩ := inside
    simp only [scopeGroups, apartFrom.1, apartFrom.2.1, family, if_true, if_false] at mem
    have either : g = "registry" ∨ g = "registry_clients" := by
      split at mem
      · exact .inr (List.mem_singleton.mp mem)
      · split at mem
        · simpa using mem
        · exact .inl (List.mem_singleton.mp mem)
    rcases either with rfl | rfl
    · exact absurd ((mem_groupHosts inRegistry).mpr inGroup) client
    · exact inGroup
  have some_ : (registrySelected args.operation registry clients).Nonempty := by
    have own : registry.Nonempty := Finset.card_pos.mp (by omega)
    unfold registrySelected
    split
    next client => exact Finset.nonempty_iff_ne_empty.mpr (guard_iff.mp needed (by simp [needsClients, client]))
    · split
      · exact own.mono Finset.subset_union_left
      · exact own
  refine .of_group some_ apartFrom.2.2.1 member fun host selected => ?_
  have inside := (member host).mp selected
  obtain ⟨name, -, safe⟩ := names host (Finset.mem_union_left _ selected)
  obtain ⟨literal, apart⟩ := isHostName_iff.mp name
  simp only [safeHost, Bool.and_eq_true, Bool.not_eq_true'] at safe
  refine ⟨inside, fun role g mem also => ?_, literal, safe.2, apart,
    fun _ values files => transportVars_keyed vars selected, ?_⟩
  · -- only the registry itself is kept apart from the other groups
    have own : host ∈ registry := by
      by_contra client
      exact role (if_neg client)
    refine notMem_of_disjoint disjoint own ?_
    simp only [excludedGroups, apartFrom.1, family, if_true, if_false] at mem
    rcases List.mem_cons.mp mem with rfl | mem
    · exact Finset.mem_union_left _ ((mem_groupHosts inClients).mpr also)
    · exact Finset.mem_union_right _ ((mem_unionHosts inOthers).mpr ⟨g, mem, also⟩)
  · rw [RoleOf, if_neg apartFrom.1, if_pos family]
    by_cases own : host ∈ registry
    · exact .inl ⟨if_pos own, (mem_groupHosts inRegistry).mp own⟩
    · exact .inr ⟨if_neg own, inGroup host inside own, fun also => own ((mem_groupHosts inRegistry).mpr also)⟩

lemma openbao_selection (family : args.operation ∈ openbaoPreparationOperations ++ openbaoInitialOperations)
    (resolved : openbaoHosts address value inventory args = some records) :
    Selection address inventory args records := by
  have apartFrom := prepared_apart _ family
  obtain ⟨hosts, group, resolved⟩ := Option.bind_eq_some_iff.mp resolved
  rw [if_pos family] at resolved
  obtain ⟨selected, prepared, resolved⟩ := Option.bind_eq_some_iff.mp resolved
  cases resolved
  obtain ⟨excluded, others, prepared⟩ := Option.bind_eq_some_iff.mp prepared
  obtain ⟨rocky, -, prepared⟩ := Option.bind_eq_some_iff.mp prepared
  obtain ⟨_, scope, prepared⟩ := Option.bind_eq_some_iff.mp prepared
  obtain ⟨_, names, prepared⟩ := Option.bind_eq_some_iff.mp prepared
  obtain ⟨_, -, prepared⟩ := Option.bind_eq_some_iff.mp prepared
  obtain ⟨selected', narrowed, prepared⟩ := Option.bind_eq_some_iff.mp prepared
  obtain ⟨_, vars, prepared⟩ := Option.bind_eq_some_iff.mp prepared
  cases prepared
  obtain ⟨three, disjoint, -⟩ := guard_iff.mp scope
  have names := guard_iff.mp names
  have inScope : ∀ host, host ∈ hosts ↔ InScope address inventory args.operation host := by
    intro host
    simp [InScope, scopeGroups, apartFrom, mem_groupHosts group]
  have vetted : ∀ host ∈ selected, host ∈ hosts → Vetted address inventory args (host, "openbao") := by
    intro host member mem
    obtain ⟨literal, apart⟩ := isHostName_iff.mp (names host mem).1
    refine ⟨(inScope host).mp mem, fun _ g excludes also => ?_, literal,
      ((mem_groupHosts group).mp mem).not_address, apart,
      fun _ values files => transportVars_keyed vars member, ?_⟩
    · refine notMem_of_disjoint disjoint mem ((mem_unionHosts others).mpr ⟨g, ?_, also⟩)
      simpa only [excludedGroups, if_neg apartFrom.1, if_neg apartFrom.2.2.1, if_pos family] using excludes
    · simp [RoleOf, apartFrom]
  by_cases single : args.operation ∈ openbaoPkiOperations
  · rw [requested, if_pos single] at narrowed
    obtain ⟨node, given, rfl⟩ := Option.map_eq_some_iff.mp narrowed
    obtain ⟨given, mem⟩ := Option.filter_eq_some_iff.mp given
    rw [Finset.sort_singleton]
    exact .of_node (by simp [singleOperations, single]) given
      (vetted node (Finset.mem_singleton_self node) (of_decide_eq_true mem))
  · rw [requested, if_neg single] at narrowed
    cases narrowed
    refine .of_group (Finset.card_pos.mp (by omega)) ?_ inScope fun host member => vetted host member member
    simp [singleOperations, apartFrom, single]

lemma rke2_selection (family : args.operation ∈ aliasOperations ++ ["rke2-deployment-runners-smoke"])
    (resolved : rke2Hosts address inventory args = some records) :
    Selection address inventory args records := by
  have apartFrom := rke2_apart _ family
  obtain ⟨selected, group, resolved⟩ := Option.bind_eq_some_iff.mp resolved
  obtain ⟨servers, inServers, resolved⟩ := Option.bind_eq_some_iff.mp resolved
  obtain ⟨agents, inAgents, resolved⟩ := Option.bind_eq_some_iff.mp resolved
  obtain ⟨_, transport, resolved⟩ := Option.bind_eq_some_iff.mp resolved
  cases resolved
  rw [rke2Transport, if_pos apartFrom.2.2.2.2.2.2] at transport
  obtain ⟨_, cluster, transport⟩ := Option.bind_eq_some_iff.mp transport
  obtain ⟨_, names, vars⟩ := Option.bind_eq_some_iff.mp transport
  obtain ⟨-, some_, disjoint, whole⟩ := guard_iff.mp cluster
  have names := guard_iff.mp names
  refine .of_group (Finset.nonempty_iff_ne_empty.mpr some_) apartFrom.2.2.2.2.2.1 (fun host => ?_) fun host member => ?_
  · simp [InScope, scopeGroups, apartFrom, mem_groupHosts group]
  · have inGroup := (mem_groupHosts group).mp member
    obtain ⟨literal, apart⟩ := isHostName_iff.mp (names host member)
    refine ⟨by simpa [InScope, scopeGroups, apartFrom] using inGroup, fun _ g mem => ?_, literal,
      inGroup.not_address, apart, fun _ values files => transportVars_keyed vars member, ?_⟩
    · rw [excludedGroups, if_neg apartFrom.1, if_neg apartFrom.2.2.1, if_neg apartFrom.2.2.2.2.1] at mem
      cases mem
    · rw [RoleOf, if_neg apartFrom.1, if_neg apartFrom.2.2.1, if_neg apartFrom.2.2.2.1,
        ← mem_groupHosts inServers, ← mem_groupHosts inAgents]
      by_cases server : host ∈ servers
      · have agent := notMem_of_disjoint disjoint server
        exact .inl ⟨by simp [server, agent], server, agent⟩
      · have agent : host ∈ agents := by
          rw [whole] at member
          exact (Finset.mem_union.mp member).resolve_left server
        exact .inr ⟨by simp [server, agent], agent, server⟩

theorem command_selection (family : args.operation ∈ scopedOperations)
    (resolved : commandHosts address value inventory args = some records) :
    Selection address inventory args records := by
  simp only [scopedOperations, List.append_assoc, List.mem_append] at family
  unfold commandHosts at resolved
  split at resolved
  · cases resolved
  split at resolved
  next storage => exact openbaoStorage_selection storage resolved
  next notStorage =>
    split at resolved
    next storage => exact storage_selection storage notStorage resolved
    next notNode =>
      split at resolved
      · cases resolved
      split at resolved
      next registry => exact registry_selection registry resolved
      next notRegistry =>
        split at resolved
        next openbao =>
          refine openbao_selection (List.mem_append.mpr ?_) resolved
          rcases family with at_ | at_ | at_ | at_ | at_ | at_ | at_
          · exact absurd at_ notRegistry
          · exact .inl at_
          · exact .inr at_
          · exact absurd at_ notStorage
          · exact absurd at_ notNode
          · exact absurd openbao (rke2_apart _ (List.mem_append_left _ at_)).2.2.2.1
          · exact absurd openbao (rke2_apart _ (List.mem_append_right _ at_)).2.2.2.1
        next notOpenbao =>
          refine rke2_selection (List.mem_append.mpr ?_) resolved
          rcases family with at_ | at_ | at_ | at_ | at_ | at_ | at_
          · exact absurd at_ notRegistry
          · exact absurd (prepared_apart _ (List.mem_append_left _ at_)).2.2.2 notOpenbao
          · exact absurd (prepared_apart _ (List.mem_append_right _ at_)).2.2.2 notOpenbao
          · exact absurd at_ notStorage
          · exact absurd at_ notNode
          · exact .inl at_
          · exact .inr at_

/-! ## The limit -/

lemma isLiteral_comma {s : String} (literal : isLiteral s = true) : ',' ∉ s.toList := by
  unfold isLiteral at literal
  split at literal
  · cases literal
  next c cs chars =>
    simp only [Bool.and_eq_true, List.all_eq_true] at literal
    rw [chars]
    intro mem
    rcases List.mem_cons.mp mem with rfl | mem
    · exact absurd literal.1.1 (by decide)
    · exact absurd (literal.2 _ mem) (by decide)

/-- The records of a registry operation are host records of its log. -/
lemma Selection.named (selection : Selection address inventory args records)
    (family : args.operation ∈ registryOperations) : Named address args.operation records := by
  have apart := (registry_apart _ family).1
  refine ⟨fun r mem => ?_, selection.sorted.imp fun less => less.ne⟩
  have vetted := selection.each r mem
  obtain ⟨g, -, inGroup⟩ := vetted.selected
  have role : r.2 = "registry" ∨ r.2 = "registry-client" := by
    have role := vetted.role
    rw [RoleOf, if_neg apart, if_pos family] at role
    exact role.imp And.left And.left
  refine ⟨inGroup.safe, ?_⟩
  rw [allowedRoles, if_pos family]
  rcases role with role | role <;> rw [role] <;> decide

lemma Selection.limit (selection : Selection address inventory args records)
    (family : args.operation ∈ registryOperations) {log : Log} (operation : log.operation = args.operation)
    (table : operations.lookup log.operation = some log.phases) (hosts : hostsOf log.records = records) :
    commandRegistryLimit address log =
      some ([','].intercalate ((records.map Prod.fst).map String.toList)) := by
  have safe : safeText log.operation 64 = true := (registry_apart _ (operation ▸ family)).2.2.2
  have parsed := (@parseRecords_iff address log _).mpr
    ⟨⟨safe, table⟩, hosts ▸ operation ▸ selection.named family, rfl⟩
  have ordered : (records.map Prod.fst).mergeSort (· ≤ ·) = records.map Prod.fst :=
    List.mergeSort_of_pairwise (selection.sorted.imp fun less => decide_eq_true less.le)
  refine Option.bind_eq_some_iff.mpr ⟨_, parsed, ?_⟩
  rw [hosts]
  refine Option.bind_eq_some_iff.mpr ⟨(), guard_iff.mpr ⟨operation ▸ family, selection.some_⟩, ?_⟩
  rw [ordered]
  rfl

/-- The joined limit is read back as the recorded hosts. -/
lemma Selection.selects (selection : Selection address inventory args records) (host : String) :
    Selects address inventory ([','].intercalate ((records.map Prod.fst).map String.toList)) host ↔
      host ∈ records.map Prod.fst := by
  have free : ∀ part ∈ (records.map Prod.fst).map String.toList, ',' ∉ part := by
    intro part mem
    obtain ⟨name, named, rfl⟩ := List.mem_map.mp mem
    obtain ⟨r, recorded, rfl⟩ := List.mem_map.mp named
    exact isLiteral_comma (selection.each r recorded).literal
  have apart : ∀ name ∈ records.map Prod.fst, inventory.lookup name = none := by
    intro name mem
    obtain ⟨r, recorded, rfl⟩ := List.mem_map.mp mem
    exact (selection.each r recorded).apart
  rw [Selects, List.splitOn_intercalate ',' free (by simpa using selection.some_)]
  constructor
  · intro selected
    obtain ⟨part, mem, selected⟩ := selected
    obtain ⟨name, recorded, rfl⟩ := List.mem_map.mp mem
    rw [String.ofList_toList, apart name recorded] at selected
    exact selected ▸ recorded
  · intro mem
    refine ⟨host.toList, List.mem_map_of_mem mem, ?_⟩
    rw [String.ofList_toList, apart host mem]
    rfl

/-- Every host that is recorded for a transport or storage operation is vetted, the record is
complete, and the limit of a registry operation selects exactly the recorded hosts. -/
theorem transport_scope_sound (address : String → Bool) (value : FloatText → ℚ) (inventory : Inventory)
    (args : Args) (records : Records) (family : args.operation ∈ scopedOperations)
    (resolved : commandHosts address value inventory args = some records) :
    Selection address inventory args records ∧
    ∀ log : Log, args.operation ∈ registryOperations → log.operation = args.operation →
      operations.lookup log.operation = some log.phases → hostsOf log.records = records →
      ∃ limit, commandRegistryLimit address log = some limit ∧
        ∀ host, Selects address inventory limit host ↔ host ∈ records.map Prod.fst := by
  have selection := command_selection family resolved
  exact ⟨selection, fun log registry operation table hosts =>
    ⟨_, selection.limit registry operation table hosts, selection.selects⟩⟩

section Samples

def groupOf (hosts : List String) : Json := .obj [("hosts", .arr (hosts.map .str))]

/-- An inventory whose registry client is an agent of the cluster. -/
def sampleInventory : Inventory := [("registry", groupOf ["registry1"]), ("registry_clients", groupOf ["agent1"]),
  ("rocky", groupOf ["registry1"]), ("container_hosts", groupOf ["registry1"]),
  ("storage_volume_hosts", groupOf ["registry1"]), ("rke2_agents", groupOf ["agent1"])]

def sampleArgs : Args := ⟨"registry-clients-plan", none, some (.obj [])⟩

/-- The clients of the sample are resolved, and nothing else. -/
theorem transport_scope_sound_clients :
    commandHosts (fun _ => false) (fun _ => 0) sampleInventory sampleArgs = some [("agent1", "registry-client")] ∧
    Selection (fun _ => false) sampleInventory sampleArgs [("agent1", "registry-client")] := by
  have resolved : commandHosts (fun _ => false) (fun _ => 0) sampleInventory sampleArgs =
      some [("agent1", "registry-client")] := by decide +kernel
  exact ⟨resolved, (transport_scope_sound _ _ _ sampleArgs _ (by decide +kernel) resolved).1⟩

/-- A registry client may be in the groups that the registry itself is kept apart from. -/
theorem client_in_excluded_group : ¬∀ (address : String → Bool) (value : FloatText → ℚ)
    (inventory : Inventory) (args : Args) (records : Records), args.operation ∈ scopedOperations →
    commandHosts address value inventory args = some records →
    ∀ r ∈ records, ∀ g ∈ excludedGroups args.operation, ¬InGroup address inventory g r.1 := by
  intro apart
  have resolved : commandHosts (fun _ => false) (fun _ => 0) sampleInventory sampleArgs =
      some [("agent1", "registry-client")] := by decide +kernel
  have agents : groupHosts (fun _ => false) sampleInventory "rke2_agents" = some {"agent1"} := by decide +kernel
  exact apart _ _ _ sampleArgs _ (by decide +kernel) resolved ("agent1", "registry-client") (by simp)
    "rke2_agents" (by decide +kernel) ((mem_groupHosts agents).mp (by simp))

end Samples

end PlatformConfig.TransportScope
