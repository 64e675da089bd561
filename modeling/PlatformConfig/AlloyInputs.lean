import PlatformConfig.AlloyConfig

/-!
# The controller's inputs of an initial Alloy activation

The checks that the filter makes on the variables of a host, the context that it builds from them,
and the write blocks and the unit drop-in that the role's templates render.
-/
namespace PlatformConfig.AlloyInputs

open CanonicalJson GuardPlan TextScan UrlText AlloyConfig

/-- The variables of a host. -/
abbrev Vars := String → Option Json

/-- `PREFIXES` -/
def fieldName : WriterName → String → String
  | .loki, field => "grafana_alloy_loki_" ++ field
  | .mimir, field => "grafana_alloy_prometheus_remote_write_" ++ field

def isStr (j : Option Json) (p : String → Bool) : Bool := (j.bind Json.str?).any p

section Validate

/-- `dns` -/
def isDns (t : Text) : Bool := (t.splitOn '.').all isLabel && t.length ≤ 253

/-- `https://` and characters that are neither white space nor from U+007F to U+FFFF. -/
def isHttps (t : Text) : Bool :=
  "https://".toList <+: t && t.drop 8 ≠ [] &&
    (t.drop 8).all fun c => (0x21 ≤ c.toNat && c.toNat ≤ 0x7e) || 0x10000 ≤ c.toNat

/-- `[1-9][0-9]*[hms]` -/
def isKeepalive (t : Text) : Bool :=
  let digits := t.takeWhile Char.isDigit
  digits ≠ [] && digits.head? ≠ some '0' && [['h'], ['m'], ['s']].contains (t.dropWhile Char.isDigit)

/-- The host of an accepted endpoint. -/
def urlHost (nfkc : Text → Text) (url : Text) : Option Text := do
  let u ← urlsplit nfkc url
  let host ← u.hostname
  let port ← u.port
  if isHttps url && u.userinfo = (none, none) && u.query = [] && u.fragment = [] &&
      u.netloc.getLast? ≠ some ':' && port.all (fun p => 1 ≤ p && p ≤ 65535) && isDns host
  then return host else none

/-- The variables of a writer. -/
structure Fields where
  url : String
  caFile : String
  serverName : String
  clientCertFile : String
  clientKeyFile : String

def strOf (v : Vars) (key : String) : Option String := (v key).bind Json.str?

def fieldsOf (v : Vars) (n : WriterName) : Option Fields := do
  let url ← strOf v (fieldName n "url")
  let caFile ← strOf v (fieldName n "ca_file")
  let serverName ← strOf v (fieldName n "server_name")
  let clientCertFile ← strOf v (fieldName n "client_cert_file")
  let clientKeyFile ← strOf v (fieldName n "client_key_file")
  return ⟨url, caFile, serverName, clientCertFile, clientKeyFile⟩

def declaredKeys : List String := ["ca_file", "ca_sha256", "service", "trust_id"]

/-- The declaration of a writer against its variables. -/
def declaredWriter (nfkc : Text → Text) (boundary : Bool) (n : WriterName) (f : Fields) (w : Json) :
    Option Writer := do
  let host ← urlHost nfkc f.url.toList
  let request := versionId n.versionsRoot f.clientCertFile.toList
  if w.keys? = some declaredKeys && hasStr w "service" isIdentity && hasStr w "trust_id" isIdentity &&
      hasStr w "ca_file" isPath && "/etc/alloy/pki/".toList <+: (textOf w "ca_file").toList &&
      textOf w "ca_file" = f.caFile && hasStr w "ca_sha256" (matchesHex 64) && host ≠ [] &&
      isDns f.serverName.toList && (boundary || request.any fun r =>
        f.clientKeyFile.toList = n.versionsRoot.toList ++ '/' :: r ++ "/tls.key".toList)
  then return ⟨textOf w "service", textOf w "trust_id", textOf w "ca_file", textOf w "ca_sha256"⟩
  else none

/-- A writer that is declared, or whose variables are all empty. -/
def writer (nfkc : Text → Text) (v : Vars) (boundary : Bool) (declared : Json) (n : WriterName) :
    Option (List (WriterName × Writer)) := do
  let f ← fieldsOf v n
  match declared.get? n.text with
  | some w => do
    let made ← declaredWriter nfkc boundary n f w
    return [(n, made)]
  | none =>
    if f.url = "" ∧ f.caFile = "" ∧ f.serverName = "" ∧ f.clientCertFile = "" ∧ f.clientKeyFile = ""
    then return [] else none

/-- The variables that an initial activation fixes. -/
def fixed : List (String × String) := [("service_name", "alloy.service"), ("config_dir", "/etc/alloy"),
  ("config_path", configPath), ("storage_dir", "/var/lib/alloy/data"),
  ("http_listen_address", "127.0.0.1"), ("package_nevra", nevra), ("version", "1.18.1"),
  ("arch", "amd64"), ("config_validate_command", "/usr/bin/alloy validate %s")]

/-- `12345` as an integer or as a float. -/
def isPort : Json → Bool
  | .int n => n = 12345
  | .float t => t.text = "12345.0".toList
  | _ => false

/-- The service is enabled exactly when it is to be started. -/
def validService (v : Vars) : Bool :=
  match v "grafana_alloy_enabled", v "grafana_alloy_service_enabled", strOf v "grafana_alloy_service_state" with
  | some (.bool _), some (.bool enabled), some state =>
    (state = "started" || state = "stopped") && enabled = (state = "started")
  | _, _, _ => false

/-- The external labels, all of them strings. -/
def labels (v : Vars) : Option (List (String × String)) :=
  match v "grafana_alloy_external_labels" with
  | some (.obj fs) => fs.mapM fun f => f.2.str?.map fun s => (f.1, s)
  | _ => none

def validHost (v : Vars) : Bool :=
  validService v && fixed.all (fun f => isStr (v ("grafana_alloy_" ++ f.1)) (· = f.2)) &&
    (v "grafana_alloy_http_listen_port").any isPort &&
    ["environment", "vm_name", "ip", "platform_role", "feature_config", "journal_max_age"].all
      (fun key => isStr (v ("grafana_alloy_" ++ key)) fun _ => true) &&
    (labels v).isSome &&
    isStr (v "grafana_alloy_prometheus_wal_max_keepalive_time") (fun s => isKeepalive s.toList) &&
    isStr (v "grafana_alloy_prometheus_remote_write_bearer_token_file") (· = "")

structure Plan where
  target : String
  writers : List (WriterName × Writer)
  templateVars : List (String × String)
deriving DecidableEq

/-- The paths that a CA reference must neither be, hold nor lie in. -/
def reserved : List String := [contextPath, inventoryPath, WriterName.loki.pendingRoot,
  WriterName.loki.versionsRoot, WriterName.mimir.pendingRoot, WriterName.mimir.versionsRoot]

def apart (file path : String) : Bool :=
  file ≠ path && !(path.toList ++ ['/'] <+: file.toList) && !(file.toList ++ ['/'] <+: path.toList)

def templateVars (n : WriterName) : List (String × String) :=
  [("client_cert_file", "fullchain.crt"), ("client_key_file", "tls.key")].map fun f =>
    (fieldName n f.1, n.versionsRoot ++ "/@VERSION@/" ++ f.2)

/-- A dictionary of one or both of the writers. -/
def isDeclaration : Json → Bool
  | .obj declared => declared ≠ [] && declared.all fun w => (writerNamed w.1).isSome
  | _ => false

/-- `validate` -/
def validate (nfkc : Text → Text) (v : Vars) (boundary : Bool) : Option Plan :=
  if !validHost v then none
  else do
    let target ← (strOf v "inventory_hostname").filter isTarget
    let declared ← (v "grafana_alloy_initial_writers").filter isDeclaration
    let loki ← writer nfkc v boundary declared .loki
    let mimir ← writer nfkc v boundary declared .mimir
    let writers := loki ++ mimir
    if (writers.map (·.2.service)).Nodup && writers.all fun w => reserved.all (apart w.2.caFile)
    then return ⟨target, writers, writers.flatMap fun w => templateVars w.1⟩ else none

end Validate

section Build

/-- A SHA-256 digest in hexadecimal. -/
abbrev Digest := {s : String // matchesHex 64 s = true}

/-- The digests of the reviewed sources. -/
structure Sources where
  inventory : Digest
  platformPki : Digest
  lifecycle : Digest

def writerJson (n : WriterName) (w : Writer) : Json := .obj [("ca_file", .str w.caFile),
  ("ca_sha256", .str w.caSha256), ("pending_root", .str n.pendingRoot), ("service", .str w.service),
  ("state_root", .str n.stateRoot), ("trust_id", .str w.trustId), ("versions_root", .str n.versionsRoot)]

/-- The context of `build`. -/
def contextJson (p : Plan) (d : Sources) : Json := .obj [("config_path", .str configPath),
  ("dropin_path", .str dropinPath), ("inventory_path", .str inventoryPath),
  ("inventory_sha256", .str d.inventory), ("lifecycle_helper_path", .str helperPath),
  ("lifecycle_helper_sha256", .str d.lifecycle), ("package_nevra", .str nevra),
  ("platform_pki_path", .str pkiPath), ("platform_pki_sha256", .str d.platformPki), ("schema", .int 1),
  ("state_root", .str statePath), ("target", .str p.target),
  ("writers", .obj (p.writers.map fun w => (w.1.text, writerJson w.1 w.2)))]

/-- The context file. -/
def contextText (p : Plan) (d : Sources) : Text := canonical (contextJson p d) ++ ['\n']

end Build

section Templates
variable (v : Vars)

/-- A variable as a template prints it through `to_json`. -/
def toJson (key : String) : Text := quote ((strOf v key).getD "")

def isEmpty (key : String) : Bool := (strOf v key).getD "" = ""

def dictsort (l : List (String × String)) : List (String × String) :=
  l.mergeSort fun a b => a.1.toList.map Char.toLower ≤ b.1.toList.map Char.toLower

/-- The TLS settings of an endpoint, if it has a CA. -/
def tlsConfig (n : WriterName) : Text :=
  if isEmpty v (fieldName n "ca_file") then []
  else "\n    tls_config \x7b\n      ca_file              = ".toList ++ toJson v (fieldName n "ca_file") ++
    "\n      server_name          = ".toList ++ toJson v (fieldName n "server_name") ++
    "\n      insecure_skip_verify = false\n      min_version          = \"TLS12\"".toList ++
    (if isEmpty v (fieldName n "client_cert_file") then []
      else "\n      cert_file = ".toList ++ toJson v (fieldName n "client_cert_file") ++
        "\n      key_file  = ".toList ++ toJson v (fieldName n "client_key_file")) ++
    "\n    \x7d\n".toList

def labelLines : Text :=
  (dictsort ((labels v).getD [])).flatMap fun l =>
    "    ".toList ++ quote l.1 ++ " = ".toList ++ quote l.2 ++ ",\n".toList

def bearerToken : Text :=
  if isEmpty v (fieldName .mimir "bearer_token_file") then []
  else "    bearer_token_file = ".toList ++ toJson v (fieldName .mimir "bearer_token_file") ++ ['\n']

def lokiBlock : Text :=
  "loki.write \"default\" \x7b\n  endpoint \x7b\n    url = ".toList ++ toJson v (fieldName .loki "url") ++
    "\n    follow_redirects = false\n".toList ++ tlsConfig v .loki ++ "  \x7d".toList ++ "\n\x7d".toList

def mimirBlock : Text :=
  "prometheus.remote_write \"platform_metrics\" \x7b\n  external_labels = \x7b".toList ++ '\n' :: labelLines v ++
    "  \x7d".toList ++ "\n\n  endpoint \x7b\n    url              = ".toList ++ toJson v (fieldName .mimir "url") ++
    "\n    follow_redirects = false\n".toList ++ bearerToken v ++ tlsConfig v .mimir ++ "  \x7d".toList ++
    "\n\n  wal \x7b\n    max_keepalive_time = ".toList ++
    toJson v "grafana_alloy_prometheus_wal_max_keepalive_time" ++ "\n  \x7d\n\x7d".toList

/-- The write block of a writer, if it has an endpoint. -/
def block (n : WriterName) : Text :=
  if isEmpty v (fieldName n "url") then []
  else match n with
    | .loki => lokiBlock v
    | .mimir => mimirBlock v

/-- A variable as a template prints it. -/
def printed (key : String) : Text :=
  match v key with
  | some (.str s) => s.toList
  | some (.int n) => n.repr.toList
  | some (.float t) => t.text
  | _ => []

/-- The unit drop-in. -/
def dropin : Text := "[Service]\nUser=root\nGroup=root\nExecStart=\n".toList ++
  "ExecStart=/usr/bin/alloy run ".toList ++ printed v "grafana_alloy_config_path" ++
  " --storage.path=".toList ++ printed v "grafana_alloy_storage_dir" ++
  " --server.http.listen-addr=".toList ++ printed v "grafana_alloy_http_listen_address" ++
  ':' :: printed v "grafana_alloy_http_listen_port" ++
  "\nRestart=always\nNoNewPrivileges=true\n".toList ++
  "PrivateTmp=true\nProtectHome=true\nProtectSystem=full\n".toList

end Templates

end PlatformConfig.AlloyInputs
