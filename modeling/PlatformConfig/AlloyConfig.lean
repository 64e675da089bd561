import PlatformConfig.FailoverPlan
import PlatformConfig.UrlText

/-!
# The target's checks of an initial Alloy activation

`validate_context` and `config_boundary` of the activation helper: the context that names the
writers, and the recognizer of their write blocks in the configuration. The compatibility
decomposition of Unicode and the metadata and digests of the CA files are parameters.
-/
namespace PlatformConfig.AlloyConfig

open CanonicalJson GuardPlan TextScan UrlText

inductive WriterName
  | loki
  | mimir
deriving DecidableEq

namespace WriterName

def text : WriterName → String
  | loki => "loki"
  | mimir => "mimir"

def stateRoot (n : WriterName) : String := "/var/lib/platform-config/pki/alloy/" ++ n.text

def pendingRoot (n : WriterName) : String := "/etc/alloy/pki/" ++ n.text ++ "/tls-pending"

def versionsRoot (n : WriterName) : String := "/etc/alloy/pki/" ++ n.text ++ "/tls-versions"

end WriterName

def nevra : String := "alloy-0:1.18.1-1.x86_64"

def contextPath : String := "/etc/alloy/pki/initial-activation.json"

def inventoryPath : String := "/etc/alloy/pki/inventory.yml"

def statePath : String := "/var/lib/platform-config/pki/alloy/process-owner"

def helperPath : String := "/usr/local/libexec/platform-pki-host-local-lifecycle"

def pkiPath : String := "/usr/local/bin/platform-pki"

def configPath : String := "/etc/alloy/config.alloy"

def dropinPath : String := "/etc/systemd/system/alloy.service.d/platform.conf"

/-- What the context says of a writer, apart from its fixed directories. -/
structure Writer where
  service : String
  trustId : String
  caFile : String
  caSha256 : String
deriving DecidableEq

structure Context where
  target : String
  inventorySha256 : String
  platformPkiSha256 : String
  lifecycleHelperSha256 : String
  writers : List (WriterName × Writer)

section Names

/-- `[a-z0-9][a-z0-9.-]*` -/
def isTarget (s : String) : Bool :=
  let lower : Char → Bool := fun c => c.isDigit || c.isLower
  match s.toList with
  | [] => false
  | c :: cs => lower c && cs.all fun c => lower c || c = '.' || c = '-'

/-- `[A-Za-z0-9][A-Za-z0-9._-]{0,127}` -/
def isIdentity (s : String) : Bool :=
  match s.toList with
  | [] => false
  | c :: cs => c.isAlphanum && cs.length ≤ 127 && cs.all isNameChar

/-- The parts of a path that starts with a slash, without the empty and the dotted ones. -/
def components (parts : List Text) : List Text :=
  parts.foldl (fun made part =>
    if part = [] ∨ part = ['.'] then made
    else if part = ['.', '.'] then made.dropLast
    else made ++ [part]) []

/-- `os.path.normpath` of a path that starts with one slash. -/
def normpath (t : Text) : Text := '/' :: ['/'].intercalate (components (t.splitOn '/'))

/-- `path` -/
def isPath (s : String) : Bool :=
  match s.toList with
  | '/' :: t =>
    t ≠ [] && t.all (fun c => isNameChar c || c = '/') && normpath s.toList = s.toList &&
      !(['/', '/'] <:+: s.toList)
  | _ => false

/-- `[A-Za-z0-9](?:[A-Za-z0-9-]{0,61}[A-Za-z0-9])?` -/
def isLabel (t : Text) : Bool :=
  t.length ≤ 63 && t.head?.any Char.isAlphanum && t.getLast?.any Char.isAlphanum &&
    t.all fun c => c.isAlphanum || c = '-'

/-- `validate_dns` -/
def validateDns (t : Text) (label : String) : Except String Unit :=
  if !(isAscii t && t.length ≤ 253 && t.getLast? ≠ some '.') then
    .error (label ++ " is not a canonical DNS name")
  else if !(t.splitOn '.').all isLabel then .error (label ++ " is not a canonical DNS name")
  else if !!isAddress t then .error (label ++ " must not be an IP address")
  else .ok ()

end Names

section ContextChecks

def contextKeys : List String := ["config_path", "dropin_path", "inventory_path", "inventory_sha256",
  "lifecycle_helper_path", "lifecycle_helper_sha256", "package_nevra", "platform_pki_path",
  "platform_pki_sha256", "schema", "state_root", "target", "writers"]

def contextPaths : List (String × String) := [("config_path", configPath), ("dropin_path", dropinPath),
  ("state_root", statePath), ("lifecycle_helper_path", helperPath), ("platform_pki_path", pkiPath),
  ("inventory_path", inventoryPath)]

def writerKeys : List String := ["ca_file", "ca_sha256", "pending_root", "service", "state_root",
  "trust_id", "versions_root"]

def textOf (j : Json) (key : String) : String := ((j.get? key).bind Json.str?).getD ""

def validateWriter (n : WriterName) (w : Json) : Except String Writer :=
  if !(w.keys? = some writerKeys) then .error "invalid writer fields"
  else if !(hasStr w "service" isIdentity && hasStr w "trust_id" isIdentity) then
    .error "invalid writer identity"
  else if !(hasStr w "state_root" (· = n.stateRoot) && hasStr w "pending_root" (· = n.pendingRoot) &&
      hasStr w "versions_root" (· = n.versionsRoot)) then .error "writer path slot mismatch"
  else if !(hasStr w "ca_file" isPath) then .error "noncanonical path"
  else if !("/etc/alloy/pki/".toList <+: (textOf w "ca_file").toList) then .error "CA outside Alloy PKI"
  else if !(hasStr w "ca_sha256" (matchesHex 64)) then .error "invalid SHA-256"
  else .ok ⟨textOf w "service", textOf w "trust_id", textOf w "ca_file", textOf w "ca_sha256"⟩

def writerNamed (key : String) : Option WriterName := [WriterName.loki, .mimir].find? (·.text = key)

/-- The writers of a context, each under one of the two names. -/
def validateWriters : List (String × Json) → Except String (List (WriterName × Writer))
  | [] => .ok []
  | (key, w) :: rest =>
    match writerNamed key with
    | none => .error "invalid writers"
    | some n => do
      let writer ← validateWriter n w
      let others ← validateWriters rest
      return (n, writer) :: others

/-- `validate_context` -/
def validateContext (c : Json) : Except String Context :=
  if !(c.keys? = some contextKeys && (c.get? "schema").bind Json.int? = some 1) then
    .error "invalid context schema"
  else if !(hasStr c "target" isTarget) then .error "invalid target"
  else if !(contextPaths.all fun p => hasStr c p.1 (· = p.2)) then .error "context path slot mismatch"
  else if !(["inventory_sha256", "platform_pki_sha256", "lifecycle_helper_sha256"].all fun key =>
      hasStr c key (matchesHex 64)) then .error "invalid SHA-256"
  else if !(hasStr c "package_nevra" (· = nevra)) then .error "package identity mismatch"
  else
    match c.get? "writers" with
    | some (.obj fields) =>
      if !(fields ≠ [] && fields.all fun f => (writerNamed f.1).isSome) then .error "invalid writers"
      else do
        let writers ← validateWriters fields
        if !(writers.map (·.2.service)).Nodup then .error "writer services collide"
        else return ⟨textOf c "target", textOf c "inventory_sha256", textOf c "platform_pki_sha256",
          textOf c "lifecycle_helper_sha256", writers⟩
    | _ => .error "invalid writers"

end ContextChecks

section Recognizer

/-- The strings of a write block that the helper reads. -/
structure Block where
  url : Text
  ca : Text
  server : Text
  cert : Text
  key : Text

/-- An endpoint up to its client certificate. -/
def endpoint : Scan (Text × Text × Text) := do
  word "endpoint".toList
  word ['{']
  let url ← setting "url".toList
  word "follow_redirects".toList
  word ['=']
  word "false".toList
  word "tls_config".toList
  word ['{']
  let ca ← setting "ca_file".toList
  let server ← setting "server_name".toList
  word "insecure_skip_verify".toList
  word ['=']
  word "false".toList
  word "min_version".toList
  word ['=']
  word "\"TLS12\"".toList
  return (url, ca, server)

/-- The client certificate and its key, and the end of the endpoint. -/
def credentials : Scan (Text × Text) := do
  let cert ← setting "cert_file".toList
  let key ← setting "key_file".toList
  word ['}']
  word ['}']
  return (cert, key)

/-- An external label and its comma. -/
def label : Scan Unit := do
  let _ ← value
  word ['=']
  let _ ← value
  literal [',']

/-- `\s*"[1-9][0-9]*[hms]"` -/
def keepalive : Scan Unit := do
  word ['"']
  let digits ← fun t => some (t.takeWhile Char.isDigit, t.dropWhile Char.isDigit)
  if digits = [] ∨ digits.head? = some '0' then failure
  else do
    literal ['h'] <|> literal ['m'] <|> literal ['s']
    literal ['"']

def opening : WriterName → Scan Unit
  | .loki => literal "loki.write \"default\" \x7b".toList
  | .mimir => do
    literal "prometheus.remote_write \"platform_metrics\" \x7b".toList
    word "external_labels".toList
    word ['=']
    word ['{']
    many label
    word ['}']

def closing : WriterName → Scan Unit
  | .loki => word ['}']
  | .mimir => do
    word "wal".toList
    word ['{']
    word "max_keepalive_time".toList
    word ['=']
    keepalive
    word ['}']
    word ['}']

/-- The pattern of a managed write block. -/
def pattern (n : WriterName) : Scan Block := do
  opening n
  let (url, ca, server) ← endpoint
  let (cert, key) ← credentials
  closing n
  return ⟨url, ca, server, cert, key⟩

def isWordChar (c : Char) : Bool := c.isAlphanum || c = '_'

/-- `\b` before a scanner that begins with a letter. -/
def bounded {α : Type} (p : Scan α) (last : Option Char) : Scan α :=
  fun t => (p.run t).filter fun _ => !last.any isWordChar

def writeComponent : Scan Unit := do
  literal "loki.write".toList <|> literal "prometheus.remote_write".toList
  word ['"']

def credential (name : Text) : Scan Unit := do
  literal name
  word ['=']

/-- `(?m)^\s*//` -/
def lineComment (last : Option Char) : Scan Unit :=
  if last.all (· = '\n') then word ['/', '/'] else failure

def commented (t : Text) : Bool :=
  ['/', '*'] <:+: t || ['*', '/'] <:+: t || !(finditer lineComment t).isEmpty

/-- `t.count(s)` -/
def occurrences (s t : Text) : ℕ := (finditer (fun _ => literal s) t).length

end Recognizer

section Boundary
variable (nfkc : Text → Text) (ca : String → Option (ℕ × String))

/-- The request of a certificate path `<root>/<request>/fullchain.crt`. -/
def versionId (root : String) (cert : Text) : Option Text :=
  let front := root.toList ++ ['/']
  let request := (cert.drop front.length).take 32
  if front <+: cert ∧ request.length = 32 ∧ request.all isLowerHex = true ∧
      cert.drop (front.length + 32) = "/fullchain.crt".toList then some request else none

/-- The host of a strict HTTPS endpoint. -/
def endpointHost (url : Text) : Except String Text :=
  match urlsplit nfkc url with
  | none => .error "Invalid URL"
  | some u =>
    match u.hostname with
    | none => .error "writer endpoint must be strict HTTPS"
    | some host =>
      if !(u.scheme = "https".toList) then .error "writer endpoint must be strict HTTPS"
      else
        match u.port with
        | none => .error "Port could not be cast to integer value"
        | some port =>
          if !(port.all (fun p => 1 ≤ p && p ≤ 65535) && u.userinfo = (none, none) && u.query = [] &&
              u.fragment = []) then .error "writer endpoint must be strict HTTPS"
          else .ok host

def expectedDropin : Text := "[Service]\nUser=root\nGroup=root\nExecStart=\n".toList ++
  "ExecStart=/usr/bin/alloy run ".toList ++ configPath.toList ++
  " --storage.path=/var/lib/alloy/data ".toList ++
  "--server.http.listen-addr=127.0.0.1:12345\nRestart=always\nNoNewPrivileges=true\n".toList ++
  "PrivateTmp=true\nProtectHome=true\nProtectSystem=full\n".toList

/-- A writer against its block in the configuration: the request that its version paths name. -/
def checkWriter (config : Text) (n : WriterName) (w : Writer) : Except String Text :=
  match finditer (fun _ => pattern n) config with
  | [b] => do
    let host ← endpointHost nfkc b.url
    validateDns host "endpoint hostname"
    validateDns b.server "TLS server name"
    if !(b.ca = w.caFile.toList) then .error "writer CA path mismatch"
    else
      match ca w.caFile with
      | none => .error "No such file or directory"
      | some (mode, digest) =>
        if !(mode = 0o600 || mode = 0o644) then .error "unsafe CA mode"
        else if !(digest = w.caSha256) then .error "CA digest mismatch"
        else
          match versionId n.versionsRoot b.cert with
          | none => .error "certificate is not a canonical immutable version path"
          | some request =>
            if !(b.key = n.versionsRoot.toList ++ '/' :: request ++ "/tls.key".toList) then
              .error "key version mismatch"
            else if !(occurrences (quote (String.ofList b.cert)) config = 1 &&
                occurrences (quote (String.ofList b.key)) config = 1) then
              .error "version path must occur exactly once"
            else return request
  | _ => .error "unsupported managed write block"

def checkWriters (config : Text) : List (WriterName × Writer) → Except String (List (WriterName × Text))
  | [] => .ok []
  | (n, w) :: rest => do
    let request ← checkWriter nfkc ca config n w
    let others ← checkWriters config rest
    return (n, request) :: others

/-- `config_boundary`, up to the digests of the boundary: the request of each writer. -/
def configBoundary (c : Context) (config dropin : RecordText.Bytes) :
    Except String (List (WriterName × Text)) :=
  match RecordText.decode config with
  | none => .error "ordinal not in range(128)"
  | some text =>
    if !(dropin = RecordText.encode expectedDropin) then .error "unsupported Alloy drop-in"
    else if !!commented text then .error "comments unsupported in initial config"
    else if !((finditer (bounded writeComponent) text).length = c.writers.length) then
      .error "all write components must be bound"
    else if !((finditer (bounded (credential "cert_file".toList)) text).length = c.writers.length &&
        (finditer (bounded (credential "key_file".toList)) text).length = c.writers.length) then
      .error "unbound client credential settings"
    else checkWriters nfkc ca text c.writers

end Boundary

end PlatformConfig.AlloyConfig
