import PlatformConfig.FailoverPlan
import PlatformConfig.Fallible
import PlatformConfig.UrlText

/-!
# The repository policy helper

The helper inspects the enabled repositories that DNF returns, or compares them with a policy. What
`json.loads` and DNF return or raise, and the decoding of percent escapes, are parameters.
-/
namespace PlatformConfig.RepositoryPolicy

open CanonicalJson TextScan UrlText
open FailoverPlan (bind_ok checked_ok)
open Fallible
open GuardPlan (isSpace)

def policyFields : List String :=
  ["baseurl", "gpgcheck", "gpgkey", "metalink", "mirrorlist", "repo_gpgcheck"]

/-- `[A-Za-z0-9][A-Za-z0-9_.:-]*` -/
def isRepositoryId (s : String) : Bool :=
  match s.toList with
  | [] => false
  | c :: cs => c.isAlphanum && cs.all fun c => c.isAlphanum || ['_', '.', ':', '-'].contains c

/-- A letter without its case, as a regular expression compares it. -/
def foldCase (c : Char) : Char :=
  if c = '\u017f' then 's' else if c = '\u212a' then 'k' else if c = '\u0130' ∨ c = '\u0131' then 'i' else c.toLower

/-- `SENSITIVE_QUERY_KEY.search` -/
def isSensitive (key : Text) : Bool :=
  ["auth", "credential", "key", "pass", "secret", "signature", "token"].any fun w => w.toList <:+: key.map foldCase

def containsControl (s : String) : Bool := s.toList.any fun c => isSpace c || c.toNat < 32 || c.toNat = 127

/-- What a `PolicyError` says. -/
inductive Message
  | notJson
  | notObject
  | invalidId
  | invalidFields (id : String)
  | invalidValue (field id : String)
  | unsigned (id : String)
  | origins (id : String)
  | keyless (id : String)
  | invalid (id field : String)
  | disallowed (id field : String)
  | secret (id field : String)
  | foreignKey (id : String)
  | invalidReleasever
  | otherReleasever
  | inspection (exception : String)
  | credentials (id : String)
  | repositorySet (missing unexpected : List String)
  | mismatches (fields : List (String × String))
deriving DecidableEq

namespace Message

def text : Message → String
  | notJson => "repository policy is not valid JSON"
  | notObject => "repository policy must be a nonempty object"
  | invalidId => "repository policy contains an invalid ID"
  | invalidFields id => "repository policy fields are invalid for " ++ id
  | invalidValue field id => "repository policy " ++ field ++ " is invalid for " ++ id
  | unsigned id => "repository " ++ id ++ " must enforce package signatures"
  | origins id => "repository " ++ id ++ " must use exactly one origin method"
  | keyless id => "repository " ++ id ++ " requires a local gpgkey"
  | invalid id field => "repository " ++ id ++ " has an invalid " ++ field
  | disallowed id field => "repository " ++ id ++ " has an unsafe " ++ field
  | secret id field => "repository " ++ id ++ " has credentials in " ++ field
  | foreignKey id => "repository " ++ id ++ " must use an absolute local gpgkey"
  | invalidReleasever => "expected DNF releasever is invalid"
  | otherReleasever => "effective DNF releasever differs"
  | inspection exception => "DNF repository inspection failed (" ++ exception ++ ")"
  | credentials id => "repository " ++ id ++ " contains credentials"
  | repositorySet missing unexpected => "enabled repository set differs (" ++ "; ".intercalate
      ((if missing = [] then [] else ["missing IDs: " ++ ", ".intercalate missing]) ++
        if unexpected = [] then [] else ["unexpected IDs: " ++ ", ".intercalate unexpected]) ++ ")"
  | mismatches fields => "enabled repository fields differ: " ++
      ", ".intercalate (fields.map fun f => f.1 ++ "." ++ f.2)

/-- The repository IDs in a message. -/
def ids : Message → List String
  | invalidFields id | invalidValue _ id | unsigned id | origins id | keyless id | invalid id _ | disallowed id _
  | secret id _ | foreignKey id | credentials id => [id]
  | repositorySet missing unexpected => missing ++ unexpected
  | mismatches fields => fields.map Prod.fst
  | _ => []

/-- The policy fields in a message. -/
def fields : Message → List String
  | invalidValue field _ | invalid _ field | disallowed _ field | secret _ field => [field]
  | mismatches fields => fields.map Prod.snd
  | _ => []

end Message

/-- An exception of the helper: its own, or another one. -/
inductive Fault
  | policy (message : Message)
  | other
deriving DecidableEq

/-- What `json.loads` raises: `JSONDecodeError`, or another exception, as for a number of too many digits. -/
inductive LoadsFault
  | decode
  | other

structure Record where
  baseurl : List String
  gpgcheck : Bool
  gpgkey : List String
  metalink : Option String
  mirrorlist : Option String
  repoGpgcheck : Bool
deriving DecidableEq

/-- A repository as DNF returns it. -/
structure Repository where
  id : String
  record : Record

def sorted (xs : List String) : List String := xs.insertionSort (· ≤ ·)

/-- A text that is neither missing nor empty. -/
def written (s : Option String) : Option String := s.filter (· ≠ "")

namespace Record

/-- `repository_record` -/
def observed (r : Record) : Record := { r with
  baseurl := sorted r.baseurl
  gpgkey := sorted r.gpgkey
  metalink := written r.metalink
  mirrorlist := written r.mirrorlist }

/-- The URLs, in the order in which they are checked. -/
def urls (r : Record) : List String := r.baseurl ++ r.gpgkey ++ (written r.metalink).toList ++ (written r.mirrorlist).toList

/-- The fields in which two records differ, in their order. -/
def differing (r s : Record) : List String :=
  ([("baseurl", decide (r.baseurl = s.baseurl)), ("gpgcheck", decide (r.gpgcheck = s.gpgcheck)),
    ("gpgkey", decide (r.gpgkey = s.gpgkey)), ("metalink", decide (r.metalink = s.metalink)),
    ("mirrorlist", decide (r.mirrorlist = s.mirrorlist)),
    ("repo_gpgcheck", decide (r.repoGpgcheck = s.repoGpgcheck))].filter fun f => !f.2).map Prod.fst

end Record

section Checks
variable (nfkc unquote : Text → Text)

/-- `parse_qsl` with `keep_blank_values`. -/
def parseQsl (query : Text) : List (Text × Text) :=
  let plus : Text → Text := fun t => t.map fun c => if c = '+' then ' ' else c
  ((query.splitOn '&').filter (· ≠ [])).map fun part =>
    let (name, _, value) := partition '=' part
    (unquote (plus name), unquote (plus value))

def hasSecret (u : Url) : Bool := (parseQsl unquote u.query).any fun q => isSensitive q.1

def validateOriginUrl (allowHttp : Bool) (id field value : String) : Except Fault Unit :=
  if !!containsControl value then .error (.policy (.invalid id field))
  else
    match urlsplit nfkc value.toList with
    | none => .error (.policy (.invalid id field))
    | some u =>
      if !u.port.isSome then .error (.policy (.invalid id field))
      else if !((u.scheme = "https".toList || (allowHttp && field = "baseurl" && u.scheme = "http".toList)) &&
          u.hostname.isSome && u.userinfo = (none, none) && u.fragment = []) then
        .error (.policy (.disallowed id field))
      else if !!(field = "baseurl" && u.query ≠ []) then .error (.policy (.disallowed id field))
      else if !!hasSecret unquote u then .error (.policy (.secret id field))
      else .ok ()

def validateGpgkey (id value : String) : Except Fault Unit :=
  if !!containsControl value then .error (.policy (.invalid id "gpgkey"))
  else
    match urlsplit nfkc value.toList with
    | none => .error .other
    | some u =>
      if !(u.scheme = "file".toList && u.netloc = [] && u.path.head? = some '/' && u.query = [] &&
          u.fragment = []) then .error (.policy (.foreignKey id))
      else .ok ()

def strings? : Json → Option (List String)
  | .arr xs => xs.mapM Json.str?
  | _ => none

/-- `None` or a string. -/
def optional? : Json → Option (Option String)
  | .null => some none
  | .str s => some (some s)
  | _ => none

def bool? : Json → Option Bool
  | .bool b => some b
  | _ => none

/-- The value of a field in its type. -/
def required {α : Type} (id field : String) (read : Json → Option α) (expected : Json) : Except Fault α :=
  match (expected.get? field).bind read with
  | none => .error (.policy (.invalidValue field id))
  | some a => .ok a

/-- The record of a policy, its types checked. -/
def readRecord (id : String) (expected : Json) : Except Fault Record :=
  if !(expected.keys?.any fun keys => policyFields.all keys.contains && keys.all policyFields.contains) then
    .error (.policy (.invalidFields id))
  else do
    let baseurl ← required id "baseurl" strings? expected
    let gpgkey ← required id "gpgkey" strings? expected
    let metalink ← required id "metalink" optional? expected
    let mirrorlist ← required id "mirrorlist" optional? expected
    let gpgcheck ← required id "gpgcheck" bool? expected
    let repoGpgcheck ← required id "repo_gpgcheck" bool? expected
    return ⟨baseurl, gpgcheck, gpgkey, metalink, mirrorlist, repoGpgcheck⟩

/-- The checks of a record before its keys. -/
def checkOrigins (allowHttp : Bool) (id : String) (r : Record) : Except Fault Unit :=
  if !r.gpgcheck then .error (.policy (.unsigned id))
  else if !([decide (r.baseurl ≠ []), (written r.metalink).isSome, (written r.mirrorlist).isSome].count true = 1) then
    .error (.policy (.origins id))
  else do
    r.baseurl.forM (validateOriginUrl nfkc unquote allowHttp id "baseurl")
    (written r.metalink).toList.forM (validateOriginUrl nfkc unquote allowHttp id "metalink")
    (written r.mirrorlist).toList.forM (validateOriginUrl nfkc unquote allowHttp id "mirrorlist")
    if !(r.gpgkey ≠ []) then .error (.policy (.keyless id)) else .ok ()

/-- A repository of the policy. -/
def decodeRepository (allowHttp : Bool) (p : String × Json) : Except Fault (String × Record) :=
  if !isRepositoryId p.1 then .error (.policy .invalidId)
  else do
    let r ← readRecord p.1 p.2
    checkOrigins nfkc unquote allowHttp p.1 r
    r.gpgkey.forM (validateGpgkey nfkc p.1)
    return (p.1, { r with baseurl := sorted r.baseurl, gpgkey := sorted r.gpgkey })

def decodeRepositories (allowHttp : Bool) : List (String × Json) → Except Fault (List (String × Record))
  | [] => .ok []
  | p :: rest => do
    let r ← decodeRepository nfkc unquote allowHttp p
    let others ← decodeRepositories allowHttp rest
    return r :: others

/-- `decode_policy`, from what `json.loads` returns or raises. -/
def decodePolicy (loads : Text → Except LoadsFault Json) (allowHttp : Bool) (value : Text) :
    Except Fault (List (String × Record)) :=
  match loads value with
  | .error .decode => .error (.policy .notJson)
  | .error .other => .error .other
  | .ok (.obj fields) =>
    if !(fields ≠ []) then .error (.policy .notObject) else decodeRepositories nfkc unquote allowHttp fields
  | .ok _ => .error (.policy .notObject)

/-- `collect_repositories`: DNF's releasever and its enabled repositories, sorted, or the type of its exception. -/
def collectRepositories (dnf : Except String (String × List Repository)) :
    Except Fault (String × List (String × Record)) :=
  match dnf with
  | .error exception => .error (.policy (.inspection exception))
  | .ok (releasever, repositories) => .ok (releasever,
      (repositories.map fun r => (r.id, r.record.observed)).insertionSort fun p q => p.1 ≤ q.1)

/-- The check of an observed URL. -/
def requireCredentialFree (id url : String) : Except Fault Unit :=
  match urlsplit nfkc url.toList with
  | none => .error .other
  | some u => if !(u.userinfo = (none, none) && !hasSecret unquote u) then .error (.policy (.credentials id)) else .ok ()

/-- `_require_credential_free_observation` -/
def requireCredentialFreeObservation (repositories : List (String × Record)) : Except Fault Unit :=
  repositories.forM fun r => r.2.urls.forM (requireCredentialFree nfkc unquote r.1)

def validateReleasever (expected actual : String) : Except Fault Unit :=
  if !!(expected = "" || containsControl expected) then .error (.policy .invalidReleasever)
  else if !(expected = actual) then .error (.policy .otherReleasever)
  else .ok ()

/-- The fields of the expected repositories that differ. -/
def mismatchesOf (expected actual : List (String × Record)) : List (String × String) :=
  (sorted (expected.map Prod.fst)).flatMap fun id =>
    match expected.lookup id, actual.lookup id with
    | some r, some s => (r.differing s).map fun field => (id, field)
    | _, _ => []

def validateRepositories (expected actual : List (String × Record)) : Except Fault Unit :=
  let missing := sorted ((expected.map Prod.fst).filter fun id => !(actual.map Prod.fst).contains id)
  let unexpected := sorted ((actual.map Prod.fst).filter fun id => !(expected.map Prod.fst).contains id)
  let mismatches := mismatchesOf expected actual
  if !(missing = [] && unexpected = []) then .error (.policy (.repositorySet missing unexpected))
  else if !(mismatches = []) then .error (.policy (.mismatches mismatches))
  else .ok ()

end Checks

section Main
variable (nfkc unquote : Text → Text) (loads : Text → Except LoadsFault Json)
  (dnf : Except String (String × List Repository))

inductive Arguments
  | inspect
  | validate (releasever : String) (allowHttp : Bool)

inductive Output
  | inspected (releasever : String) (repositories : List (String × Record))
  | validated (releasever : String) (ids : List String)
deriving DecidableEq

namespace Output

def ofText (s : Option String) : Json := s.elim .null .str

def recordJson (r : Record) : Json := .obj [("baseurl", .arr (r.baseurl.map .str)), ("gpgcheck", .bool r.gpgcheck),
  ("gpgkey", .arr (r.gpgkey.map .str)), ("metalink", ofText r.metalink), ("mirrorlist", ofText r.mirrorlist),
  ("repo_gpgcheck", .bool r.repoGpgcheck)]

def toJson : Output → Json
  | inspected releasever repositories =>
    .obj [("releasever", .str releasever), ("repositories", .obj (repositories.map fun r => (r.1, recordJson r.2)))]
  | validated releasever ids => .obj [("releasever", .str releasever), ("repository_ids", .arr (ids.map .str))]

/-- The URLs in the output. -/
def urls : Output → List String
  | inspected _ repositories => repositories.flatMap fun r => r.2.urls
  | validated _ _ => []

end Output

/-- The comparison with a decoded policy. -/
def compare (expected : String) (policy : List (String × Record)) : Except Fault Output := do
  let (releasever, repositories) ← collectRepositories dnf
  validateReleasever expected releasever
  validateRepositories policy repositories
  return .validated releasever (sorted (repositories.map Prod.fst))

def run (args : Arguments) (stdin : Text) : Except Fault Output :=
  match args with
  | .inspect => do
    let (releasever, repositories) ← collectRepositories dnf
    requireCredentialFreeObservation nfkc unquote repositories
    return .inspected releasever repositories
  | .validate expected allowHttp => do
    let policy ← decodePolicy nfkc unquote loads allowHttp stdin
    compare dnf expected policy

/-- How the helper ends. -/
inductive Ending
  | printed (output : Output)
  | refused (message : Message)
  | raised
deriving DecidableEq

namespace Ending

/-- The status; an exception that is not caught ends the interpreter with status 1 and a traceback. -/
def status : Ending → ℕ
  | printed _ => 0
  | refused _ | raised => 1

def stdout : Ending → String
  | printed output => String.ofList (canonical output.toJson) ++ "\n"
  | refused _ | raised => ""

/-- The error output, without the traceback of another exception. -/
def stderr : Ending → String
  | refused message => "platform-rocky-repository-policy: " ++ message.text ++ "\n"
  | printed _ | raised => ""

end Ending

def main (args : Arguments) (stdin : Text) : Ending :=
  match run nfkc unquote loads dnf args stdin with
  | .ok output => .printed output
  | .error (.policy message) => .refused message
  | .error .other => .raised

end Main

/-! ## What the messages name -/

/-- A message names IDs of the list and fields of a policy, and it has no other text of its input. -/
def Names (ids : List String) (m : Message) : Prop := (∀ id ∈ m.ids, id ∈ ids) ∧ ∀ f ∈ m.fields, f ∈ policyFields

/-- The helper's own exception, about these IDs. -/
def Own (ids : List String) (e : Fault) : Prop := ∃ m, e = .policy m ∧ Names ids m

/-- An exception of the helper's own is about these IDs. -/
def Named (ids : List String) (e : Fault) : Prop := ∀ m, e = .policy m → Names ids m

section Faults
variable {nfkc unquote : Text → Text} {ids : List String} {id field : String} {r : Record}

lemma Own.named {e : Fault} (h : Own ids e) : Named ids e := by
  rintro m rfl
  obtain ⟨m', same, names⟩ := h
  cases same
  exact names

lemma own_of {m : Message} (h : ∀ id ∈ m.ids, id ∈ ids) (h' : ∀ f ∈ m.fields, f ∈ policyFields) :
    Own ids (.policy m) := ⟨m, rfl, h, h'⟩

lemma Own.mono {e : Fault} {ids' : List String} (h : Own ids e) (more : ∀ id ∈ ids, id ∈ ids') : Own ids' e := by
  obtain ⟨m, rfl, inside, fields⟩ := h
  exact ⟨m, rfl, fun id mem => more id (inside id mem), fields⟩

lemma Named.mono {e : Fault} {ids' : List String} (h : Named ids e) (more : ∀ id ∈ ids, id ∈ ids') : Named ids' e :=
  fun m same => ⟨fun id mem => more id ((h m same).1 id mem), (h m same).2⟩

lemma required_own {α : Type} {read : Json → Option α} {j : Json} (known : field ∈ policyFields) :
    Fails (Own [id]) (required id field read j) := by
  unfold required
  split
  · exact Fails.error (own_of (by simp [Message.ids]) (by simpa [Message.fields] using known))
  · exact Fails.ok

lemma readRecord_own {j : Json} : Fails (Own [id]) (readRecord id j) := by
  refine Fails.check (own_of (by simp [Message.ids]) (by simp [Message.fields])) fun _ => ?_
  exact (required_own (by decide)).bind fun _ => (required_own (by decide)).bind fun _ =>
    (required_own (by decide)).bind fun _ => (required_own (by decide)).bind fun _ =>
    (required_own (by decide)).bind fun _ => (required_own (by decide)).bind fun _ => Fails.ok

lemma validateOriginUrl_own {allowHttp : Bool} {value : String} (known : field ∈ policyFields) :
    Fails (Own [id]) (validateOriginUrl nfkc unquote allowHttp id field value) := by
  have invalid : Own [id] (.policy (.invalid id field)) :=
    own_of (by simp [Message.ids]) (by simpa [Message.fields] using known)
  have disallowed : Own [id] (.policy (.disallowed id field)) :=
    own_of (by simp [Message.ids]) (by simpa [Message.fields] using known)
  have secret : Own [id] (.policy (.secret id field)) :=
    own_of (by simp [Message.ids]) (by simpa [Message.fields] using known)
  refine Fails.check invalid fun _ => ?_
  split
  · exact Fails.error invalid
  · exact Fails.check invalid fun _ => Fails.check disallowed fun _ => Fails.check disallowed fun _ =>
      Fails.check secret fun _ => Fails.ok

lemma checkOrigins_own {allowHttp : Bool} : Fails (Own [id]) (checkOrigins nfkc unquote allowHttp id r) := by
  have named {m : Message} (h : m.ids = [id]) (h' : m.fields = []) : Own [id] (.policy m) :=
    own_of (by simp [h]) (by simp [h'])
  have urls {field : String} (known : field ∈ policyFields) (urls : List String) :
      Fails (Own [id]) (urls.forM (validateOriginUrl nfkc unquote allowHttp id field)) :=
    Fails.forM fun _ _ => validateOriginUrl_own known
  refine Fails.check (named rfl rfl) fun _ => Fails.check (named rfl rfl) fun _ => ?_
  exact (urls (by decide) _).bind fun _ => (urls (by decide) _).bind fun _ => (urls (by decide) _).bind fun _ =>
    Fails.check (named rfl rfl) fun _ => Fails.ok

lemma validateGpgkey_named {value : String} : Fails (Named [id]) (validateGpgkey nfkc id value) := by
  have other : Named [id] .other := by
    intro m same
    cases same
  refine Fails.check ?_ fun _ => ?_
  · exact (own_of (by simp [Message.ids]) (by simp [Message.fields, policyFields])).named
  split
  · exact Fails.error other
  · exact Fails.check (own_of (by simp [Message.ids]) (by simp [Message.fields])).named fun _ => Fails.ok

/-- The IDs of a policy that are well formed. -/
def policyIds (fields : List (String × Json)) : List String := (fields.map Prod.fst).filter fun id => isRepositoryId id

lemma decodeRepository_named {allowHttp : Bool} {p : String × Json} :
    Fails (Named (policyIds [p])) (decodeRepository nfkc unquote allowHttp p) := by
  unfold decodeRepository
  refine Fails.check (own_of (by simp [Message.ids]) (by simp [Message.fields])).named fun valid => ?_
  have own : ∀ id ∈ [p.1], id ∈ policyIds [p] := by simp [policyIds, valid]
  exact (readRecord_own.imp fun _ h => (h.mono own).named).bind fun _ =>
    (checkOrigins_own.imp fun _ h => (h.mono own).named).bind fun _ =>
    (Fails.forM fun _ _ => validateGpgkey_named.imp fun _ h => h.mono own).bind fun _ => Fails.ok

lemma decodeRepositories_named {allowHttp : Bool} {fields : List (String × Json)} :
    Fails (Named (policyIds fields)) (decodeRepositories nfkc unquote allowHttp fields) := by
  induction fields with
  | nil => exact Fails.ok
  | cons p fields ih =>
    have first : ∀ id ∈ policyIds [p], id ∈ policyIds (p :: fields) := by
      intro id mem
      simp only [policyIds, List.map_cons, List.map_nil, List.mem_filter, List.mem_singleton] at mem
      simp [policyIds, mem.1, mem.1 ▸ mem.2]
    have rest : ∀ id ∈ policyIds fields, id ∈ policyIds (p :: fields) := by
      intro id mem
      simp only [policyIds, List.mem_filter] at mem ⊢
      exact ⟨List.mem_cons_of_mem p.1 mem.1, mem.2⟩
    exact (decodeRepository_named.imp fun _ h => h.mono first).bind fun _ =>
      (ih.imp fun _ h => h.mono rest).bind fun _ => Fails.ok

/-- The IDs of a decoded policy are its own. -/
lemma decodeRepositories_ids {allowHttp : Bool} {fields : List (String × Json)} {policy : List (String × Record)}
    (h : decodeRepositories nfkc unquote allowHttp fields = .ok policy) : policy.map Prod.fst = policyIds fields := by
  induction fields generalizing policy with
  | nil =>
    cases h
    rfl
  | cons p fields ih =>
    obtain ⟨r, first, rest⟩ := bind_ok.mp h
    obtain ⟨others, decoded, made⟩ := bind_ok.mp rest
    cases made
    obtain ⟨valid, body⟩ := checked_ok.mp first
    obtain ⟨record, -, body⟩ := bind_ok.mp body
    obtain ⟨-, -, body⟩ := bind_ok.mp body
    obtain ⟨-, -, body⟩ := bind_ok.mp body
    cases body
    rw [List.map_cons, ih decoded]
    simp [policyIds, valid]

lemma mem_sorted {x : String} {xs : List String} : x ∈ sorted xs ↔ x ∈ xs := List.mem_insertionSort _

lemma differing_fields {s : Record} : ∀ f ∈ r.differing s, f ∈ policyFields := by
  intro f mem
  obtain ⟨p, inside, rfl⟩ := List.mem_map.mp mem
  have listed := List.mem_of_mem_filter inside
  simp only [List.mem_cons, List.not_mem_nil, or_false] at listed
  rcases listed with rfl | rfl | rfl | rfl | rfl | rfl <;> simp [policyFields]

lemma validateRepositories_own {expected actual : List (String × Record)} :
    Fails (Own (expected.map Prod.fst ++ actual.map Prod.fst)) (validateRepositories expected actual) := by
  refine Fails.check (own_of ?_ (by simp [Message.fields])) fun _ => Fails.check (own_of ?_ ?_) fun _ => Fails.ok
  · intro id mem
    simp only [Message.ids, List.mem_append, mem_sorted, List.mem_filter] at mem ⊢
    rcases mem with missing | unexpected
    · exact .inl missing.1
    · exact .inr unexpected.1
  all_goals
    intro x mem
    simp only [Message.ids, Message.fields, List.mem_map] at mem
    obtain ⟨p, listed, rfl⟩ := mem
    obtain ⟨id, named, inside⟩ := List.mem_flatMap.mp listed
    split at inside
    · obtain ⟨field, differs, rfl⟩ := List.mem_map.mp inside
      first
        | exact List.mem_append_left _ (mem_sorted.mp named)
        | exact differing_fields _ differs
    · cases inside

lemma validateReleasever_own {expected actual : String} : Fails (Own ids) (validateReleasever expected actual) :=
  Fails.check (own_of (by simp [Message.ids]) (by simp [Message.fields])) fun _ =>
    Fails.check (own_of (by simp [Message.ids]) (by simp [Message.fields])) fun _ => Fails.ok

lemma requireCredentialFree_named {url : String} : Fails (Named [id]) (requireCredentialFree nfkc unquote id url) := by
  have other : Named [id] .other := by
    intro m same
    cases same
  unfold requireCredentialFree
  split
  · exact Fails.error other
  · exact Fails.check (own_of (by simp [Message.ids]) (by simp [Message.fields])).named fun _ => Fails.ok

end Faults

section Observed
variable {nfkc unquote : Text → Text}

/-- A URL without user information and without a sensitive query key. -/
def CredentialFree (nfkc unquote : Text → Text) (url : String) : Prop :=
  ∃ u, urlsplit nfkc url.toList = some u ∧ u.userinfo = (none, none) ∧ hasSecret unquote u = false

lemma requireCredentialFree_ok {id url : String} :
    requireCredentialFree nfkc unquote id url = .ok () ↔ CredentialFree nfkc unquote url := by
  unfold requireCredentialFree CredentialFree
  cases urlsplit nfkc url.toList with
  | none => simp
  | some u =>
    rw [checked_ok]
    simp

lemma requireCredentialFree_other {id url : String} :
    requireCredentialFree nfkc unquote id url = .error .other ↔ urlsplit nfkc url.toList = none := by
  unfold requireCredentialFree
  cases urlsplit nfkc url.toList with
  | none => simp
  | some u =>
    dsimp only
    split <;> simp

/-- The observed URLs in the order of their check, each with its repository. -/
def observedUrls (repositories : List (String × Record)) : List (String × String) :=
  repositories.flatMap fun r => r.2.urls.map fun url => (r.1, url)

lemma observation_eq (repositories : List (String × Record)) :
    requireCredentialFreeObservation nfkc unquote repositories =
      (observedUrls repositories).forM fun p => requireCredentialFree nfkc unquote p.1 p.2 := by
  have pairs : observedUrls repositories =
      (repositories.flatMap fun r => r.2.urls.map fun url => (r, url)).map fun p => (p.1.1, p.2) := by
    simp [observedUrls, List.map_flatMap, Function.comp_def]
  rw [pairs, forM_map_eq]
  exact forM_flatMap repositories

lemma observation_ok {repositories : List (String × Record)}
    (h : requireCredentialFreeObservation nfkc unquote repositories = .ok ()) :
    ∀ url ∈ repositories.flatMap (fun r => r.2.urls), CredentialFree nfkc unquote url := by
  rw [observation_eq, forM_ok] at h
  intro url mem
  obtain ⟨r, there, inside⟩ := List.mem_flatMap.mp mem
  exact requireCredentialFree_ok.mp (h (r.1, url) (List.mem_flatMap.mpr ⟨r, there, List.mem_map_of_mem inside⟩))

lemma observation_named {repositories : List (String × Record)} :
    Fails (Named (repositories.map Prod.fst)) (requireCredentialFreeObservation nfkc unquote repositories) :=
  Fails.forM fun r mem => Fails.forM fun _ _ => requireCredentialFree_named.imp fun _ h => h.mono fun id own => by
    obtain rfl := List.mem_singleton.mp own
    exact List.mem_map_of_mem mem

/-- The observed URL that raises another exception is the first one that is refused, and follows no credentials. -/
lemma observation_other {repositories : List (String × Record)} :
    requireCredentialFreeObservation nfkc unquote repositories = .error .other ↔
      ∃ pre p post, observedUrls repositories = pre ++ p :: post ∧
        (∀ q ∈ pre, CredentialFree nfkc unquote q.2) ∧ urlsplit nfkc p.2.toList = none := by
  rw [observation_eq, forM_error]
  simp only [requireCredentialFree_ok, requireCredentialFree_other]

end Observed

section Guarded
variable {nfkc unquote : Text → Text} {loads : Text → Except LoadsFault Json}
  {dnf : Except String (String × List Repository)} {allowHttp : Bool}

/-- The checks of a policy reach this key: whatever they check before it has passed. -/
structure Reached (nfkc unquote : Text → Text) (allowHttp : Bool) (fields : List (String × Json)) (id key : String)
    (pre : List (String × Json)) (j : Json) (r : Record) (before : List String) : Prop where
  place : ∃ post after, fields = pre ++ (id, j) :: post ∧ r.gpgkey = before ++ key :: after
  others : ∀ p ∈ pre, ∃ d, decodeRepository nfkc unquote allowHttp p = .ok d
  valid : isRepositoryId id = true
  record : readRecord id j = .ok r
  origins : checkOrigins nfkc unquote allowHttp id r = .ok ()
  keys : ∀ k ∈ before, validateGpgkey nfkc id k = .ok ()
  plain : containsControl key = false

/-- What is parsed outside the guarded check can be parsed: an observed URL when all before it are free
of credentials, and a key of the policy when its check is reached; and `json.loads` raises no other exception. -/
def Guarded (nfkc unquote : Text → Text) (loads : Text → Except LoadsFault Json)
    (dnf : Except String (String × List Repository)) (stdin : Text) : Arguments → Prop
  | .inspect => ∀ releasever repositories, collectRepositories dnf = .ok (releasever, repositories) →
      ∀ pre p post, observedUrls repositories = pre ++ p :: post → (∀ q ∈ pre, CredentialFree nfkc unquote q.2) →
        urlsplit nfkc p.2.toList ≠ none
  | .validate _ allowHttp => loads stdin ≠ .error .other ∧ ∀ fields, loads stdin = .ok (.obj fields) →
      ∀ id key pre j r before, Reached nfkc unquote allowHttp fields id key pre j r before →
        urlsplit nfkc key.toList ≠ none

lemma own_ne_other {α : Type} (ids : List String) {x : Except Fault α} (h : Fails (Own ids) x) : x ≠ .error .other := by
  intro failed
  obtain ⟨m, same, -⟩ := h _ failed
  cases same

lemma validateGpgkey_other {id key : String} : validateGpgkey nfkc id key = .error .other ↔
    containsControl key = false ∧ urlsplit nfkc key.toList = none := by
  unfold validateGpgkey
  cases containsControl key with
  | true => simp
  | false =>
    cases urlsplit nfkc key.toList with
    | none => simp
    | some u =>
      simp only [Bool.not_false, Bool.not_true, Bool.false_eq_true, if_false]
      split <;> simp

lemma decodeRepository_other {p : String × Json} : decodeRepository nfkc unquote allowHttp p = .error .other ↔
    ∃ r before key after, isRepositoryId p.1 = true ∧ readRecord p.1 p.2 = .ok r ∧
      checkOrigins nfkc unquote allowHttp p.1 r = .ok () ∧ r.gpgkey = before ++ key :: after ∧
      (∀ k ∈ before, validateGpgkey nfkc p.1 k = .ok ()) ∧ containsControl key = false ∧
      urlsplit nfkc key.toList = none := by
  constructor
  · intro failed
    unfold decodeRepository at failed
    cases valid : isRepositoryId p.1 with
    | false => simp [valid] at failed
    | true =>
      simp only [valid, Bool.not_true, Bool.false_eq_true, if_false] at failed
      rcases bind_error.mp failed with shape | ⟨r, shape, failed⟩
      · exact absurd shape (own_ne_other _ readRecord_own)
      rcases bind_error.mp failed with origins | ⟨⟨⟩, origins, failed⟩
      · exact absurd origins (own_ne_other _ checkOrigins_own)
      rcases bind_error.mp failed with keys | ⟨⟨⟩, -, done⟩
      · obtain ⟨before, key, after, cut, passed, other⟩ := forM_error.mp keys
        obtain ⟨plain, refused⟩ := validateGpgkey_other.mp other
        exact ⟨r, before, key, after, rfl, shape, origins, cut, passed, plain, refused⟩
      · cases done
  · rintro ⟨r, before, key, after, valid, shape, origins, cut, passed, plain, refused⟩
    have keys : r.gpgkey.forM (validateGpgkey nfkc p.1) = .error .other :=
      forM_error.mpr ⟨before, key, after, cut, passed, validateGpgkey_other.mpr ⟨plain, refused⟩⟩
    unfold decodeRepository
    simp only [valid, Bool.not_true, Bool.false_eq_true, if_false]
    exact bind_error.mpr (.inr ⟨r, shape, bind_error.mpr (.inr ⟨(), origins, bind_error.mpr (.inl keys)⟩)⟩)

lemma decodeRepositories_other {fields : List (String × Json)} :
    decodeRepositories nfkc unquote allowHttp fields = .error .other ↔ ∃ pre p post, fields = pre ++ p :: post ∧
      (∀ q ∈ pre, ∃ d, decodeRepository nfkc unquote allowHttp q = .ok d) ∧
      decodeRepository nfkc unquote allowHttp p = .error .other := by
  induction fields with
  | nil => simp [decodeRepositories]
  | cons p fields ih =>
    constructor
    · intro failed
      rcases bind_error.mp failed with first | ⟨d, first, failed⟩
      · exact ⟨[], p, fields, rfl, by simp, first⟩
      rcases bind_error.mp failed with rest | ⟨others, -, done⟩
      · obtain ⟨pre, q, post, rfl, passed, other⟩ := ih.mp rest
        exact ⟨p :: pre, q, post, rfl, List.forall_mem_cons.mpr ⟨⟨d, first⟩, passed⟩, other⟩
      · cases done
    · rintro ⟨pre, q, post, cut, passed, other⟩
      cases pre with
      | nil =>
        obtain ⟨rfl, rfl⟩ := List.cons.inj cut
        exact bind_error.mpr (.inl other)
      | cons z pre =>
        obtain ⟨rfl, rfl⟩ := List.cons.inj cut
        obtain ⟨⟨d, first⟩, passed⟩ := List.forall_mem_cons.mp passed
        exact bind_error.mpr (.inr ⟨d, first, bind_error.mpr (.inl (ih.mpr ⟨pre, q, post, rfl, passed, other⟩))⟩)

/-- The decoding of a policy raises another exception at a key that its checks reach and `urlsplit` refuses. -/
lemma decodeRepositories_reached {fields : List (String × Json)} :
    decodeRepositories nfkc unquote allowHttp fields = .error .other ↔ ∃ id key pre j r before,
      Reached nfkc unquote allowHttp fields id key pre j r before ∧ urlsplit nfkc key.toList = none := by
  rw [decodeRepositories_other]
  constructor
  · rintro ⟨pre, p, post, cut, passed, other⟩
    obtain ⟨r, before, key, after, valid, shape, origins, keys, ok, plain, refused⟩ := decodeRepository_other.mp other
    exact ⟨p.1, key, pre, p.2, r, before, ⟨⟨post, after, cut, keys⟩, passed, valid, shape, origins, ok, plain⟩, refused⟩
  · rintro ⟨id, key, pre, j, r, before, reached, refused⟩
    obtain ⟨post, after, cut, keys⟩ := reached.place
    exact ⟨pre, (id, j), post, cut, reached.others, decodeRepository_other.mpr ⟨r, before, key, after, reached.valid,
      reached.record, reached.origins, keys, reached.keys, reached.plain, refused⟩⟩

lemma collectRepositories_own {ids : List String} : Fails (Own ids) (collectRepositories dnf) := by
  unfold collectRepositories
  split
  · exact Fails.error (own_of (by simp [Message.ids]) (by simp [Message.fields]))
  · exact Fails.ok

/-- The IDs that DNF returns. -/
def observedIds : Except String (String × List Repository) → List String
  | .ok (_, repositories) => repositories.map Repository.id
  | .error _ => []

lemma collectRepositories_ids {releasever : String} {repositories : List (String × Record)}
    (h : collectRepositories dnf = .ok (releasever, repositories)) :
    ∀ id ∈ repositories.map Prod.fst, id ∈ observedIds dnf := by
  unfold collectRepositories at h
  split at h
  · cases h
  · cases h
    intro id mem
    obtain ⟨p, listed, rfl⟩ := List.mem_map.mp mem
    obtain ⟨r, there, rfl⟩ := List.mem_map.mp ((List.mem_insertionSort _).mp listed)
    exact List.mem_map_of_mem there

lemma compare_own {expected : String} {policy : List (String × Record)} :
    Fails (Own (policy.map Prod.fst ++ observedIds dnf)) (compare dnf expected policy) := by
  intro e failed
  rcases bind_error.mp failed with collected | ⟨⟨releasever, repositories⟩, collected, failed⟩
  · exact collectRepositories_own e collected
  rcases bind_error.mp failed with version | ⟨⟨⟩, -, failed⟩
  · exact validateReleasever_own e version
  rcases bind_error.mp failed with compared | ⟨⟨⟩, -, done⟩
  · refine (validateRepositories_own e compared).mono fun id mem => ?_
    rcases List.mem_append.mp mem with policy | observed
    · exact List.mem_append_left _ policy
    · exact List.mem_append_right _ (collectRepositories_ids collected id observed)
  · cases done

/-- The helper ends with another exception when something is parsed outside the guarded check that cannot be. -/
lemma run_other {args : Arguments} {stdin : Text} :
    run nfkc unquote loads dnf args stdin = .error .other ↔ ¬Guarded nfkc unquote loads dnf stdin args := by
  cases args with
  | inspect =>
    simp only [Guarded, not_forall, not_not]
    constructor
    · intro failed
      rcases bind_error.mp failed with collected | ⟨⟨releasever, repositories⟩, collected, failed⟩
      · exact absurd collected (own_ne_other [] collectRepositories_own)
      rcases bind_error.mp failed with observed | ⟨⟨⟩, -, done⟩
      · obtain ⟨pre, p, post, cut, free, refused⟩ := observation_other.mp observed
        exact ⟨releasever, repositories, collected, pre, p, post, cut, free, refused⟩
      · cases done
    · rintro ⟨releasever, repositories, collected, pre, p, post, cut, free, refused⟩
      exact bind_error.mpr (.inr ⟨_, collected, bind_error.mpr
        (.inl (observation_other.mpr ⟨pre, p, post, cut, free, refused⟩))⟩)
  | validate expected allowHttp =>
    have decoded : run nfkc unquote loads dnf (.validate expected allowHttp) stdin = .error .other ↔
        decodePolicy nfkc unquote loads allowHttp stdin = .error .other := by
      constructor
      · intro failed
        rcases bind_error.mp failed with policy | ⟨policy, -, failed⟩
        · exact policy
        · exact absurd failed (own_ne_other _ compare_own)
      · exact fun failed => bind_error.mpr (.inl failed)
    rw [decoded, Guarded, decodePolicy]
    cases read : loads stdin with
    | error fault =>
      cases fault with
      | decode => simp
      | other => simp
    | ok j =>
      cases j with
      | obj fields =>
        have body : (if !(decide (fields ≠ [])) then .error (.policy .notObject)
            else decodeRepositories nfkc unquote allowHttp fields) = .error .other ↔
            decodeRepositories nfkc unquote allowHttp fields = .error .other := by
          by_cases empty : fields = []
          · simp [empty, decodeRepositories]
          · simp [empty]
        rw [body, decodeRepositories_reached]
        simp only [ne_eq, reduceCtorEq, not_false_eq_true, true_and, Except.ok.injEq, Json.obj.injEq, forall_eq',
          not_forall, not_not, exists_prop]
      | _ => simp

end Guarded

section Proper
variable {nfkc unquote : Text → Text} {loads : Text → Except LoadsFault Json}
  {dnf : Except String (String × List Repository)}

/-- The IDs of the policy that is compared. -/
def expectedIds (loads : Text → Except LoadsFault Json) (stdin : Text) : Arguments → List String
  | .inspect => []
  | .validate _ _ =>
    match loads stdin with
    | .ok (.obj fields) => policyIds fields
    | _ => []

/-- The helper ends in its own way: with URLs free of credentials in its output, or with a message that
has nothing of its input but repository IDs. -/
def Proper (nfkc unquote : Text → Text) (ids : List String) : Ending → Prop
  | .printed output => ∀ url ∈ output.urls, CredentialFree nfkc unquote url
  | .refused message => Names ids message
  | .raised => False

lemma decodePolicy_ids {stdin : Text} {expected : String} {allowHttp : Bool} {policy : List (String × Record)}
    (h : decodePolicy nfkc unquote loads allowHttp stdin = .ok policy) :
    policy.map Prod.fst = expectedIds loads stdin (.validate expected allowHttp) := by
  unfold decodePolicy at h
  split at h
  · cases h
  · cases h
  · next fields read =>
    rw [expectedIds, read]
    exact decodeRepositories_ids (checked_ok.mp h).2
  · cases h

lemma decodePolicy_named (expected : String) {stdin : Text} {allowHttp : Bool} :
    Fails (Named (expectedIds loads stdin (.validate expected allowHttp)))
      (decodePolicy nfkc unquote loads allowHttp stdin) := by
  have other {ids : List String} : Named ids .other := by
    intro m same
    cases same
  unfold decodePolicy
  split
  · exact Fails.error (own_of (by simp [Message.ids]) (by simp [Message.fields])).named
  · exact Fails.error other
  · next fields read =>
    rw [expectedIds, read]
    exact Fails.check (own_of (by simp [Message.ids]) (by simp [Message.fields])).named fun _ =>
      decodeRepositories_named
  · exact Fails.error (own_of (by simp [Message.ids]) (by simp [Message.fields])).named

/-- A message of the helper names IDs of the policy and of the observed repositories only. -/
lemma run_named (args : Arguments) (stdin : Text) :
    Fails (Named (expectedIds loads stdin args ++ observedIds dnf)) (run nfkc unquote loads dnf args stdin) := by
  intro e failed
  cases args with
  | inspect =>
    rcases bind_error.mp failed with collected | ⟨⟨releasever, repositories⟩, collected, failed⟩
    · exact (collectRepositories_own e collected).named
    rcases bind_error.mp failed with observed | ⟨⟨⟩, -, done⟩
    · exact (observation_named e observed).mono fun id mem => collectRepositories_ids collected id mem
    · cases done
  | validate expected allowHttp =>
    rcases bind_error.mp failed with decoded | ⟨policy, decoded, failed⟩
    · exact (decodePolicy_named expected e decoded).mono fun id mem => List.mem_append_left _ mem
    · rw [← decodePolicy_ids decoded]
      exact (compare_own e failed).named

lemma run_printed {args : Arguments} {stdin : Text} {output : Output}
    (h : run nfkc unquote loads dnf args stdin = .ok output) : ∀ url ∈ output.urls, CredentialFree nfkc unquote url := by
  cases args with
  | inspect =>
    obtain ⟨⟨releasever, repositories⟩, -, rest⟩ := bind_ok.mp h
    obtain ⟨⟨⟩, observed, made⟩ := bind_ok.mp rest
    cases made
    exact observation_ok observed
  | validate expected allowHttp =>
    obtain ⟨policy, -, rest⟩ := bind_ok.mp h
    obtain ⟨⟨releasever, repositories⟩, -, rest⟩ := bind_ok.mp rest
    obtain ⟨⟨⟩, -, rest⟩ := bind_ok.mp rest
    obtain ⟨⟨⟩, -, made⟩ := bind_ok.mp rest
    cases made
    simp [Output.urls]

/-- The helper ends in its own way when what it parses without a guard can be parsed. -/
theorem main_proper_iff (nfkc unquote : Text → Text) (loads : Text → Except LoadsFault Json)
    (dnf : Except String (String × List Repository)) (args : Arguments) (stdin : Text) :
    Proper nfkc unquote (expectedIds loads stdin args ++ observedIds dnf) (main nfkc unquote loads dnf args stdin) ↔
      Guarded nfkc unquote loads dnf stdin args := by
  have other : run nfkc unquote loads dnf args stdin = .error .other ↔ ¬Guarded nfkc unquote loads dnf stdin args :=
    run_other
  unfold main
  cases ended : run nfkc unquote loads dnf args stdin with
  | ok output =>
    have guarded : Guarded nfkc unquote loads dnf stdin args := by
      by_contra open_
      have raised := other.mpr open_
      rw [ended] at raised
      cases raised
    exact ⟨fun _ => guarded, fun _ => run_printed ended⟩
  | error fault =>
    cases fault with
    | policy message =>
      have guarded : Guarded nfkc unquote loads dnf stdin args := by
        by_contra open_
        have raised := other.mpr open_
        rw [ended] at raised
        cases raised
      exact ⟨fun _ => guarded, fun _ => run_named args stdin _ ended message rfl⟩
    | other =>
      exact ⟨fun proper => proper.elim, fun guarded => absurd guarded (other.mp ended)⟩

/-- An observed key whose URL has an open bracket. -/
def bracketed : Repository := ⟨"baseos", ⟨["https://mirror.example.org/"], true, ["file://["], none, none, false⟩⟩

/-- The helper ends with another exception at a key with an open bracket. -/
theorem bracketed_key_raises : ¬∀ (nfkc unquote : Text → Text) (loads : Text → Except LoadsFault Json)
    (dnf : Except String (String × List Repository)) (args : Arguments) (stdin : Text),
    Proper nfkc unquote (expectedIds loads stdin args ++ observedIds dnf)
      (main nfkc unquote loads dnf args stdin) := by
  intro proper
  have ends : main id id (fun _ => .error .decode) (.ok ("10", [bracketed])) .inspect [] = .raised := by
    decide +kernel
  have claimed := proper id id (fun _ => .error .decode) (.ok ("10", [bracketed])) .inspect []
  rw [ends] at claimed
  exact claimed

end Proper

end PlatformConfig.RepositoryPolicy
