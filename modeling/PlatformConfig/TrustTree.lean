import PlatformConfig.GuardPlan
import Mathlib.Data.List.AList

/-!
# Reviewed trust trees

The four files of a schema-3 trust tree, their canonical texts, and the check that a
directory holds exactly the reviewed files. The digest function is a parameter.
-/
namespace PlatformConfig.TrustTree

open GuardPlan (matchesHex isLowerHex)

abbrev Data := List UInt8

def maxTrustSize : ℕ := 65536

inductive TrustName
  | approvers | policy | requesters | responses
  deriving DecidableEq

def TrustName.text : TrustName → String
  | .approvers => "approvers.allowed_signers"
  | .policy => "policy"
  | .requesters => "requesters.allowed_signers"
  | .responses => "responses.allowed_signers"

/-- A file name below the trust root. A `staging` name is a partial file of its stage: it carries
the transaction of the stage and an index. -/
inductive FileName
  | trust (n : TrustName)
  | staging (index : ℕ)
  | other (name : String)
  deriving DecidableEq

/-- The name, without the transaction that all staging names of a stage share. -/
def FileName.text : FileName → String
  | .trust n => n.text
  | .staging i => ".partial-" ++ toString i
  | .other name => name

abbrev Files := AList fun _ : FileName => Data

/-- Printable ASCII with exactly one newline at its end. -/
def validateText (d : Data) : Option (List Char) :=
  if d ≠ [] ∧ d.length ≤ maxTrustSize ∧ d.getLast? = some 10 ∧ d.dropLast.getLast? ≠ some 10 ∧
      d.all (fun b => (0x20 ≤ b || b = 0x0a) && b ≤ 0x7e) then
    some (d.map fun b => Char.ofNat b.toNat)
  else none

/-- The lines of a text that ends with a newline. -/
def splitLines (t : List Char) : List (List Char) := t.dropLast.splitOn '\n'

def isIdentityChar (c : Char) : Bool := c.isDigit || c.isLower || c = '.' || c = '-'

/-- A lowercase principal of at most 253 characters. -/
def matchesIdentity : List Char → Bool
  | [] => false
  | c :: cs => (c.isDigit || c.isLower) && cs.length ≤ 252 && cs.all isIdentityChar

def digit64 (c : Char) : Option ℕ :=
  if c.isUpper then some (c.toNat - 'A'.toNat)
  else if c.isLower then some (c.toNat - 'a'.toNat + 26)
  else if c.isDigit then some (c.toNat - '0'.toNat + 52)
  else if c = '+' then some 62
  else if c = '/' then some 63
  else none

/-- Base64 of the standard alphabet, in its canonical form only. -/
def decode64 : List Char → Option Data
  | [] => some []
  | [a, b, '=', '='] => do
    let a ← digit64 a
    let b ← digit64 b
    if b % 16 = 0 then some [UInt8.ofNat (a * 4 + b / 16)] else none
  | [a, b, c, '='] => do
    let a ← digit64 a
    let b ← digit64 b
    let c ← digit64 c
    if c % 4 = 0 then
      some [UInt8.ofNat (a * 4 + b / 16), UInt8.ofNat (b % 16 * 16 + c / 4)]
    else none
  | a :: b :: c :: d :: rest => do
    let a ← digit64 a
    let b ← digit64 b
    let c ← digit64 c
    let d ← digit64 d
    let tail ← decode64 rest
    some (UInt8.ofNat (a * 4 + b / 16) :: UInt8.ofNat (b % 16 * 16 + c / 4) ::
      UInt8.ofNat (c % 4 * 64 + d) :: tail)
  | _ => none

/-- A length-prefixed string at the head of a key blob, and what follows it. -/
def decodeSshString : Data → Option (Data × Data)
  | a :: b :: c :: d :: rest =>
    let size := ((a.toNat * 256 + b.toNat) * 256 + c.toNat) * 256 + d.toNat
    if size ≤ rest.length then some (rest.take size, rest.drop size) else none
  | _ => none

/-- The bytes of an ASCII text. -/
def bytes (s : String) : Data := s.toList.map fun c => UInt8.ofNat c.toNat

/-- An Ed25519 public key in OpenSSH form. -/
def validKey (blob : Data) : Bool :=
  match decodeSshString blob with
  | some (algorithm, rest) =>
    match decodeSshString rest with
    | some (key, []) => algorithm = bytes "ssh-ed25519" && key.length = 32
    | _ => false
  | none => false

/-- One signer record: its principal and its key text. -/
def parseSigner (line : List Char) : Option (String × List Char) :=
  match line.splitOn ' ' with
  | [principal, algorithm, key] =>
    if matchesIdentity principal && algorithm = "ssh-ed25519".toList &&
        (decode64 key).any validKey then
      some (String.ofList principal, key)
    else none
  | _ => none

/-- The principals of an allowed-signers file, each of them once. -/
def parseAllowedSigners (d : Data) : Option (List String) := do
  let text ← validateText d
  let records ← (splitLines text).mapM parseSigner
  if (records.map Prod.fst).Nodup ∧ records ≠ [] then some (records.map Prod.fst) else none

def policyPrefix : List String := ["schema=3", "request_namespace=platform-pki-csr-request-v2",
  "approval_namespace=platform-pki-csr-approval-v2",
  "response_namespace=platform-pki-csr-response-v2", "request_max_age_seconds=604800",
  "sole_operator_min_delay_seconds=86400", "approval_max_age_seconds=86400",
  "clock_skew_seconds=300"]

/-- The identity that follows `key=` in a line. -/
def principalOf (key : String) (line : List Char) : Option String :=
  if key.toList.isPrefixOf line && matchesIdentity (line.drop key.toList.length) then
    some (String.ofList (line.drop key.toList.length))
  else none

/-- The approver that a canonical policy names. -/
def validatePolicy (responsePrincipal : String) (d : Data) : Option String := do
  let text ← validateText d
  match (splitLines text).drop policyPrefix.length with
  | [approver, response] => do
    let a ← principalOf "approver_principal=" approver
    let r ← principalOf "response_principal=" response
    if (splitLines text).take policyPrefix.length = policyPrefix.map String.toList ∧
        r = responsePrincipal then
      some a
    else none
  | _ => none

/-- What an installation is asked to install: the reviewed digests of the four files. -/
structure Args where
  trustId : String
  requester : String
  response : String
  bindings : List (TrustName × String)
  distinct : (bindings.map Prod.fst).Nodup
  complete : ∀ n, n ∈ bindings.map Prod.fst

variable (sha256 : Data → String)

/-- One reviewed file of a directory, bounded, nonempty and with its digest. -/
def readTrust (files : Files) (b : TrustName × String) : Option (TrustName × Data) := do
  let d ← files.lookup (.trust b.1)
  if 0 < d.length ∧ d.length ≤ maxTrustSize ∧ sha256 d = b.2 then some (b.1, d) else none

/-- The checks of the contents beyond their digests. -/
def validContents (a : Args) (contents : List (TrustName × Data)) : Bool :=
  Option.isSome do
    let policy ← contents.lookup .policy
    let approver ← validatePolicy a.response policy
    let requesters ← (contents.lookup .requesters).bind parseAllowedSigners
    let approvers ← (contents.lookup .approvers).bind parseAllowedSigners
    let responses ← (contents.lookup .responses).bind parseAllowedSigners
    if a.requester ∈ requesters ∧ approvers = [approver] ∧ responses = [a.response] then some ()
    else none

/-- `validate_tree_fd`: exactly the four reviewed files, with their contents in binding order. -/
def validateTree (a : Args) (files : Files) : Option (List (TrustName × Data)) := do
  let contents ← a.bindings.mapM (readTrust sha256 files)
  if (∀ f ∈ files.keys, ∃ n ∈ a.bindings.map Prod.fst, f = .trust n) ∧ validContents a contents then
    some contents
  else none

end PlatformConfig.TrustTree
