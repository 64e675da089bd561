import PlatformConfig.RepositoryPolicy
import PlatformConfig.SshPatterns

/-!
# URLs without their secrets

`rocky-runner-bootstrap-facts` reports URLs with the user information, the query, the fragment and the
secrets of the path taken out. Two URLs that differ in such parts only are reported alike where nothing
stands behind a sensitive path segment that is replaced itself, and the pattern takes each value whole.
Percent-decoding and the letters beyond ASCII are parameters.
-/
namespace PlatformConfig.UrlRedaction

open TextScan UrlText
open RepositoryPolicy (foldCase)
open SshPatterns (isSpace)

/-! ## Sensitive keys and assignments -/

def keywords : List Text := ["password".toList, "passwd".toList, "token".toList, "secret".toList,
  "credentials".toList, "apikey".toList, "api_key".toList, "api-key".toList, "keyfile".toList]

/-- `[a-z0-9_-]` in any case -/
def isKeyChar (c : Char) : Bool :=
  let f := foldCase c
  ('a' ≤ f && f ≤ 'z') || f.isDigit || c = '_' || c = '-'

def hasKeyword (t : Text) : Bool := t.tails.any fun s => keywords.any fun k => k.isPrefixOf (s.map foldCase)

/-- `is_sensitive_key` -/
def isSensitiveKey (t : Text) : Bool := t.all isKeyChar && hasKeyword t

/-- The length of a quoted string up to its closing quote, behind the opening one. -/
def quotedEnd (q : Char) : Text → Option ℕ
  | [] => none
  | [c] => if c = q then some 1 else none
  | c :: d :: t =>
    if c = q then some 1
    else if c = '\\' then if d = '\n' then none else (quotedEnd q t).map (· + 2)
    else (quotedEnd q (d :: t)).map (· + 1)

def bareLength (v : Text) : ℕ := (v.takeWhile fun c => !isSpace c && c ≠ ',').length

/-- What the pattern takes for a value: a quoted string, or else a text without white space and commas. -/
def valueLength (v : Text) : Option ℕ :=
  let bare := if bareLength v = 0 then none else some (bareLength v)
  match v with
  | [] => none
  | c :: r =>
    if c = '"' ∨ c.toNat = 39 then
      match quotedEnd c r with
      | some n => some (n + 1)
      | none => bare
    else bare

section Assignments
variable (letter : Char → Bool)

/-- `\w`, with the letters and digits beyond ASCII. -/
def isWord (c : Char) : Bool := (isKeyChar c && c ≠ '-') || (128 ≤ c.toNat && letter c)

/-- `\b` -/
def isBoundary (prev : Option Char) (t : Text) : Bool := prev.any (isWord letter) != t.head?.any (isWord letter)

/-- A match of `SENSITIVE_ASSIGNMENT_PATTERN` at the front: its key and its length. A key ends where its
characters end, since what follows it is white space or the equals sign. -/
def assignmentAt (prev : Option Char) (t : Text) : Option (Text × ℕ) :=
  let key := t.takeWhile isKeyChar
  if isBoundary letter prev t && hasKeyword key then
    match (t.drop key.length).dropWhile isSpace with
    | '=' :: r =>
      let v := r.dropWhile isSpace
      (valueLength v).map fun n => (key, t.length - v.length + n)
    | _ => none
  else none

def redacted : Text := "<redacted>".toList

/-- The substitution, behind a character and with some more characters of a match to skip. -/
def redact (prev : Option Char) : ℕ → Text → Text
  | _, [] => []
  | n + 1, c :: t => redact (some c) n t
  | 0, c :: t =>
    match assignmentAt letter prev (c :: t) with
    | some (key, length) => key ++ '=' :: redacted ++ redact (some c) (length - 1) t
    | none => c :: redact (some c) 0 t

/-- `sanitize_assignment` -/
def sanitizeAssignment (t : Text) : Text := redact letter none 0 t

end Assignments

/-! ## Reported URLs -/

section Urls
variable (letter : Char → Bool) (nfkc decode : Text → Text)

/-- `urllib.parse.unquote` -/
def unquote (t : Text) : Text := if t.contains '%' then decode t else t

def isSafe (c : Char) : Bool := c.isAlphanum || "=<>._~-".toList.contains c

def hexDigit (n : ℕ) : Char := if n < 10 then Char.ofNat (48 + n) else Char.ofNat (55 + n)

/-- `urllib.parse.quote` -/
def quote (t : Text) : Text :=
  t.flatMap fun c =>
    if isSafe c then [c]
    else (String.utf8EncodeChar c).flatMap fun b => ['%', hexDigit (b.toNat / 16), hexDigit (b.toNat % 16)]

def sanitizeSegment (s : Text) : Text :=
  let decoded := unquote decode s
  let clean := sanitizeAssignment letter decoded
  if clean ≠ decoded then quote clean else s

/-- The loop over the segments of a path, and whether it has changed one. The segment behind a sensitive
key is replaced before the loop comes to it. -/
def sanitizeSegments : List Text → List Text × Bool
  | [] => ([], false)
  | s :: rest =>
    let decoded := unquote decode s
    let clean := sanitizeSegment letter decode s
    let changed := sanitizeAssignment letter decoded ≠ decoded
    if isSensitiveKey decoded then
      match rest with
      | [] => ([clean], changed)
      | _ :: rest => (clean :: (sanitizeSegments (redacted :: rest)).1, true)
    else (clean :: (sanitizeSegments rest).1, changed || (sanitizeSegments rest).2)
termination_by segments => segments.length

def invalid : Text × List String := ("<redacted-invalid-url>".toList, ["invalid"])

end Urls

/-! ## A key with its value -/

section Values
variable {letter : Char → Bool}

/-- The pattern takes a value to its end, behind white space. -/
def Whole (v : Text) : Prop :=
  valueLength (v.dropWhile isSpace) = some (v.dropWhile isSpace).length

instance (v : Text) : Decidable (Whole v) :=
  inferInstanceAs (Decidable (valueLength (v.dropWhile isSpace) = some (v.dropWhile isSpace).length))

end Values

/-! ## URLs that differ in their secrets -/

section Pairs
variable (letter : Char → Bool) (nfkc decode : Text → Text)

/-- The value of a sensitive key is taken whole, and what is redacted already is spelled as it is
reported. -/
def Covered (s : Text) : Prop :=
  ∀ key v, isSensitiveKey key = true → unquote decode s = key ++ '=' :: v →
    Whole v ∧ (v = redacted → s = quote (key ++ '=' :: redacted))

/-- The segments are covered, and nothing stands behind a sensitive key that the loop replaces. The flag
says that the loop replaces the first segment. -/
def Clear : Bool → List Text → Prop
  | _, [] => True
  | true, s :: rest => (isSensitiveKey (unquote decode s) = true → rest = []) ∧ Clear false rest
  | false, s :: rest => Covered decode s ∧ Clear (isSensitiveKey (unquote decode s)) rest

variable {letter nfkc decode}

/-- What the loop makes of segments of which it replaces the first, or does not. -/
def reported (letter : Char → Bool) (decode : Text → Text) : Bool → List Text → List Text
  | true, _ :: rest => (sanitizeSegments letter decode (redacted :: rest)).1
  | _, segments => (sanitizeSegments letter decode segments).1

end Pairs

end PlatformConfig.UrlRedaction
