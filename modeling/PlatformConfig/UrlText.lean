import PlatformConfig.RecordText
import PlatformConfig.TextScan

/-!
# URLs and addresses

What `urllib.parse.urlsplit` reads off a URL, and which texts `ipaddress.ip_address` takes for an
address. The compatibility decomposition of Unicode, which `urlsplit` asks only for a network
location outside ASCII, is a parameter.
-/
namespace PlatformConfig.UrlText

open TextScan

/-- `t.partition(c)`: the front, whether the character is there, and what follows it. -/
def partition (c : Char) (t : Text) : Text × Bool × Text :=
  (t.takeWhile (· ≠ c), t.contains c, (t.dropWhile (· ≠ c)).drop 1)

/-- `t.rpartition(c)` -/
def rpartition (c : Char) (t : Text) : Text × Bool × Text :=
  let (after, found, before) := partition c t.reverse
  (before.reverse, found, after.reverse)

section Addresses

/-- A number up to 255 without a leading zero. -/
def isOctet (t : Text) : Bool := t.length ≤ 3 && (RecordText.decimal t).any (· ≤ 255)

def isIPv4 (t : Text) : Bool :=
  let octets := t.splitOn '.'
  octets.length = 4 && octets.all isOctet

def isHexDigit (c : Char) : Bool := c.isDigit || ('a' ≤ c && c ≤ 'f') || ('A' ≤ c && c ≤ 'F')

def isHextet (t : Text) : Bool := t ≠ [] && t.length ≤ 4 && t.all isHexDigit

/-- The parts on one side of `::`, none of them when the address begins or ends there. -/
def side (parts : List Text) : List Text := if parts = [[]] then [] else parts

/-- The parts of an address between its colons: eight, or fewer around one `::`. -/
def validParts (parts : List Text) : Bool :=
  match (List.range parts.length).filter fun i => 0 < i && i + 1 < parts.length && parts[i]? = some [] with
  | [] => parts.length = 8 && parts.all isHextet
  | [i] =>
    let written := side (parts.take i) ++ side (parts.drop (i + 1))
    written.length ≤ 7 && written.all isHextet
  | _ => false

/-- The parts, of which an address of version 4 at the end stands for two. -/
def validHextets (parts : List Text) : Bool :=
  let last := parts.getLastD []
  let whole := if last.contains '.' then parts.dropLast ++ [['0'], ['0']] else parts
  3 ≤ parts.length && (!last.contains '.' || isIPv4 last) && whole.length ≤ 9 && validParts whole

def isIPv6 (t : Text) : Bool :=
  let (address, zoned, zone) := partition '%' t
  !t.contains '/' && (!zoned || (zone ≠ [] && !zone.contains '%')) && validHextets (address.splitOn ':')

/-- `ip_address` accepts the text. -/
def isAddress (t : Text) : Bool := isIPv4 t || isIPv6 t

/-- An address of version 6 has a colon. -/
lemma isIPv6_eq_false {t : Text} (absent : ':' ∉ t) : isIPv6 t = false := by
  have front : ':' ∉ t.takeWhile (· ≠ '%') := fun mem => absent ((List.takeWhile_prefix _).subset mem)
  have short : validHextets ((t.takeWhile (· ≠ '%')).splitOn ':') = false := by
    rw [List.splitOn_eq_singleton front]
    simp [validHextets]
  simp only [isIPv6, partition, short, Bool.and_false]

end Addresses

/-- `SplitResult` -/
structure Url where
  scheme : Text
  netloc : Text
  path : Text
  query : Text
  fragment : Text

variable (nfkc : Text → Text)

/-- The scheme in lower case, and the rest. -/
def splitScheme (t : Text) : Text × Text :=
  let (front, found, rest) := partition ':' t
  if found && front.head?.any Char.isAlpha && front.all fun c => c.isAlphanum || c = '+' || c = '-' || c = '.'
  then (front.map Char.toLower, rest)
  else ([], t)

def isAscii (t : Text) : Bool := t.all fun c => c.toNat < 128

/-- `_checknetloc` -/
def checkNetloc (netloc : Text) : Bool :=
  let bare := netloc.filter fun c => !(['@', ':', '#', '?'].contains c)
  isAscii netloc || nfkc bare = bare || (nfkc bare).all fun c => !(['/', '?', '#', '@', ':'].contains c)

/-- `_check_bracketed_host` -/
def checkBracketedHost (host : Text) : Bool :=
  if host.head? = some 'v' then
    let (digits, found, rest) := partition '.' (host.drop 1)
    digits ≠ [] && digits.all isHexDigit && found && rest ≠ [] && !rest.contains '\n'
  else isIPv6 host

/-- The brackets of a network location. -/
def checkBrackets (netloc : Text) : Bool :=
  let (_, _, info) := rpartition '@' netloc
  let (front, opened, bracketed) := partition '[' info
  let (host, _, port) := if opened then partition ']' bracketed else partition ':' info
  (netloc.contains '[' = netloc.contains ']') &&
    (!netloc.contains '[' ||
      (!opened || (front = [] && (port = [] || port.head? = some ':'))) && checkBracketedHost host)

def urlsplit (t : Text) : Option Url :=
  let t := (t.dropWhile fun c => c.toNat ≤ 32).filter fun c => c != '\t' && c != '\r' && c != '\n'
  let (scheme, t) := splitScheme t
  let delimiter : Char → Bool := fun c => c = '/' || c = '?' || c = '#'
  let (netloc, t) := if ['/', '/'] <+: t then (t.drop 2).span fun c => !delimiter c else ([], t)
  let (t, _, fragment) := partition '#' t
  let (path, _, query) := partition '?' t
  if checkBrackets netloc && checkNetloc nfkc netloc then some ⟨scheme, netloc, path, query, fragment⟩ else none

namespace Url

/-- `_userinfo`: the user name and the password, when they are there. -/
def userinfo (u : Url) : Option Text × Option Text :=
  let (info, found, _) := rpartition '@' u.netloc
  let (name, secret, password) := partition ':' info
  if found then (some name, if secret then some password else none) else (none, none)

/-- `_hostinfo`: the host and the port, as they are written. -/
def hostinfo (u : Url) : Text × Option Text :=
  let (_, _, info) := rpartition '@' u.netloc
  let (_, opened, bracketed) := partition '[' info
  let (host, port) :=
    if opened then
      let (host, _, rest) := partition ']' bracketed
      (host, (partition ':' rest).2.2)
    else
      let (host, _, port) := partition ':' info
      (host, port)
  (host, if port = [] then none else some port)

/-- `hostname`: in lower case up to the zone. -/
def hostname (u : Url) : Option Text :=
  let (host, zoned, zone) := partition '%' u.hostinfo.1
  if u.hostinfo.1 = [] then none
  else some (host.map Char.toLower ++ if zoned then '%' :: zone else [])

/-- `port`, which raises for a text that is not the number of a port. -/
def port (u : Url) : Option (Option ℕ) :=
  match u.hostinfo.2 with
  | none => some none
  | some digits =>
    let number := Nat.ofDigitChars 10 digits 0
    if RecordText.isDigits digits && number ≤ 65535 then some (some number) else none

end Url

variable {nfkc}

lemma splitScheme_https (r : Text) : splitScheme ("https:".toList ++ r) = ("https".toList, r) := rfl

/-- A URL that begins with `https://` has the scheme `https`. -/
lemma urlsplit_scheme {t : Text} {u : Url} (front : "https://".toList <+: t) (h : urlsplit nfkc t = some u) :
    u.scheme = "https".toList := by
  obtain ⟨r, rfl⟩ := front
  have kept : (("https://".toList ++ r).dropWhile fun c => c.toNat ≤ 32).filter
      (fun c => c != '\t' && c != '\r' && c != '\n') = "https:".toList ++ ("//".toList ++
        r.filter fun c => c != '\t' && c != '\r' && c != '\n') := rfl
  simp only [urlsplit, kept, splitScheme_https, Option.ite_none_right_eq_some] at h
  rw [← Option.some.inj h.2]

end PlatformConfig.UrlText
