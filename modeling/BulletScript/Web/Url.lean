import BulletScript.Failure
import BulletScript.Text.Case

/-! Addresses of the web: what counts as one, and what makes one malformed. -/
namespace BulletScript.Web

open Text

/-- What a text is made of when it is read as an address. -/
structure Url where
  scheme : String
  host : String
  deriving Repr, DecidableEq

def isSchemeChar (c : Char) : Bool := c.isAlphanum || c = '+' || c = '-' || c = '.'

/-- The scheme of an address, in lower case, and what follows its colon. -/
def cutScheme (cs : List Char) : List Char × List Char :=
  match cutChars [':'] cs with
  | some (before, after) =>
    if before.head?.any Char.isAlpha && before.all isSchemeChar then
      (before.map Char.toLower, after)
    else ([], cs)
  | none => ([], cs)

/-- Characters whose plain form holds one that ends the host. -/
def disguisesMark (c : Char) : Bool :=
  [0x2047, 0x2048, 0x2049, 0x2100, 0x2101, 0x2105, 0x2106, 0x2A74, 0xFE13, 0xFE16, 0xFE55, 0xFE56,
    0xFE5F, 0xFE6B, 0xFF03, 0xFF0F, 0xFF1A, 0xFF1F, 0xFF20].contains c.toNat

def isOctet (part : String) : Bool :=
  let cs := part.toList
  !cs.isEmpty && cs.length ≤ 3 && cs.all Char.isDigit && (cs.length = 1 || cs.head? ≠ some '0') &&
    (part.toNat?.getD 256) ≤ 255

/-- Four numbers with points between them. -/
def isDotted (s : String) : Bool :=
  let parts := split "." s
  parts.length = 4 && parts.all isOctet

def isHexGroup (part : String) : Bool :=
  let cs := part.toList
  !cs.isEmpty && cs.length ≤ 4 &&
    cs.all fun c => c.isDigit || ('a' ≤ c && c ≤ 'f') || ('A' ≤ c && c ≤ 'F')

/-- The groups of a long address, with the dotted form at its end counted as two groups. -/
def longGroups (s : String) : Option (List String) :=
  let parts := split ":" s
  match parts.getLast? with
  | some last =>
    if contains "." last then
      if isDotted last then some (parts.dropLast ++ ["0", "0"]) else none
    else some parts
  | none => none

/-- Eight groups, or fewer with one gap that stands for the others. -/
def isLong (s : String) : Bool :=
  match longGroups s with
  | none => false
  | some parts =>
    let inner := (parts.drop 1).dropLast
    let gaps := (inner.filter (· = "")).length
    if parts.length < 3 ∨ 9 < parts.length ∨ 1 < gaps then false
    else if gaps = 1 then
      let before := 1 + (inner.takeWhile (· ≠ "")).length
      let after := parts.length - before - 1
      let opens := parts.head? = some ""
      let closes := parts.getLast? = some ""
      let before := if opens then before - 1 else before
      let after := if closes then after - 1 else after
      !(opens && before ≠ 0) && !(closes && after ≠ 0) && before + after < 8 &&
        parts.all fun part => part = "" || isHexGroup part
    else parts.length = 8 && parts.all isHexGroup

/-- A long address, which may name its zone after a percent sign. -/
def isLongWithZone (s : String) : Bool :=
  !contains "/" s && match cut? "%" s with
    | some (address, zone) => zone ≠ "" && !contains "%" zone && isLong address
    | none => isLong s

/-- The fault of a host in brackets, if it has one. -/
def bracketFault? (inner : String) : Option String :=
  match inner.toList with
  | 'v' :: rest =>
    let (digits, more) := rest.span fun c =>
      c.isDigit || ('a' ≤ c && c ≤ 'f') || ('A' ≤ c && c ≤ 'F')
    match more with
    | '.' :: c :: cs =>
      if digits.isEmpty || (c :: cs).contains '\n' then some "IPvFuture address is invalid"
      else none
    | _ => some "IPvFuture address is invalid"
  | _ =>
    if isDotted inner then some "An IPv4 address cannot be in brackets"
    else if isLongWithZone inner then none
    else some (shown inner ++ " does not appear to be an IPv4 or IPv6 address")

def hostFault? (host : String) : Option String :=
  let opened := contains "[" host
  let closed := contains "]" host
  if opened != closed then some "Invalid IPv6 URL"
  else
    let inner := ((cut? "[" host).map (·.2)).getD ""
    let bracket := if opened then
        bracketFault? (((cut? "]" inner).map (·.1)).getD inner)
      else none
    bracket.or <|
      if host.toList.any disguisesMark then
        some ("netloc '" ++ host ++ "' contains invalid characters under NFKC normalization")
      else none

/-- Reads an address; control characters before it and line breaks in it are passed over. -/
def Url.ofText (s : String) : Result Url :=
  let cs := (s.toList.dropWhile fun c => c.toNat ≤ 32).filter fun c => !"\t\r\n".toList.contains c
  let (scheme, rest) := cutScheme cs
  let host := match rest with
    | '/' :: '/' :: more => String.ofList (more.takeWhile fun c => !"/?#".toList.contains c)
    | _ => ""
  match hostFault? host with
  | some fault => .error (.internal (.badValue fault))
  | none => .ok ⟨.ofList scheme, host⟩

/-- Whether a text is the address of something on the web. -/
def isWebUrl (s : String) : Result Bool := do
  let url ← Url.ofText s
  return (url.scheme = "http" || url.scheme = "https") && url.host ≠ ""

end BulletScript.Web
