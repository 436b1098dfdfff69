import BulletScript.Bytes.Utf8
import BulletScript.Number.Reader
import BulletScript.Yaml.Scalar

/-! Tokens of a YAML text, and those that one look at the text settles: directives, anchors and
tags. -/
namespace BulletScript.Yaml

inductive Directive where
  | version (major : Nat)
  | tagHandle (handle start : String)
  | other
  deriving Repr, DecidableEq

inductive TokenKind where
  | streamEnd | directive (d : Directive) | documentStart | documentEnd
  | blockSequence | blockMapping | blockEnd
  | openSequence | closeSequence | openMapping | closeMapping
  | blockEntry | flowEntry | key | value
  | reference (name : String) | anchor (name : String)
  | tag (handle : Option String) (suffix : String)
  | scalar (text : String) (plain : Bool)
  deriving Repr, DecidableEq

/-- The name of a token in messages. -/
def TokenKind.text : TokenKind → String
  | .streamEnd => "<stream end>"
  | .directive _ => "<directive>"
  | .documentStart => "<document start>"
  | .documentEnd => "<document end>"
  | .blockSequence => "<block sequence start>"
  | .blockMapping => "<block mapping start>"
  | .blockEnd => "<block end>"
  | .openSequence => "["
  | .closeSequence => "]"
  | .openMapping => "\x7b"
  | .closeMapping => "\x7d"
  | .blockEntry => "-"
  | .flowEntry => ","
  | .key => "?"
  | .value => ":"
  | .reference _ => "<alias>"
  | .anchor _ => "<anchor>"
  | .tag .. => "<tag>"
  | .scalar .. => "<scalar>"

structure Token where
  kind : TokenKind
  start : Mark
  stop : Mark

/-- The name of a directive, or of an anchor or a reference to one. -/
def readName (context : String) (since : Mark) (ends : Char → Bool) (i : Input) :
    Read (String × Input) :=
  let (name, after) := i.span isNameChar
  let wrong (c : Char) (i : Input) : Read (String × Input) :=
    unexpected context since ("expected alphabetic or numeric character, but found " ++
      shownChar c) i
  if name = [] then wrong i.head i
  else if !ends after.head then wrong after.head after
  else .ok (.ofList name, after)

def readAnchor (i : Input) : Read (Token × Input) := do
  let isReference := i.head == '*'
  let context := "while scanning an " ++ (if isReference then "alias" else "anchor")
  let ends (c : Char) : Bool := isGap c || "?:,]\x7d%@\x60".toList.contains c
  let (name, after) ← readName context i.mark ends i.next
  return (⟨if isReference then .reference name else .anchor name, i.mark, after.mark⟩, after)

/-- Bytes written with percent signs, as text. -/
def readEscapes (context : String) (since : Mark) (fuel : Nat) (i : Input) :
    Read (List UInt8 × Input) :=
  match fuel, i.rest with
  | fuel + 1, '%' :: _ => do
    let i := i.next
    let wrong (c : Char) : Read (List UInt8 × Input) :=
      unexpected context since
        ("expected URI escape sequence of 2 hexadecimal numbers, but found " ++ shownChar c) i
    if !isHexDigit i.head then wrong i.head
    else if !isHexDigit (i.look 1) then wrong (i.look 1)
    else
      let byte := UInt8.ofNat (Text.hexNumber (i.rest.take 2))
      let (more, i) ← readEscapes context since fuel (i.skip 2)
      return (byte :: more, i)
  | _, _ => .ok ([], i)

def isUriChar (c : Char) : Bool := isNameChar c || ";/?:@&=+$,.!~*'()[]".toList.contains c

/-- The characters of a tag. -/
def readUri (context : String) (since : Mark) (fuel : Nat) (i : Input) :
    Read (List Char × Input) :=
  match fuel with
  | 0 => .ok ([], i)
  | fuel + 1 =>
    if i.head == '%' then do
      let (bytes, after) ← readEscapes context since (i.rest.length + 1) i
      match Bytes.toText bytes with
      | .error reason => unexpected context since reason i
      | .ok text =>
        let (more, after) ← readUri context since fuel after
        return (text.toList ++ more, after)
    else
      let (chars, after) := i.span isUriChar
      if chars = [] then .ok ([], i)
      else do
        let (more, after) ← readUri context since fuel after
        return (chars ++ more, after)

def readTagText (what : String) (since : Mark) (i : Input) : Read (String × Input) := do
  let (text, after) ← readUri ("while scanning a " ++ what) since (i.rest.length + 1) i
  if text = [] then
    unexpected ("while parsing a " ++ what) since
      ("expected URI, but found " ++ shownChar after.head)
      after
  else return (.ofList text, after)

/-- An abbreviation for the first part of a tag: exclamation marks around a name. -/
def readHandle (what : String) (since : Mark) (i : Input) : Read (String × Input) :=
  let context := "while scanning a " ++ what
  if i.head ≠ '!' then unexpected context since ("expected '!', but found " ++ shownChar i.head) i
  else if i.look 1 = ' ' then .ok ("!", i.next)
  else
    let (name, after) := i.next.span isNameChar
    if after.head ≠ '!' then
      unexpected context since ("expected '!', but found " ++ shownChar after.head) after
    else .ok (.ofList ('!' :: name ++ ['!']), after.next)

def readTag (i : Input) : Read (Token × Input) := do
  let since := i.mark
  let (handle, suffix, after) ← (do
    if i.look 1 == '<' then
      let (text, after) ← readTagText "tag" since (i.skip 2)
      if after.head ≠ '>' then
        unexpected "while parsing a tag" since ("expected '>', but found " ++
          shownChar after.head) after
      else return (none, text, after.next)
    else if isGap (i.look 1) then return (none, "!", i.next)
    else
      let word := i.next.rest.takeWhile fun c => !(isLineEnd c || c == ' ')
      let (handle, after) ←
        if word.contains '!' then readHandle "tag" since i else pure ("!", i.next)
      let (text, after) ← readTagText "tag" since after
      return (some handle, text, after))
  if !(isLineEnd after.head || after.head == ' ') then
    unexpected "while scanning a tag" since ("expected ' ', but found " ++ shownChar after.head)
      after
  else return (⟨.tag handle suffix, since, after.mark⟩, after)

/-- The digits of a version. -/
def readVersionPart (since : Mark) (i : Input) : Read (Nat × Input) :=
  let (digits, after) := i.span Char.isDigit
  if digits = [] then
    unexpected "while scanning a directive" since ("expected a digit, but found " ++
      shownChar i.head) i
  else .ok (Number.decimalNumber digits, after)

/-- A directive and the rest of its line. -/
def readDirective (i : Input) : Read (Token × Input) := do
  let since := i.mark
  let context := "while scanning a directive"
  let ends (c : Char) : Bool := isLineEnd c || c == ' '
  let (name, after) ← readName context since ends i.next
  let (directive, after) ← (do
    if name = "YAML" then
      let (major, after) ← readVersionPart since after.skipBlanks
      if after.head ≠ '.' then
        unexpected context since ("expected a digit or '.', but found " ++ shownChar after.head)
          after
      else
        let (_, after) ← readVersionPart since after.next
        if !ends after.head then
          unexpected context since ("expected a digit or ' ', but found " ++ shownChar after.head)
            after
        else return (Directive.version major, after)
    else if name = "TAG" then
      let (handle, after) ← readHandle "directive" since after.skipBlanks
      if after.head ≠ ' ' then
        unexpected context since ("expected ' ', but found " ++ shownChar after.head) after
      else
        let (start, after) ← readTagText "directive" since after.skipBlanks
        if !ends after.head then
          unexpected context since ("expected ' ', but found " ++ shownChar after.head) after
        else return (Directive.tagHandle handle start, after)
    else return (Directive.other, after.toLineEnd))
  let stop := after.mark
  let after := after.skipBlanks
  let after := if after.head == '#' then after.toLineEnd else after
  if !isLineEnd after.head then
    unexpected context since ("expected a comment or a line break, but found " ++
      shownChar after.head) after
  else return (⟨.directive directive, since, stop⟩, after.lineBreak.2)

end BulletScript.Yaml
