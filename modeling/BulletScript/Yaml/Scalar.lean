import BulletScript.Yaml.Input

/-! Scalars as they are written: in quotes, as blocks, or plain. -/
namespace BulletScript.Yaml

/-- The line breaks after one that was read, with the blanks before each. -/
def quotedBreaks (since : Mark) (fuel : Nat) (i : Input) : Read (List Char × Input) :=
  match fuel with
  | 0 => .ok ([], i)
  | fuel + 1 =>
    if i.atSeparator then
      unexpected "while scanning a quoted scalar" since "found unexpected document separator" i
    else
      let i := i.skipWhile fun c => c == ' ' || c == '\t'
      if isBreak i.head then do
        let (c, i) := i.lineBreak
        let (more, i) ← quotedBreaks since fuel i
        return (c ++ more, i)
      else .ok ([], i)

/-- A single break joins lines by a blank; further ones are kept. -/
def foldBreak (first more : List Char) : List Char :=
  if first ≠ ['\n'] then first ++ more
  else if more = [] then [' ']
  else more

/-- White space in quotes. -/
def quotedSpaces (since : Mark) (i : Input) : Read (List Char × Input) := do
  let (blanks, i) := i.span fun c => c == ' ' || c == '\t'
  if i.head == endOfText then
    unexpected "while scanning a quoted scalar" since "found unexpected end of stream" i
  else if isBreak i.head then
    let (first, i) := i.lineBreak
    let (more, i) ← quotedBreaks since (i.rest.length + 1) i
    return (foldBreak first more, i)
  else return (blanks, i)

def escapeChar? : Char → Option Char
  | '0' => some '\x00'
  | 'a' => some '\x07'
  | 'b' => some '\x08'
  | 't' | '\t' => some '\t'
  | 'n' => some '\n'
  | 'v' => some '\x0b'
  | 'f' => some '\x0c'
  | 'r' => some '\r'
  | 'e' => some '\x1b'
  | ' ' => some ' '
  | '"' => some '"'
  | '\\' => some '\\'
  | '/' => some '/'
  | 'N' => some '\u0085'
  | '_' => some '\u00a0'
  | 'L' => some '\u2028'
  | 'P' => some '\u2029'
  | _ => none

/-- The number of hexadecimal digits that an escape takes. -/
def escapeWidth? : Char → Option Nat
  | 'x' => some 2
  | 'u' => some 4
  | 'U' => some 8
  | _ => none

def isHexDigit (c : Char) : Bool :=
  c.isDigit || ('a' ≤ c && c ≤ 'f') || ('A' ≤ c && c ≤ 'F')

/-- The second half of a character beyond the first 65536, written as an escape of its own. -/
def lowHalf? (i : Input) : Option Nat :=
  let digits := (i.rest.drop 2).take 4
  let n := Text.hexNumber digits
  if i.rest.take 2 == ['\\', 'u'] && digits.length == 4 && digits.all isHexDigit && 0xDC00 ≤ n &&
      n < 0xE000 then some n
  else none

/-- The character of a number, taken together with the escape behind it where the two are halves of
one. A half alone becomes the replacement character. -/
def numberedChar (n : Nat) (i : Input) : Read (Char × Input) :=
  if 0x10FFFF < n then .error (.noValue (.internal (.badValue "chr() arg not in range(0x110000)")))
  else if 0xD800 ≤ n ∧ n < 0xE000 then
    match if n < 0xDC00 then lowHalf? i else none with
    | some low => .ok (Char.ofNat (0x10000 + (n - 0xD800) * 0x400 + (low - 0xDC00)), i.skip 6)
    | none => .ok ('\uFFFD', i)
  else .ok (Char.ofNat n, i)

/-- An escape in double quotes, after its backslash. -/
def readEscape (since : Mark) (i : Input) : Read (List Char × Input) := do
  let context := "while scanning a double-quoted scalar"
  match escapeChar? i.head, escapeWidth? i.head with
  | some c, _ => return ([c], i.next)
  | none, some width =>
    let i := i.next
    let digits := i.rest.take width
    match (digits ++ [endOfText]).find? (!isHexDigit ·) with
    | some c =>
      if digits.length < width || !isHexDigit c && c != endOfText then
        unexpected context since ("expected escape sequence of " ++ toString width ++
          " hexadecimal numbers, but found " ++ shownChar c) i
      else
        let (c, i) ← numberedChar (Text.hexNumber digits) (i.skip width)
        return ([c], i)
    | none => return ([], i)
  | none, none =>
    if isBreak i.head then
      let (_, i) := i.lineBreak
      quotedBreaks since (i.rest.length + 1) i
    else unexpected context since ("found unknown escape character " ++ shownChar i.head) i

/-- A scalar in quotes, after the opening one. -/
def quotedText (quote : Char) (since : Mark) (fuel : Nat) (i : Input) : Read (List Char × Input) :=
  match fuel with
  | 0 => .ok ([], i)
  | fuel + 1 => do
    let c := i.head
    if quote == '\'' && c == '\'' && i.look 1 == '\'' then
      let (more, i) ← quotedText quote since fuel (i.skip 2)
      return ('\'' :: more, i)
    else if c == quote then return ([], i.next)
    else if isGap c then
      let (blanks, i) ← quotedSpaces since i
      let (more, i) ← quotedText quote since fuel i
      return (blanks ++ more, i)
    else if quote == '"' && c == '\\' then
      let (escaped, i) ← readEscape since i.next
      let (more, i) ← quotedText quote since fuel i
      return (escaped ++ more, i)
    else
      let (more, i) ← quotedText quote since fuel i.next
      return (c :: more, i)

/-- What becomes of the line breaks at the end of a block. -/
inductive Chomping where
  | strip | clip | keep
  deriving Repr, DecidableEq

def chomping? : Char → Option Chomping
  | '+' => some .keep
  | '-' => some .strip
  | _ => none

/-- The indentation that a block states for itself, from one to nine. -/
def indentDigit (since : Mark) (i : Input) : Read (Option Nat × Input) :=
  if i.head == '0' then
    unexpected "while scanning a block scalar" since
      "expected indentation indicator in the range 1-9, but found 0" i
  else if i.head.isDigit then .ok (some (i.head.toNat - 48), i.next)
  else .ok (none, i)

/-- What stands after the sign of a block on its line. -/
def blockHeader (since : Mark) (i : Input) : Read (Chomping × Option Nat × Input) := do
  let context := "while scanning a block scalar"
  let (chomping, digit, i) ← match chomping? i.head with
    | some chomping =>
      let (digit, i) ← indentDigit since i.next
      pure (chomping, digit, i)
    | none =>
      let (digit, i) ← indentDigit since i
      match digit, chomping? i.head with
      | some d, some chomping => pure (chomping, some d, i.next)
      | digit, _ => pure (.clip, digit, i)
  if !(isLineEnd i.head || i.head == ' ') then
    unexpected context since ("expected chomping or indentation indicators, but found " ++
      shownChar i.head) i
  else
    let i := i.skipBlanks
    let i := if i.head == '#' then i.toLineEnd else i
    if !isLineEnd i.head then
      unexpected context since ("expected a comment or a line break, but found " ++
        shownChar i.head) i
    else return (chomping, digit, i.lineBreak.2)

/-- Blank lines, and blanks up to an indentation. -/
def blockBreaks (indent fuel : Nat) (i : Input) : List Char × Input :=
  let i := i.skip ((i.rest.take (indent - i.mark.column)).takeWhile (· == ' ')).length
  match fuel with
  | 0 => ([], i)
  | fuel + 1 =>
    if isBreak i.head then
      let (c, i) := i.lineBreak
      let (more, i) := blockBreaks indent fuel i
      (c ++ more, i)
    else ([], i)

/-- The blank lines at the start of a block, and the widest indentation there. -/
def leadingBreaks (fuel widest : Nat) (i : Input) : List Char × Nat × Input :=
  match fuel with
  | 0 => ([], widest, i)
  | fuel + 1 =>
    if i.head == ' ' then leadingBreaks fuel (max widest i.next.mark.column) i.next
    else if isBreak i.head then
      let (c, i) := i.lineBreak
      let (more, widest, i) := leadingBreaks fuel widest i
      (c ++ more, widest, i)
    else ([], widest, i)

/-- The lines of a block at an indentation: their text, the break after the last, and the blank
lines behind it. -/
def blockLines (folded : Bool) (indent fuel : Nat) (last breaks : List Char) (i : Input) :
    List Char × List Char × List Char × Input :=
  match fuel with
  | 0 => ([], last, breaks, i)
  | fuel + 1 =>
    if i.mark.column ≠ indent ∨ i.head = endOfText then ([], last, breaks, i)
    else
      let indented := i.head == ' ' || i.head == '\t'
      let (line, i) := i.span (!isLineEnd ·)
      let (stop, i) := i.lineBreak
      let (more, i) := blockBreaks indent (i.rest.length + 1) i
      let (joint, stop, more) :=
        if i.mark.column ≠ indent ∨ i.head = endOfText then ([], stop, more)
        else if folded ∧ stop = ['\n'] ∧ !indented ∧ i.head ≠ ' ' ∧ i.head ≠ '\t' then
          (if more = [] then [' '] else [], stop, more)
        else (stop, stop, more)
      let (rest, stop, after, i) := blockLines folded indent fuel stop more i
      (breaks ++ line ++ joint ++ rest, stop, after, i)

/-- A literal or folded block below a given indentation. -/
def readBlock (folded : Bool) (parent : Int) (i : Input) : Read (List Char × Input) := do
  let (chomping, digit, i) ← blockHeader i.mark i.next
  let least := (max 1 (parent + 1)).toNat
  let (indent, breaks, i) := match digit with
    | none =>
      let (breaks, widest, i) := leadingBreaks (i.rest.length + 1) 0 i
      (max least widest, breaks, i)
    | some d =>
      let (breaks, i) := blockBreaks (least + d - 1) (i.rest.length + 1) i
      (least + d - 1, breaks, i)
  let (text, stop, after, i) := blockLines folded indent (i.rest.length + 1) [] breaks i
  let tail := match chomping with
    | .strip => []
    | .clip => stop
    | .keep => stop ++ after
  return (text ++ tail, i)

/-- White space in a plain scalar. It ends the scalar at a document marker, and allows a key to
follow once it holds a break. -/
structure PlainSpaces where
  text : List Char
  broken : Bool
  input : Input

/-- The blank lines after a break; none if a document marker comes. -/
def plainBreaks (fuel : Nat) (i : Input) : Option (List Char) × Input :=
  match fuel with
  | 0 => (some [], i)
  | fuel + 1 =>
    if i.head == ' ' then plainBreaks fuel i.next
    else if isBreak i.head then
      let (c, i) := i.lineBreak
      if i.atSeparator then (none, i)
      else
        let (more, i) := plainBreaks fuel i
        (more.map (c ++ ·), i)
    else (some [], i)

def plainSpaces (i : Input) : PlainSpaces :=
  let (blanks, i) := i.span (· == ' ')
  if isBreak i.head then
    let (first, i) := i.lineBreak
    if i.atSeparator then ⟨[], true, i⟩
    else
      let (more, i) := plainBreaks (i.rest.length + 1) i
      ⟨(more.map (foldBreak first)).getD [], true, i⟩
  else ⟨blanks, false, i⟩

def isFlowSign (c : Char) : Bool := c == ',' || c == '[' || c == ']' || c == '\x7b' || c == '\x7d'

/-- Whether a plain scalar ends before the character at hand. -/
def endsPlain (inFlow : Bool) (i : Input) : Bool :=
  let c := i.head
  isGap c || (c == ':' && (isGap (i.look 1) || (inFlow && isFlowSign (i.look 1)))) ||
    (inFlow && (isFlowSign c || c == '?'))

/-- The part of a plain scalar up to white space. -/
def plainWord (inFlow : Bool) (fuel : Nat) (i : Input) : List Char × Input :=
  match fuel with
  | 0 => ([], i)
  | fuel + 1 =>
    if endsPlain inFlow i then ([], i)
    else
      let (more, stop) := plainWord inFlow fuel i.next
      (i.head :: more, stop)

/-- A plain scalar: its text, where its last word ended, whether a key may follow, and what is
left. -/
structure Plain where
  text : List Char
  stop : Mark
  keyAllowed : Bool
  input : Input

/-- Outside of flow collections the lines of a plain scalar stand further in than its parent. -/
def readPlain (inFlow : Bool) (indent : Int) (fuel : Nat) (before : Plain) (spaces : List Char) :
    Plain :=
  match fuel with
  | 0 => before
  | fuel + 1 =>
    let i := before.input
    let (word, after) := plainWord inFlow (i.rest.length + 1) i
    if i.head = '#' ∨ word = [] then before
    else
      let gap := plainSpaces after
      let read : Plain := ⟨before.text ++ spaces ++ word, after.mark, gap.broken, gap.input⟩
      if gap.text = [] ∨ gap.input.head = '#' ∨
          (!inFlow ∧ (gap.input.mark.column : Int) < indent) then read
      else readPlain inFlow indent fuel read gap.text

end BulletScript.Yaml
