import BulletScript.Failure
import BulletScript.Text.Lines

/-! Lines of nested lists: their indentation, the decoration before their content, and the block
of deeper lines below them. -/
namespace BulletScript.Outline

open Text

/-- A tab fills its line up to the next multiple of this many columns. -/
def tabWidth : Nat := 4

def indentWidth (line : String) : Nat := expandedLength tabWidth (leadingBlanks line)

def isBullet (c : Char) : Bool := c = '-' || c = '*' || c = '+'

/-- The status marks a task line may carry. -/
def statusMarks : List Char := ['x', '!', '/', '-', ' ']

/-- A line of a list, taken apart. -/
structure ListLine where
  indent : String
  bullet : Option Char
  status : Option Char
  content : String
  deriving Repr, DecidableEq

/-- The text up to a newline that may only stand at its end. -/
def oneLine? (cs : List Char) : Option (List Char) :=
  let line := cs.takeWhile (· ≠ '\n')
  if cs.length ≤ line.length + 1 then some line else none

/-- The indentation and the bullet of a list line, and what follows the blanks after it. -/
def cutBullet? (cs : List Char) : Option (List Char × Char × List Char) :=
  match cs.dropWhile isBlank with
  | bullet :: c :: rest =>
    if isBullet bullet && isBlank c then
      some (cs.takeWhile isBlank, bullet, rest.dropWhile isBlank)
    else none
  | _ => none

/-- The status mark in brackets at the start, and what follows the one blank after it. -/
def cutStatus? : List Char → Option (Char × List Char)
  | '[' :: status :: ']' :: rest =>
    if status = '\n' then none
    else match rest with
      | c :: more => some (status, if isBlank c then more else rest)
      | [] => some (status, [])
  | _ => none

/-- The content of a list line behind its bullet. -/
def itemContent? (line : String) : Option String := do
  let (_, _, rest) ← cutBullet? line.toList
  return .ofList (← oneLine? rest)

def taskLine? (line : String) : Option ListLine := do
  let (indent, bullet, rest) ← cutBullet? line.toList
  let (status, text) ← cutStatus? rest
  return ⟨.ofList indent, some bullet, some status, .ofList (← oneLine? text)⟩

def itemLine? (line : String) : Option ListLine := do
  let (indent, bullet, rest) ← cutBullet? line.toList
  return ⟨.ofList indent, some bullet, none, .ofList (← oneLine? rest)⟩

/-- A task line, else a list line, else a plain line without the blanks around it. -/
def ListLine.ofText (line : String) : ListLine :=
  ((taskLine? line).or (itemLine? line)).getD ⟨leadingBlanks line, none, none, trim line⟩

/-- A line that belongs below a line indented by `base`: blank, or indented further. -/
def staysBelow (base : Nat) (line : String) : Bool := isBlankText line || base < indentWidth line

/-- How many of the lines below belong to the block: up to the last one with text, before the
first one with text that is not indented further. -/
def bodyLength (base : Nat) (below : List String) : Nat :=
  ((below.takeWhile (staysBelow base)).reverse.dropWhile isBlankText).length

/-- The index of the last line of the block that starts at `index`. -/
def blockEnd (lines : List String) (index : Nat) : Nat :=
  index + bodyLength (indentWidth (lines.getD index "")) (lines.drop (index + 1))

/-- The end of the block at an index that may count from the end; the lines below it are then
followed by all lines from the first on. -/
def blockEndAt (lines : List String) (index : Int) : Result Int :=
  let start := if index < 0 then index + lines.length else index
  if start < 0 ∨ lines.length ≤ start then
    .error (.internal (.outOfRange "list index out of range"))
  else
    let below := lines.drop (start.toNat + 1) ++ if index < 0 then lines else []
    .ok (index + bodyLength (indentWidth (lines.getD start.toNat "")) below)

end BulletScript.Outline
