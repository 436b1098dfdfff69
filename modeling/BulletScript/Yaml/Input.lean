import BulletScript.Failure

/-! A YAML text as it is read: what is left of it, where that begins, and the faults found there. -/
namespace BulletScript.Yaml

/-- A place in a text; lines and columns count from zero. -/
structure Mark where
  line : Nat := 0
  column : Nat := 0
  deriving Repr, DecidableEq

/-- A broken rule: what was being read and since where, what is wrong and where. -/
structure Problem where
  level : YamlLevel
  context : Option String := none
  since : Option Mark := none
  text : String
  mark : Mark

/-- Why a text has no value. A value that is written well may still not exist, as the thirtieth of
February. -/
inductive Fault where
  | character (c : Char) (position : Nat)
  | problem (p : Problem)
  | noValue (failure : Failure)

def Mark.text (source : String) (m : Mark) : String :=
  "  in \"" ++ source ++ "\", line " ++ toString (m.line + 1) ++ ", column " ++
    toString (m.column + 1)

/-- The start of what was being read is told where it differs from the place of the problem. -/
def Problem.message (source : String) (p : Problem) : String :=
  let since := p.since.filter (· ≠ p.mark)
  "\n".intercalate (p.context.toList ++ (since.map (·.text source)).toList ++
    [p.text, p.mark.text source])

def Fault.failure (source : String) : Fault → Failure
  | .character c position =>
    .internal (.yaml .characters ("unacceptable character #x" ++
      .ofList (Text.hexDigits 4 c.toNat) ++ ": special characters are not allowed\n  in \"" ++
      source ++ "\", position " ++ toString position))
  | .problem p => .internal (.yaml p.level (p.message source))
  | .noValue failure => failure

abbrev Read (α : Type) := Except Fault α

/-- What is left of a text. -/
structure Input where
  rest : List Char
  mark : Mark := {}
  index : Nat := 0

/-- Stands for the character after the last one. -/
def endOfText : Char := '\x00'

def isBreak (c : Char) : Bool :=
  c == '\n' || c == '\r' || c == '\u0085' || c == '\u2028' || c == '\u2029'

def isLineEnd (c : Char) : Bool := c == endOfText || isBreak c

def isGap (c : Char) : Bool := isLineEnd c || c == ' ' || c == '\t'

def isNameChar (c : Char) : Bool := c.isAlphanum || c == '-' || c == '_'

namespace Input

def head (i : Input) : Char := i.rest.headD endOfText

def look (n : Nat) (i : Input) : Char := i.rest.getD n endOfText

/-- The input after its first character. A byte order mark takes no column. -/
def next (i : Input) : Input :=
  match i.rest with
  | [] => i
  | c :: rest =>
    let mark : Mark :=
      if isBreak c && !(c == '\r' && rest.head? == some '\n') then ⟨i.mark.line + 1, 0⟩
      else if c == '\ufeff' then i.mark
      else ⟨i.mark.line, i.mark.column + 1⟩
    ⟨rest, mark, i.index + 1⟩

def skip (n : Nat) (i : Input) : Input := (List.range n).foldl (fun i _ => i.next) i

/-- The characters up to the first that does not belong, and what follows them. -/
def span (belongs : Char → Bool) (i : Input) : List Char × Input :=
  let taken := i.rest.takeWhile belongs
  (taken, i.skip taken.length)

def skipWhile (belongs : Char → Bool) (i : Input) : Input := (i.span belongs).2

def skipBlanks (i : Input) : Input := i.skipWhile (· == ' ')

def toLineEnd (i : Input) : Input := i.skipWhile (!isBreak ·)

/-- A line break, read as a newline unless it separates lines or paragraphs of Unicode. -/
def lineBreak (i : Input) : List Char × Input :=
  match i.rest with
  | '\r' :: '\n' :: _ => (['\n'], i.skip 2)
  | c :: _ =>
    if c == '\u2028' || c == '\u2029' then ([c], i.next)
    else if isBreak c then (['\n'], i.next)
    else ([], i)
  | [] => ([], i)

/-- A document marker, which stands at the start of a line and before a gap. -/
def atMarker (c : Char) (i : Input) : Bool :=
  i.mark.column == 0 && i.rest.take 3 == [c, c, c] && isGap (i.look 3)

/-- Whether three dashes or dots and a gap follow. -/
def atSeparator (i : Input) : Bool :=
  (i.rest.take 3 == ['-', '-', '-'] || i.rest.take 3 == ['.', '.', '.']) && isGap (i.look 3)

end Input

def shownChar (c : Char) : String := Text.shown c.toString

/-- A fault of the tokens: what was being read since where, and what was found where. -/
def unexpected {α : Type} (context : String) (since : Mark) (text : String) (i : Input) : Read α :=
  .error (.problem ⟨.tokens, some context, some since, text, i.mark⟩)

/-- Only a few of the characters that cannot be printed may stand in a text. -/
def isAllowed (c : Char) : Bool :=
  let n := c.toNat
  n == 9 || n == 10 || n == 13 || (32 ≤ n && n ≤ 126) || n == 0x85 || (0xA0 ≤ n && n ≤ 0xD7FF) ||
    (0xE000 ≤ n && n ≤ 0xFFFD) || 0x10000 ≤ n

def checkCharacters (text : List Char) : Read Unit :=
  match text.findIdx? (!isAllowed ·) with
  | none => .ok ()
  | some position => .error (.character (text.getD position endOfText) position)

end BulletScript.Yaml
