import BulletScript.Calendar.Iso
import BulletScript.Number.Reader
import BulletScript.Yaml.Scalar

/-! What kind of value the text of a plain scalar shows. -/
namespace BulletScript.Yaml

/-- The common start of the tags of plain YAML. -/
def baseTag (name : String) : String := "tag:yaml.org,2002:" ++ name

def isAnyOf (words : List String) (s : String) : Bool := words.contains s

/-- One digit or more, or low lines, after a first digit. -/
def isDigitRun (first : Char → Bool) : List Char → Bool
  | [] => false
  | c :: rest => first c && rest.all fun c => c.isDigit || c == '_'

/-- Numbers to the base of sixty, written with colons; the last part may be cut at a point. -/
def isSixties (first : Char → Bool) (cs : List Char) : Bool :=
  match Text.fields ':' cs with
  | [] | [_] => false
  | head :: parts => isDigitRun first head && parts.all fun part =>
      match part with
      | [a] => a.isDigit
      | [a, b] => '0' ≤ a && a ≤ '5' && b.isDigit
      | _ => false

def isNonZeroDigit (c : Char) : Bool := c.isDigit && c != '0'

def isWholeNumber (cs : List Char) : Bool :=
  let cs := (Number.cutSign cs).2
  match cs with
  | ['0'] => true
  | '0' :: 'b' :: rest => rest ≠ [] && rest.all fun c => c == '0' || c == '1' || c == '_'
  | '0' :: 'x' :: rest => rest ≠ [] && rest.all fun c => isHexDigit c || c == '_'
  | '0' :: rest => rest.all fun c => ('0' ≤ c && c ≤ '7') || c == '_'
  | _ => isDigitRun isNonZeroDigit cs || isSixties isNonZeroDigit cs

/-- Nothing, or an exponent, whose sign must be written. -/
def isExponent : List Char → Bool
  | [] => true
  | e :: s :: rest =>
    (e == 'e' || e == 'E') && (s == '+' || s == '-') && rest ≠ [] && rest.all Char.isDigit
  | _ => false

def isDecimal (cs : List Char) : Bool :=
  let unsigned := (Number.cutSign cs).2
  let isRunChar (c : Char) : Bool := c.isDigit || c == '_'
  let (whole, rest) := unsigned.span fun c => isRunChar c || c == ':'
  match rest with
  | '.' :: after =>
    let (fraction, exponent) := after.span isRunChar
    (isDigitRun Char.isDigit whole && isExponent exponent) ||
      (isSixties Char.isDigit whole && exponent = []) ||
      (whole = [] && unsigned = cs && isDigitRun Char.isDigit fraction && isExponent exponent) ||
      isAnyOf [".inf", ".Inf", ".INF"] (.ofList rest) && whole = [] ||
      isAnyOf [".nan", ".NaN", ".NAN"] (.ofList cs)
  | _ => false

/-- The parts of a moment as written. -/
structure MomentText where
  date : Calendar.Date
  clock : Option (Nat × Nat × Nat)
  fraction : List Char
  zone : Option (Bool × Nat × Nat)

/-- A number of one digit or two. -/
def readOneOrTwo : List Char → Option (Nat × List Char)
  | a :: b :: rest =>
    if a.isDigit && b.isDigit then some (Number.decimalNumber [a, b], rest)
    else if a.isDigit then some (Number.decimalNumber [a], b :: rest)
    else none
  | [a] => if a.isDigit then some (Number.decimalNumber [a], []) else none
  | [] => none

def expectChar (c : Char) : List Char → Option (List Char)
  | [] => none
  | d :: rest => if c = d then some rest else none

def skipGap (cs : List Char) : List Char := cs.dropWhile fun c => c == ' ' || c == '\t'

/-- The zone at the end of a moment: none, or its sign, hours and minutes. -/
def readZone? (cs : List Char) : Option (Option (Bool × Nat × Nat)) :=
  match cs with
  | [] => some none
  | _ => match skipGap cs with
    | ['Z'] => some (some (false, 0, 0))
    | c :: rest =>
      if c = '+' ∨ c = '-' then do
        let (hours, rest) ← readOneOrTwo rest
        match rest with
        | [] => return some (c == '-', hours, 0)
        | ':' :: rest =>
          let (minutes, rest) ← Calendar.cutDigits 2 rest
          guard (rest = [])
          return some (c == '-', hours, minutes)
        | _ => none
      else none
    | [] => none

/-- A day, or a day and a time after the letter T or a gap. -/
def readMoment? (cs : List Char) : Option MomentText := do
  let (year, rest) ← Calendar.cutDigits 4 cs
  let rest ← expectChar '-' rest
  let (month, rest) ← readOneOrTwo rest
  let rest ← expectChar '-' rest
  let (day, rest) ← readOneOrTwo rest
  let date : Calendar.Date := ⟨year, month, day⟩
  match rest with
  | [] => return ⟨date, none, [], none⟩
  | c :: after =>
    let rest ← if c = 'T' ∨ c = 't' then some after
      else if c = ' ' ∨ c = '\t' then some (skipGap after)
      else none
    let (hour, rest) ← readOneOrTwo rest
    let rest ← expectChar ':' rest
    let (minute, rest) ← Calendar.cutDigits 2 rest
    let rest ← expectChar ':' rest
    let (second, rest) ← Calendar.cutDigits 2 rest
    let (fraction, rest) := match rest with
      | '.' :: after => after.span Char.isDigit
      | _ => ([], rest)
    let zone ← readZone? rest
    return ⟨date, some (hour, minute, second), fraction, zone⟩

/-- A day of one digit is no date, but it may stand in a moment. -/
def isMoment (cs : List Char) : Bool :=
  match readMoment? cs with
  | none => false
  | some m => m.clock.isSome || cs.length = 10

/-- The kind that the text of a plain scalar shows. -/
def plainKind (s : String) : String :=
  let cs := s.toList
  if isAnyOf ["yes", "Yes", "YES", "no", "No", "NO", "true", "True", "TRUE", "false", "False",
      "FALSE", "on", "On", "ON", "off", "Off", "OFF"] s then "bool"
  else if isDecimal cs then "float"
  else if isWholeNumber cs then "int"
  else if s = "<<" then "merge"
  else if isAnyOf ["~", "null", "Null", "NULL", ""] s then "null"
  else if isMoment cs then "timestamp"
  else if s = "=" then "value"
  else "str"

example : isWholeNumber ['1', '2', ':', '3', '0'] = true := by decide +kernel
example : isWholeNumber ['0', '8'] = false := by decide +kernel
example : isDecimal ['1', 'e', '3'] = false := by decide +kernel

end BulletScript.Yaml
