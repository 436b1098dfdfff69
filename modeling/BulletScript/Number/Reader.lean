import BulletScript.Number.Arithmetic
import BulletScript.Text.Blank
import BulletScript.Text.Word
import BulletScript.Text.Case

/-! Numbers read from text. -/
namespace BulletScript.Number

/-- Whole numbers of more digits than this are not read. -/
def digitLimit : Nat := 4300

/-- A run of decimal digits of any script in which single low lines may separate digits: its value
and length. -/
def readDigits (cs : List Char) : Option (Nat × Nat) :=
  match cs with
  | [] => none
  | c :: rest => (Text.decimalValue? c).bind fun d => go d 1 rest
where
  go (value count : Nat) : List Char → Option (Nat × Nat)
    | [] => some (value, count)
    | '_' :: c :: rest => (Text.decimalValue? c).bind fun d => go (10 * value + d) (count + 1) rest
    | c :: rest => (Text.decimalValue? c).bind fun d => go (10 * value + d) (count + 1) rest

/-- A sign and what follows it. -/
def cutSign : List Char → Bool × List Char
  | '-' :: rest => (true, rest)
  | '+' :: rest => (false, rest)
  | cs => (false, cs)

/-- A whole number with blanks around it. -/
def readInt? (s : String) : Option Int :=
  let (negative, cs) := cutSign (Text.trimChars s.toList)
  match readDigits cs with
  | some (value, count) =>
    if digitLimit < count then none else some (if negative then -value else value)
  | none => none

/-- The digits before anything else, as in a number that may go on with a point or an exponent. -/
def spanDigits (cs : List Char) : List Char × List Char := cs.span Char.isDigit

def decimalNumber (digits : List Char) : Nat :=
  digits.foldl (fun n c => 10 * n + (c.toNat - 48)) 0

/-- The exponent part of a number, if one follows; otherwise zero and nothing read. -/
def readExponent (cs : List Char) : Int × List Char :=
  match cs with
  | e :: rest =>
    if e = 'e' ∨ e = 'E' then
      let (negative, rest) := cutSign rest
      let (digits, after) := spanDigits rest
      if digits = [] then (0, cs)
      else (if negative then -(decimalNumber digits : Int) else decimalNumber digits, after)
    else (0, cs)
  | [] => (0, cs)

/-- A decimal with a digit before or after its point, and an optional exponent; nothing may
follow. -/
def readDecimal (negative : Bool) (cs : List Char) : Option Float :=
  let (whole, rest) := spanDigits cs
  let (fraction, rest) := match rest with
    | '.' :: after => spanDigits after
    | _ => ([], rest)
  if whole = [] ∧ fraction = [] then none
  else
    let (exponent, rest) := readExponent rest
    if rest ≠ [] then none
    else some (ofDecimal negative (decimalNumber (whole ++ fraction)) (exponent - fraction.length))

/-- Low lines are dropped where digits stand on both sides; anywhere else they spoil the number. -/
def dropSeparators (before : Option Char) : List Char → Option (List Char)
  | [] => some []
  | '_' :: rest =>
    match before, rest with
    | some b, c :: _ =>
      if b.isDigit && c.isDigit then dropSeparators none rest else none
    | _, _ => none
  | c :: rest => (dropSeparators (some c) rest).map (c :: ·)

/-- Decimal digits of any script written with the ten ASCII digits. -/
def asciiDigits (cs : List Char) : List Char :=
  cs.map fun c => (Text.decimalValue? c).elim c fun d => Char.ofNat (48 + d)

/-- A number with blanks around it, or one of the words for infinity and not-a-number. -/
def readFloat? (s : String) : Option Float := do
  let cs ← dropSeparators none (asciiDigits (Text.trimChars s.toList))
  let (negative, cs) := cutSign cs
  let word := (Text.lower (.ofList cs))
  if word = "inf" ∨ word = "infinity" then return infinity negative
  else if word = "nan" then return notANumber
  else readDecimal negative cs

end BulletScript.Number
