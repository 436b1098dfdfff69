import BulletScript.Failure
import BulletScript.Number.Reader

/-! Durations such as `500ms`, `2s` or `1m`. -/
namespace BulletScript.Calendar

open Text

/-- The seconds of one unit; without a unit a number counts milliseconds. -/
def unitSeconds? (unit : List Char) : Option Float :=
  if unit = [] ∨ unit = ['m', 's'] then some 0.001
  else if unit = ['s'] then some 1
  else if unit = ['m'] then some 60
  else none

/-- Digits, then perhaps a point and more digits, and what follows them. -/
def cutAmount (cs : List Char) : List Char × List Char :=
  let (whole, rest) := cs.span isDecimal
  match rest with
  | '.' :: more =>
    let (fraction, after) := more.span isDecimal
    if whole.isEmpty || fraction.isEmpty then (whole, rest) else (whole ++ '.' :: fraction, after)
  | _ => (whole, rest)

/-- The seconds of a duration. -/
def parseDuration (s : String) : Result Float :=
  let (amount, rest) := cutAmount (trimChars s.toList)
  let fault : Failure := .action (.invalidDuration s)
  match unitSeconds? (trimLeftChars rest), Number.readFloat? (.ofList amount) with
  | some unit, some n => if amount.isEmpty then .error fault else .ok (n * unit)
  | _, _ => .error fault

end BulletScript.Calendar
