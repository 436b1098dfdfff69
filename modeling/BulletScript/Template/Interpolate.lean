import BulletScript.Template.Token
import BulletScript.Expr.Eval

/-! Templates filled with values, and the conditions written with them. -/
namespace BulletScript.Template

/-- The value of a placeholder, which has to be written. Under `strict` a required name must have
one; otherwise a missing name reads as null. -/
def placeholderValue (vars : Record) (strict : Bool) (inner : String) : Result Value := do
  match ← tokenOf? inner with
  | none => match evaluate (Text.trim inner) vars with
    | .error (.pattern (.missingVariable name)) =>
      if strict then .error (.pattern (.missingVariable name)) else return .null
    | result => do
      let v ← result
      v.checkWritable
      return v
  | some token => match ← resolvePath vars token.name with
    | none =>
      if strict && !token.isOptional then .error (.pattern (.missingVariable token.name))
      else return .null
    | some v => do
      v.checkWritable
      match token.kind, v with
      | .list delimiter, .list items =>
        return .str (Text.join delimiter (items.map Value.templateText))
      | _, _ => return v

/-- The text of one segment; what is substituted passes through `escape`. -/
def segmentText (vars : Record) (strict : Bool) (escape : String → String) :
    Segment → Result String
  | .literal text => .ok text
  | .placeholder inner _ =>
    if isCursor inner then .ok cursorMarker
    else do return escape (← placeholderValue vars strict inner).templateText

def segmentsText (vars : Record) (strict : Bool) (escape : String → String) :
    List Segment → Result String
  | [] => .ok ""
  | segment :: rest => do
    let text ← segmentText vars strict escape segment
    return text ++ (← segmentsText vars strict escape rest)

/-- A template with every placeholder replaced by its value. -/
def interpolateWith (escape : String → String) (strict : Bool) (template : String)
    (vars : Record) : Result String := do
  segmentsText vars strict escape (← segments template)

def interpolate (template : String) (vars : Record) : Result String :=
  interpolateWith id true template vars

/-- Missing names read as empty. -/
def interpolateLenient (template : String) (vars : Record) : Result String :=
  interpolateWith id false template vars

/-- The first of the operators that a text starts with, when more follows it. Longer ones go
before those they start with. -/
def cutCompareOp (cs : List Char) : Option (CompareOp × List Char) :=
  [CompareOp.eq, .ne, .ge, .le, .gt, .lt].findSome? fun op =>
    let mark := op.text.toList
    if mark.isPrefixOf cs && mark.length < cs.length then some (op, cs.drop mark.length) else none

/-- The sides of the first comparison after the characters already read, latest first. -/
def splitComparisonFrom (left : List Char) (cs : List Char) :
    Option (List Char × CompareOp × List Char) :=
  match cutCompareOp (cs.dropWhile Text.isBlank) with
  | some (op, right) => some (left.reverse, op, right)
  | none => match cs with
    | [] => none
    | c :: rest => splitComparisonFrom (c :: left) rest

/-- The sides of a comparison; the left one is not empty. -/
def splitComparison (cs : List Char) : Option (List Char × CompareOp × List Char) :=
  match cs with
  | [] => none
  | c :: rest => splitComparisonFrom [c] rest

/-- Whether a condition holds: a comparison of two literals, or the truth of one. -/
def conditionText (text : String) : Bool :=
  match splitComparison text.toList with
  | some (left, op, right) =>
    op.holds (parseLiteral (.ofList (Text.trimChars left)))
      (parseLiteral (.ofList (Text.trimChars right)))
  | none => (parseLiteral text).truthy

def condition (expression : String) (vars : Record) : Result Bool := do
  return conditionText (Text.trim (← interpolateLenient expression vars))

end BulletScript.Template
