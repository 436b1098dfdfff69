import BulletScript.Failure
import BulletScript.Number.Reader
import BulletScript.Value.Shown

/-! Values taken as whole numbers or as floats. -/
namespace BulletScript

/-- The whole number that a text writes. -/
def wholeText (s : String) : Result Int :=
  match Number.readInt? s with
  | some n => .ok n
  | none =>
    match Number.readDigits (Number.cutSign (Text.trimChars s.toList)).2 with
    | some (_, count) => .error (.internal (.tooManyDigits count))
    | none => .error (.internal (.notInt s))

/-- Each byte as one character. -/
def byteText (data : List UInt8) : String := .ofList (data.map fun b => Char.ofNat b.toNat)

/-- The float that a text writes; `shown` is how it is told of. -/
def floatOfText (s shown : String) : Result Float :=
  match Number.readFloat? s with
  | some x => .ok x
  | none => .error (.internal (.badValue ("could not convert string to float: " ++ shown)))

namespace Value

/-- The name of the type of a value. -/
def typeName : Value → String
  | .null => "NoneType"
  | .bool _ => "bool"
  | .int _ => "int"
  | .float _ => "float"
  | .str _ => "str"
  | .bytes _ => "bytes"
  | .stamp s => if s.time.isSome then "datetime.datetime" else "datetime.date"
  | .list _ => "list"
  | .map _ => "dict"

/-- The whole number that a value writes or is cut down to. -/
def whole : Value → Result Int
  | .bool b => .ok (if b then 1 else 0)
  | .int n => .ok n
  | .float x => .ofNumber (Number.float x).truncate
  | .str s => wholeText s
  | .bytes data =>
    match wholeText (byteText data) with
    | .ok n => .ok n
    | .error _ => .error (.internal (.badValue
        ("invalid literal for int() with base 10: " ++ (Value.bytes data).shown)))
  | v => .error (.internal (.badType
      ("int() argument must be a string, a bytes-like object or a real number, not '" ++
        v.typeName ++ "'")))

/-- The float that a value writes or comes closest to. -/
def toFloat : Value → Result Float
  | .bool b => .ok (if b then 1 else 0)
  | .int n => .ofNumber (Number.int n).toFloat
  | .float x => .ok x
  | .str s => floatOfText s (Text.shown s)
  | .bytes data => floatOfText (byteText data) (Text.shownBytes data)
  | v => .error (.internal (.badType
      ("float() argument must be a string or a real number, not '" ++ v.typeName ++ "'")))

end Value

end BulletScript
