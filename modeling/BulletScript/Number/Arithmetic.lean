import BulletScript.Number.Binary64

/-! Arithmetic and order on whole numbers of any size and binary64 numbers together. Two whole
numbers stay exact except under division; with a float on one side the other becomes one. -/
namespace BulletScript

inductive Number where
  | int (n : Int)
  | float (x : Float)

/-- What makes an arithmetic step fail. -/
inductive NumberFault where
  | intTooLarge
  | quotientTooLarge
  | infinityToInt
  | nanToInt
  deriving Repr, DecidableEq

def NumberFault.message : NumberFault → String
  | .intTooLarge => "int too large to convert to float"
  | .quotientTooLarge => "integer division result too large for a float"
  | .infinityToInt => "cannot convert float infinity to integer"
  | .nanToInt => "cannot convert float NaN to integer"

namespace Number

/-- The order of two numbers by exact value; a number that is not a number has no order. -/
def order : Number → Number → Option Ordering
  | .int a, .int b => some (compare a b)
  | .int a, .float y => match decode y with
    | .finite v => some (v.compareInt a)
    | .infinite negative => some (if negative then .gt else .lt)
    | .nan => none
  | .float x, .int b => match decode x with
    | .finite v => some (v.compareInt b).swap
    | .infinite negative => some (if negative then .lt else .gt)
    | .nan => none
  | .float x, .float y =>
    if x < y then some .lt else if y < x then some .gt else if x == y then some .eq else none

/-- Whether two numbers have the same value. -/
def same (a b : Number) : Bool := order a b == some .eq

def less (a b : Number) : Bool := order a b == some .lt

def atMost (a b : Number) : Bool := order a b == some .lt || order a b == some .eq

def isZero (a : Number) : Bool := same a (.int 0)

def toFloat : Number → Except NumberFault Float
  | .int n => match ofInt? n with
    | some x => .ok x
    | none => .error .intTooLarge
  | .float x => .ok x

/-- The whole part of a number. -/
def truncate : Number → Except NumberFault Int
  | .int n => .ok n
  | .float x => match decode x with
    | .finite v => .ok v.truncate
    | .infinite _ => .error .infinityToInt
    | .nan => .error .nanToInt

def lift (onInts : Int → Int → Int) (onFloats : Float → Float → Float) :
    Number → Number → Except NumberFault Number
  | .int a, .int b => .ok (.int (onInts a b))
  | a, b => do return .float (onFloats (← a.toFloat) (← b.toFloat))

def add : Number → Number → Except NumberFault Number := lift (· + ·) (· + ·)
def sub : Number → Number → Except NumberFault Number := lift (· - ·) (· - ·)
def mul : Number → Number → Except NumberFault Number := lift (· * ·) (· * ·)

/-- The remainder of two finite magnitudes, exact, with the sign of the first. -/
def Dyadic.remainder (x y : Dyadic) : Float :=
  let e := min x.exponent y.exponent
  let a := x.mantissa * twoTo (x.exponent - e).toNat
  let b := y.mantissa * twoTo (y.exponent - e).toNat
  let (n, d) := Dyadic.ratio ⟨false, a % b, e⟩
  (roundBits n d).elim (infinity x.negative) (withSign x.negative)

/-- The remainder with the sign of the divisor. -/
def floatMod (x y : Float) : Float :=
  match decode x, decode y with
  | .nan, _ | _, .nan | .infinite _, _ => notANumber
  | .finite v, .infinite negative =>
    if v.mantissa = 0 then withSign negative 0
    else if v.negative = negative then x else x + y
  | .finite v, .finite w =>
    let r := Dyadic.remainder v w
    if r == 0 then withSign w.negative 0
    else if v.negative = w.negative then r else r + y

/-- The remainder of the division rounded down; the divisor is not zero. -/
def mod : Number → Number → Except NumberFault Number := lift Int.fmod floatMod

/-- The quotient of two whole numbers, rounded once. -/
def intQuotient (a b : Int) : Except NumberFault Float :=
  match roundBits a.natAbs b.natAbs with
  | some bits => .ok (withSign (a ≠ 0 && decide (a < 0) != decide (b < 0)) bits)
  | none => .error .quotientTooLarge

def quotient : Number → Number → Except NumberFault Float
  | .int a, .int b => intQuotient a b
  | a, b => do return (← a.toFloat) / (← b.toFloat)

/-- Division by a number that is not zero. A quotient without a fraction is a whole number. -/
def div (a b : Number) : Except NumberFault Number := do
  let q ← quotient a b
  let whole ← truncate (.float q)
  return if same (.float q) (.int whole) then .int whole else .float q

def abs : Number → Number
  | .int n => .int n.natAbs
  | .float x => .float x.abs

end Number
end BulletScript
