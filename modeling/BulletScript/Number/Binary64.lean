/-! Binary64 numbers as exact dyadic values, and the rounding of ratios to them. -/
namespace BulletScript.Number

abbrev twoTo (n : Nat) : Nat := Nat.pow 2 n

abbrev tenTo (n : Nat) : Nat := Nat.pow 10 n

/-- The magnitude `mantissa * 2 ^ exponent` with its sign. -/
structure Dyadic where
  negative : Bool
  mantissa : Nat
  exponent : Int
  deriving Repr, DecidableEq

inductive Binary64 where
  | finite (value : Dyadic)
  | infinite (negative : Bool)
  | nan
  deriving Repr, DecidableEq

/-- The exact meaning of the fields of a word. -/
def Binary64.ofBits (bits : Nat) : Binary64 :=
  let negative := bits / twoTo 63 == 1
  let field : Nat := bits / twoTo 52 % twoTo 11
  let fraction := bits % twoTo 52
  if field = 2047 then if fraction = 0 then .infinite negative else .nan
  else if field = 0 then .finite ⟨negative, fraction, -1074⟩
  else .finite ⟨negative, twoTo 52 + fraction, (field : Int) - 1075⟩

def decode (x : Float) : Binary64 := .ofBits x.toBits.toNat

example : Binary64.ofBits 0x3FF8000000000000 = .finite ⟨false, 3 * twoTo 51, -52⟩ := by
  decide +kernel

/-- `n / d` rounded to a whole number, a half going to the even neighbour. -/
def roundHalfEven (n d : Nat) : Nat :=
  let q := n / d
  let twice := 2 * (n % d)
  if twice < d then q else if d < twice then q + 1 else q + q % 2

example : roundHalfEven 5 2 = 2 ∧ roundHalfEven 7 2 = 4 ∧ roundHalfEven 8 3 = 3 := by decide

/-- The ratio `n * 2 ^ -e / d` as a numerator and a denominator. -/
def scaled (n d : Nat) (e : Int) : Nat × Nat :=
  if e < 0 then (n * twoTo (-e).toNat, d) else (n, d * twoTo e.toNat)

/-- The power of two at which `n / d` has a 53-bit whole part, no lower than the smallest step. -/
def scaleOf (n d : Nat) : Int :=
  let e := (n.log2 : Int) - d.log2 - 52
  let (a, b) := scaled n d e
  let e := if a / b < twoTo 52 then e - 1 else e
  max e (-1074)

/-- The word of the number nearest to `n / d`, or `none` beyond the largest finite number. -/
def roundBits (n d : Nat) : Option Nat :=
  if n = 0 then some 0
  else
    let e := scaleOf n d
    let (a, b) := scaled n d e
    let bits := (e + 1074).toNat * twoTo 52 + roundHalfEven a b
    if bits < 2047 * twoTo 52 then some bits else none

example : roundBits 1 2 = some 0x3FE0000000000000 := by decide +kernel
example : roundBits 1 3 = some 0x3FD5555555555555 := by decide +kernel

def withSign (negative : Bool) (bits : Nat) : Float :=
  .ofBits (.ofNat (if negative then twoTo 63 + bits else bits))

def infinity (negative : Bool) : Float := withSign negative (2047 * twoTo 52)

def notANumber : Float := withSign false (2047 * twoTo 52 + twoTo 51)

/-- The number nearest to a ratio of whole numbers, when it is finite. -/
def roundRatio? (n : Int) (d : Nat) : Option Float :=
  (roundBits n.natAbs d).map (withSign (n < 0))

/-- The exact value of the number nearest to a ratio, when it is finite. -/
def nearest? (negative : Bool) (n d : Nat) : Option Dyadic :=
  match (roundBits n d).map Binary64.ofBits with
  | some (.finite v) => some { v with negative }
  | _ => none

/-- The number nearest to a whole number, when it is finite. -/
def ofInt? (n : Int) : Option Float := roundRatio? n 1

/-- The number nearest to `digits * 10 ^ exponent`; too large a magnitude becomes infinite.
Exponents far outside the range of finite numbers are decided without computing the power. -/
def ofDecimal (negative : Bool) (digits : Nat) (exponent : Int) : Float :=
  let size : Int := (Nat.log2 digits) * 30103 / 100000 + exponent
  if digits = 0 then withSign negative 0
  else if size > 400 then infinity negative
  else if size < -400 then withSign negative 0
  else
    let (n, d) := if exponent < 0 then (digits, tenTo (-exponent).toNat)
      else (digits * tenTo exponent.toNat, 1)
    match roundBits n d with
    | some bits => withSign negative bits
    | none => infinity negative

/-- The numerator and denominator of a magnitude. -/
def Dyadic.ratio (v : Dyadic) : Nat × Nat :=
  if v.exponent < 0 then (v.mantissa, twoTo (-v.exponent).toNat)
  else (v.mantissa * twoTo v.exponent.toNat, 1)

/-- The value without its fraction. -/
def Dyadic.truncate (v : Dyadic) : Int :=
  let (n, d) := v.ratio
  if v.negative then -((n / d : Nat) : Int) else ((n / d : Nat) : Int)

/-- The value rounded to a whole number, a half going to the even neighbour. -/
def Dyadic.round (v : Dyadic) : Int :=
  let (n, d) := v.ratio
  if v.negative then -(roundHalfEven n d : Int) else (roundHalfEven n d : Int)

/-- The order of a whole number and an exact value. -/
def Dyadic.compareInt (n : Int) (v : Dyadic) : Ordering :=
  let (a, d) := v.ratio
  compare (n * d) (if v.negative then -(a : Int) else (a : Int))

end BulletScript.Number
