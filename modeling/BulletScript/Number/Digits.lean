import BulletScript.Number.Binary64

/-! Decimal digits of binary64 numbers: the fewest that read back, and a given number of them. -/
namespace BulletScript.Number

/-- The value `digits * 10 ^ exponent`, with `count` digits of which the first is not zero. -/
structure Decimal where
  digits : Nat
  count : Nat
  exponent : Int
  deriving Repr, DecidableEq

/-- The number of decimal digits of `n`, at least one. -/
def digitCount (n : Nat) : Nat := (Nat.toDigits 10 n).length

/-- Whether `10 ^ k ≤ n / d`. -/
def reaches (n d : Nat) (k : Int) : Bool :=
  if k < 0 then d ≤ n * tenTo (-k).toNat else d * tenTo k.toNat ≤ n

/-- The `k` with `10 ^ k ≤ n / d < 10 ^ (k + 1)`, from an estimate by powers of two. -/
def decimalExponent (n d : Nat) : Int :=
  let guess := (((n.log2 : Int) - d.log2) * 30103).fdiv 100000
  if reaches n d (guess + 1) then guess + 1
  else if reaches n d guess then guess
  else guess - 1

example : decimalExponent 999 1 = 2 ∧ decimalExponent 1000 1 = 3 ∧ decimalExponent 1 1000 = -3 := by
  decide +kernel

/-- The ratio `n / (d * 10 ^ k)`. -/
def perPowerOfTen (n d : Nat) (k : Int) : Nat × Nat :=
  if k < 0 then (n * tenTo (-k).toNat, d) else (n, d * tenTo k.toNat)

/-- `n / d` rounded to `count` digits, a half going to the even neighbour. -/
def roundedDecimal (n d count : Nat) : Decimal :=
  let k := decimalExponent n d + 1 - count
  let (a, b) := perPowerOfTen n d k
  let digits := roundHalfEven a b
  if digits = tenTo count then ⟨tenTo (count - 1), count, k + 1⟩ else ⟨digits, count, k⟩

/-- Whether `digits * 10 ^ k` lies in the interval of reals that round to `v`; the ends belong to
it when the mantissa is even. Below a power of two the interval is half as wide. -/
def readsBack (v : Dyadic) (digits : Nat) (k : Int) : Bool :=
  let narrow := v.mantissa = twoTo 52 ∧ v.exponent ≠ -1074
  let low := if narrow then 4 * v.mantissa - 1 else 4 * v.mantissa - 2
  let high := 4 * v.mantissa + 2
  let e := v.exponent - 2
  let (a, b) := if k < 0 then (digits, tenTo (-k).toNat) else (digits * tenTo k.toNat, 1)
  let (a, b) := if e < 0 then (a * twoTo (-e).toNat, b) else (a, b * twoTo e.toNat)
  if v.mantissa % 2 = 0 then low * b ≤ a && a ≤ high * b else low * b < a && a < high * b

/-- The candidate with `count` digits that reads back and is nearest to `v`, if there is one. -/
def candidate? (v : Dyadic) (count : Nat) : Option Decimal :=
  let (n, d) := v.ratio
  let k := decimalExponent n d + 1 - count
  let (a, b) := perPowerOfTen n d k
  let below := a / b
  let near := roundHalfEven a b
  let far := if near = below then below + 1 else below
  if readsBack v near k then some ⟨near, digitCount near, k⟩
  else if readsBack v far k then some ⟨far, digitCount far, k⟩
  else none

/-- The same value without zeros at the end of its digits. -/
def Decimal.trimmed (v : Decimal) : Decimal :=
  go v.count v
where
  go : Nat → Decimal → Decimal
    | 0, v => v
    | fuel + 1, v =>
      if v.digits % 10 = 0 ∧ 1 < v.count then
        go fuel ⟨v.digits / 10, v.count - 1, v.exponent + 1⟩
      else v

/-- The fewest digits that read back as `v`, which is not zero. -/
def shortest (v : Dyadic) : Decimal :=
  let (n, d) := v.ratio
  (((List.range 17).findSome? fun i => candidate? v (i + 1)).getD (roundedDecimal n d 17)).trimmed

example : shortest ⟨false, 1, -1074⟩ = ⟨5, 1, -324⟩ := by decide +kernel
example : shortest ⟨false, 0x1999999999999A, -56⟩ = ⟨1, 1, -1⟩ := by decide +kernel

end BulletScript.Number
