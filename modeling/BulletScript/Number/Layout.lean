import BulletScript.Number.Digits

/-! The written forms of numbers. -/
namespace BulletScript.Number

/-- Which decimal exponents are written positionally, and whether a whole number keeps a point. -/
structure Layout where
  least : Int
  beyond : Int
  keepsPoint : Bool

/-- Values are written positionally from 0.0001 up to 10^16, and a whole number ends in `.0`. -/
def valueLayout : Layout := ⟨-4, 16, true⟩

/-- Six significant digits, positional from 0.0001 up to a million, no point on whole numbers. -/
def generalLayout : Layout := ⟨-4, 6, false⟩

def digitChars (n : Nat) : List Char := Nat.toDigits 10 n

/-- An exponent has a sign and at least two digits. -/
def exponentChars (e : Int) : List Char :=
  let ds := digitChars e.natAbs
  (if e < 0 then '-' else '+') :: (if ds.length < 2 then '0' :: ds else ds)

/-- The magnitude of a decimal, laid out. -/
def Layout.chars (layout : Layout) (v : Decimal) : List Char :=
  let ds := digitChars v.digits
  let e : Int := v.exponent + v.count - 1
  if layout.least ≤ e ∧ e < layout.beyond then
    if e < 0 then '0' :: '.' :: List.replicate ((-e).toNat - 1) '0' ++ ds
    else
      let whole := e.toNat + 1
      if ds.length ≤ whole then
        let ending := if layout.keepsPoint then ['.', '0'] else []
        ds ++ List.replicate (whole - ds.length) '0' ++ ending
      else ds.take whole ++ '.' :: ds.drop whole
  else
    let mantissa := match ds with
      | d :: more@(_ :: _) => d :: '.' :: more
      | _ => ds
    mantissa ++ 'e' :: exponentChars e

def signed (negative : Bool) (cs : List Char) : List Char := if negative then '-' :: cs else cs

def Layout.text (layout : Layout) (digitsOf : Dyadic → Decimal) (x : Float) : String :=
  .ofList <| match decode x with
    | .nan => ['n', 'a', 'n']
    | .infinite negative => signed negative ['i', 'n', 'f']
    | .finite v =>
      if v.mantissa = 0 then
        signed v.negative (if layout.keepsPoint then ['0', '.', '0'] else ['0'])
      else signed v.negative (layout.chars (digitsOf v))

/-- The shortest text that reads back as the number. -/
def floatText (x : Float) : String := valueLayout.text shortest x

/-- The number in at most six significant digits. -/
def generalText (x : Float) : String :=
  generalLayout.text (fun v => let (n, d) := v.ratio; (roundedDecimal n d 6).trimmed) x

def intText (n : Int) : String := .ofList (signed (n < 0) (digitChars n.natAbs))

example : valueLayout.chars ⟨25, 2, -1⟩ = ['2', '.', '5'] := by decide +kernel
example : valueLayout.chars ⟨1, 1, 16⟩ = ['1', 'e', '+', '1', '6'] := by decide +kernel
example : valueLayout.chars ⟨12, 2, 2⟩ = ['1', '2', '0', '0', '.', '0'] := by decide +kernel

end BulletScript.Number
