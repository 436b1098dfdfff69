import BulletScript.Text.Blank

/-! Links to documents and images within a line. -/
namespace BulletScript.Documents

open Text

/-- The text between double brackets at the start; it holds no closing bracket. -/
def bracketed? : List Char → Option (List Char)
  | '[' :: '[' :: rest =>
    let (inner, after) := rest.span (· ≠ ']')
    if inner ≠ [] ∧ [']', ']'].isPrefixOf after then some inner else none
  | _ => none

/-- The address in parentheses after a caption in brackets. -/
def captioned? : List Char → Option (List Char)
  | '[' :: rest =>
    match rest.dropWhile (· ≠ ']') with
    | ']' :: '(' :: rest =>
      let (inner, after) := rest.span fun c => c ≠ ')' && !isBlank c
      if inner ≠ [] ∧ after.head? = some ')' then some inner else none
    | _ => none
  | _ => none

/-- The first link behind some character; one behind an exclamation mark is an image. -/
def linkAfter? (before : Option Char) : List Char → Option (List Char)
  | [] => none
  | c :: rest =>
    let here := if before = some '!' then none else bracketed? (c :: rest)
    here.or (linkAfter? (some c) rest)

def imageChars? : List Char → Option (List Char)
  | [] => none
  | '!' :: rest => ((bracketed? rest).or (captioned? rest)).or (imageChars? rest)
  | _ :: rest => imageChars? rest

/-- The target of the first link in a line. -/
def firstLink? (line : String) : Option String := (linkAfter? none line.toList).map .ofList

/-- The target of the first image in a line. -/
def firstImage? (line : String) : Option String := (imageChars? line.toList).map .ofList

example : linkAfter? none ['!', '[', '[', 'a', ']', ']', '[', '[', 'b', ']', ']'] = some ['b'] := by
  decide

/-- A character that stands for itself in an address. -/
def isAddressChar (c : Char) : Bool := c.isAlphanum || "_.-~/".toList.contains c

/-- A path as part of an address: other characters are written as bytes behind percent signs. -/
def addressText (path : String) : String :=
  .ofList (path.toList.flatMap fun c =>
    if isAddressChar c then [c]
    else c.toString.toUTF8.toList.flatMap fun b =>
      let digits := Nat.toDigits 16 (b.toNat / 16) ++ Nat.toDigits 16 (b.toNat % 16)
      '%' :: digits.map Char.toUpper)

example : isAddressChar '~' = true ∧ isAddressChar ' ' = false := by decide

end BulletScript.Documents
