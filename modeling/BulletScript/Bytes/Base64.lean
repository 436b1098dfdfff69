import BulletScript.Bytes.Utf8

/-! Bytes written with 64 characters, four for every three bytes. -/
namespace BulletScript.Bytes

def alphabet : List Char :=
  "ABCDEFGHIJKLMNOPQRSTUVWXYZabcdefghijklmnopqrstuvwxyz0123456789+/".toList

def sextet (n : Nat) : Char := alphabet.getD (n % 64) 'A'

/-- The base-64 form; the last group is filled up with equals signs. -/
def base64Chars : List UInt8 → List Char
  | [] => []
  | [a] =>
    let n := a.toNat * 65536
    [sextet (n / 262144), sextet (n / 4096), '=', '=']
  | [a, b] =>
    let n := a.toNat * 65536 + b.toNat * 256
    [sextet (n / 262144), sextet (n / 4096), sextet (n / 64), '=']
  | a :: b :: c :: rest =>
    let n := a.toNat * 65536 + b.toNat * 256 + c.toNat
    sextet (n / 262144) :: sextet (n / 4096) :: sextet (n / 64) :: sextet n :: base64Chars rest

def base64 (bytes : List UInt8) : String := .ofList (base64Chars bytes)

example : base64Chars [77, 97, 110, 77] = ['T', 'W', 'F', 'u', 'T', 'Q', '=', '='] := by decide

/-- What is read of a base-64 text: the bytes so far, last first, the place within a group of four,
the bits left over, and the equals signs in a row. -/
structure Unpacking where
  bytes : List UInt8 := []
  place : Nat := 0
  left : Nat := 0
  fill : Nat := 0

def Unpacking.add (u : Unpacking) (n : Nat) : Unpacking :=
  match u.place with
  | 0 => { u with place := 1, left := n, fill := 0 }
  | 1 => { bytes := .ofNat (u.left * 4 + n / 16) :: u.bytes, place := 2, left := n % 16 }
  | 2 => { bytes := .ofNat (u.left * 16 + n / 4) :: u.bytes, place := 3, left := n % 4 }
  | _ => { bytes := .ofNat (u.left * 64 + n) :: u.bytes }

/-- Characters that are not of the alphabet are passed over; equals signs end a group that holds
two or three. -/
def unpack (u : Unpacking) : List Char → Except String (List UInt8)
  | [] =>
    if u.place = 0 then .ok u.bytes.reverse
    else if u.place = 1 then
      .error ("Invalid base64-encoded string: number of data characters (" ++
        toString (u.bytes.length / 3 * 4 + 1) ++ ") cannot be 1 more than a multiple of 4")
    else .error "Incorrect padding"
  | '=' :: rest =>
    if 2 ≤ u.place then
      if 4 ≤ u.place + u.fill + 1 then .ok u.bytes.reverse
      else unpack { u with fill := u.fill + 1 } rest
    else unpack u rest
  | c :: rest =>
    match alphabet.findIdx? (· = c) with
    | some n => unpack (u.add n) rest
    | none => unpack u rest

def ofBase64 (s : String) : Except String (List UInt8) := unpack {} s.toList

end BulletScript.Bytes
