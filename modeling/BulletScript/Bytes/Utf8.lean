import BulletScript.Text.Quoted

/-! Text as bytes, and bytes read back as text. -/
namespace BulletScript.Bytes

/-- Why bytes are no text. -/
inductive Reason where
  | start | continuation | cutOff
  deriving Repr, DecidableEq

def Reason.text : Reason → String
  | .start => "invalid start byte"
  | .continuation => "invalid continuation byte"
  | .cutOff => "unexpected end of data"

/-- A character, or the bytes that begin none. -/
inductive Piece where
  | char (c : Char)
  | bad (bytes : List UInt8) (reason : Reason)
  deriving Repr, DecidableEq

def isContinuation (b : UInt8) : Bool := 0x80 ≤ b && b < 0xC0

/-- The bytes that may follow a start byte, which say that no shorter form exists and that the
character is one. -/
def mayFollow (start b : UInt8) : Bool :=
  isContinuation b && !(start = 0xE0 && b < 0xA0) && !(start = 0xED && 0xA0 ≤ b) &&
    !(start = 0xF0 && b < 0x90) && !(start = 0xF4 && 0x90 ≤ b)

/-- How many bytes follow a start byte. -/
def following (start : UInt8) : Option Nat :=
  if start < 0x80 then some 0
  else if start < 0xC2 then none
  else if start < 0xE0 then some 1
  else if start < 0xF0 then some 2
  else if start < 0xF5 then some 3
  else none

/-- The bytes of a character behind its start byte, as far as they are right. -/
def followers (start : UInt8) (count : Nat) : List UInt8 → List UInt8
  | [] => []
  | b :: rest =>
    if count = 0 then []
    else if mayFollow start b then b :: (rest.takeWhile isContinuation).take (count - 1)
    else []

/-- The character that a start byte and its followers write. -/
def charOf (start : UInt8) (rest : List UInt8) : Char :=
  let low := match rest.length with
    | 0 => start.toNat
    | 1 => start.toNat % 32
    | 2 => start.toNat % 16
    | _ => start.toNat % 8
  .ofNat (rest.foldl (fun n b => 64 * n + b.toNat % 64) low)

/-- The first piece of some bytes, and how many bytes behind the first belong to it. -/
def firstPiece (start : UInt8) (rest : List UInt8) : Piece × Nat :=
  match following start with
  | none => (.bad [start] .start, 0)
  | some count =>
    let tail := followers start count rest
    if tail.length = count then (.char (charOf start tail), count)
    else if tail.length = rest.length then (.bad (start :: tail) .cutOff, tail.length)
    else (.bad (start :: tail) .continuation, tail.length)

/-- Bytes cut into characters and what is none. -/
def pieces : List UInt8 → List Piece
  | [] => []
  | start :: rest => (firstPiece start rest).1 :: pieces (rest.drop (firstPiece start rest).2)
termination_by bytes => bytes.length
decreasing_by simp only [List.length_drop, List.length_cons]; omega

/-- The bytes of a text. -/
def ofText (s : String) : List UInt8 := s.toUTF8.toList

/-- What is wrong at a position, in words. -/
def faultText (position : Nat) (bytes : List UInt8) (reason : Reason) : String :=
  let place := match bytes with
    | [b] =>
      "byte 0x" ++ .ofList (Text.hexDigits 2 b.toNat) ++ " in position " ++ toString position
    | _ =>
      "bytes in position " ++ toString position ++ "-" ++ toString (position + bytes.length - 1)
  "'utf-8' codec can't decode " ++ place ++ ": " ++ reason.text

/-- The characters of the pieces, or the first fault. -/
def charsOf (position : Nat) : List Piece → Except String (List Char)
  | [] => .ok []
  | .char c :: rest => (charsOf (position + c.utf8Size) rest).map (c :: ·)
  | .bad bytes reason :: _ => .error (faultText position bytes reason)

/-- The text that some bytes write, or what is wrong with them. -/
def toText (bytes : List UInt8) : Except String String :=
  (charsOf 0 (pieces bytes)).map .ofList

/-- The text that some bytes write, with a mark in place of each fault. -/
def toTextLossy (bytes : List UInt8) : String :=
  .ofList <| (pieces bytes).map fun
    | .char c => c
    | .bad .. => '\ufffd'

end BulletScript.Bytes
