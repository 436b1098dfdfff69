import BulletScript.Failure
import BulletScript.Text.Lines

/-! A text under edit: its lines, a cursor and a selection. -/
namespace BulletScript

structure Cursor where
  line : Int
  column : Int
  deriving Repr, DecidableEq

structure Buffer where
  lines : List String
  cursor : Cursor := ⟨0, 0⟩
  selection : String := ""
  deriving Repr, DecidableEq

/-- Positions that may count from the end, cut down to those a list has. -/
def clampIndex (length : Nat) (i : Int) : Nat :=
  if i < 0 then (i + length).toNat else min i.toNat length

/-- A list with the items from `start` up to `stop` exchanged for others. -/
def splice {α : Type} (items : List α) (start stop : Int) (new : List α) : List α :=
  let first := clampIndex items.length start
  let last := max first (clampIndex items.length stop)
  items.take first ++ new ++ items.drop last

namespace Buffer

def ofText (s : String) : Buffer := { lines := Text.lines s }

def text (b : Buffer) : String := Text.unlines b.lines

def line (b : Buffer) (index : Int) : Result String :=
  match if 0 ≤ index then b.lines[index.toNat]? else none with
  | some line => .ok line
  | none =>
    let last : Int := (b.lines.length : Int) - 1
    .error (.internal (.outOfRange
      ("Line " ++ toString index ++ " is outside the buffer (0.." ++ toString last ++ ")")))

/-- Moves the cursor to the position next to the one asked for that the text has. -/
def setCursor (b : Buffer) (position : Cursor) : Result Buffer :=
  let line := min (max position.line 0) ((b.lines.length : Int) - 1)
  match b.lines[line.toNat]? with
  | some text =>
    .ok { b with cursor := ⟨line, min (max position.column 0) text.length⟩ }
  | none => .error (.internal (.outOfRange "list index out of range"))

/-- Exchanges the lines from `first` to `last` for others. -/
def replaceLines (b : Buffer) (first last : Int) (new : List String) : Buffer :=
  { b with lines := splice b.lines first (last + 1) new }

/-- Adds lines below a line. -/
def insertLines (b : Buffer) (after : Int) (new : List String) : Buffer :=
  { b with lines := splice b.lines (after + 1) (after + 1) new }

end Buffer

end BulletScript
