import BulletScript.Text.Search

/-! What commands show. Text has styles in it: a tag between brackets begins or ends a style, and a
backslash before a bracket makes it plain. Lines have styles, and tables may stand in a frame. -/
namespace BulletScript.Console

/-- A character that a tag can begin with. -/
def startsTag (c : Char) : Bool := ('a' ≤ c && c ≤ 'z') || c = '#' || c = '/' || c = '@'

/-- The tag that a text begins with, and what follows it. -/
def cutTag? : List Char → Option (List Char × List Char)
  | '[' :: c :: rest =>
    let (inner, after) := rest.span fun x => x ≠ '[' && x ≠ ']'
    match after with
    | ']' :: after => if startsTag c then some ('[' :: c :: inner ++ [']'], after) else none
    | _ => none
  | _ => none

/-- A text with a backslash before each tag. Backslashes right before a tag are doubled; `slashes`
of them have been passed. -/
def escapeFrom (slashes fuel : Nat) (cs : List Char) : List Char :=
  match fuel, cs with
  | fuel + 1, c :: rest =>
    if c = '\\' then escapeFrom (slashes + 1) fuel rest
    else match cutTag? cs with
      | some (tag, after) =>
        List.replicate (2 * slashes + 1) '\\' ++ tag ++ escapeFrom 0 fuel after
      | none => List.replicate slashes '\\' ++ c :: escapeFrom 0 fuel rest
  | _, _ => List.replicate slashes '\\'

/-- A text as it is written among styles. -/
def escape (s : String) : String :=
  let t := escapeFrom 0 s.length s.toList
  let odd := t.getLast? = some '\\' && t.dropLast.getLast? ≠ some '\\'
  .ofList (if odd then t ++ ['\\'] else t)

/-- A text without its styles; `slashes` backslashes have been passed. -/
def plainFrom (slashes fuel : Nat) (cs : List Char) : List Char :=
  match fuel, cs with
  | fuel + 1, c :: rest =>
    if c = '\\' then plainFrom (slashes + 1) fuel rest
    else match cutTag? cs with
      | some (tag, after) =>
        List.replicate (slashes / 2) '\\' ++ (if slashes % 2 = 1 then tag else []) ++
          plainFrom 0 fuel after
      | none => List.replicate slashes '\\' ++ c :: plainFrom 0 fuel rest
  | _, _ => List.replicate slashes '\\'

def plain (s : String) : String := .ofList (plainFrom 0 s.length s.toList)

example : escapeFrom 0 9 "a[b] [1]\\".toList = "a\\[b] [1]\\".toList := by decide +kernel
example : plainFrom 0 9 "[b]\\[c]\\x".toList = "[c]\\x".toList := by decide +kernel

/-- A table; its cells are texts with styles. -/
structure Table where
  title : Option String := none
  columns : List String
  rows : List (List String) := []
  deriving Repr, DecidableEq

inductive Printed where
  | markup (text : String)
  | styled (text style : String)
  | table (t : Table)
  | panel (title border : String) (body : Table)
  deriving Repr, DecidableEq

/-- A text in a style. -/
def inStyle (style text : String) : String := "[" ++ style ++ "]" ++ text ++ "[/" ++ style ++ "]"

def Table.lines (t : Table) : List String :=
  (t.title.map plain).toList ++ t.rows.map fun cells => "  ".intercalate (cells.map plain)

/-- The lines that are left without styles and frames. -/
def Printed.lines : Printed → List String
  | .markup text => [plain text]
  | .styled text _ => [text]
  | .table t => t.lines
  | .panel title _ body => plain title :: body.lines

end BulletScript.Console
