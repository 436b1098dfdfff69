import BulletScript.Documents.Store
import BulletScript.Tasks.Item

/-! Edits of a work item: of the content of its line and of the lines below it. -/
namespace BulletScript.Tasks

open Text Outline

/-- A line below a work item; its depth is counted from the lines directly below. -/
structure ChildLine where
  text : String
  indent : Int := 0
  marker : String := "-"
  deriving Repr, DecidableEq

/-- One edit of a work item. Its parts are applied in the order in which they stand here. -/
structure Update where
  replace : Option (String → String) := none
  prepend : String := ""
  append : String := ""
  removeAll : Bool := false
  removeMarked : String := ""
  removeOffsets : List Int := []
  replaceChildren : Option (List ChildLine) := none
  injectAt : Option (Int × List ChildLine) := none
  prependChildren : List ChildLine := []
  appendChildren : List ChildLine := []

/-- The line of a child below a line with indentation `base`. -/
def ChildLine.line (unit base : String) (child : ChildLine) : String :=
  base ++ repeated unit (child.indent + 1).toNat ++ child.marker ++ " " ++ child.text

/-- The lines without those whose bullet is among the markers, and without what lies below these.
`above` is the width of a dropped line that the next lines may lie below. -/
def dropMarkedBelow (markers : List Char) (above : Option Nat) : List String → List String
  | [] => []
  | line :: rest =>
    if above.any fun width => isBlankText line || width < indentWidth line then
      dropMarkedBelow markers above rest
    else if (ListLine.ofText line).bullet.any markers.contains then
      dropMarkedBelow markers (some (indentWidth line)) rest
    else line :: dropMarkedBelow markers none rest

def dropMarked (markers : String) (ls : List String) : List String :=
  dropMarkedBelow markers.toList none ls

namespace Update

/-- The content of the item's line after the edit. -/
def content (u : Update) (old : String) : String :=
  let new := (u.replace.map (· old)).getD old
  let new := if u.prepend = "" then new else u.prepend ++ " " ++ new
  if u.append = "" then new else new ++ " " ++ u.append

/-- The lines below the item that stay; offsets count them from 1. -/
def kept (u : Update) (children : List String) : List String :=
  let children := if u.removeAll then [] else children
  let children := if u.removeMarked = "" then children else dropMarked u.removeMarked children
  (children.zipIdx.filter fun (_, i) => !u.removeOffsets.contains ((i : Int) + 1)).map (·.1)

/-- Lines that stay, and new ones put where the edit wants them. -/
def arrange {α : Type} (u : Update) (write : ChildLine → α) (kept : List α) : List α :=
  let ls := (u.replaceChildren.map (List.map write)).getD kept
  let ls := match u.injectAt with
    | some (offset, injected) =>
      let position := (offset - 1).toNat
      ls.take position ++ injected.map write ++ ls.drop position
    | none => ls
  u.prependChildren.map write ++ ls ++ u.appendChildren.map write

/-- The lines below the item after the edit. -/
def children (u : Update) (unit base : String) (old : List String) : List String :=
  u.arrange (ChildLine.line unit base) (u.kept old)

end Update

/-- The indentation and decoration of a line, before its content. -/
def decoration (line : String) : String := dropEnd (ListLine.ofText line).content.length line

/-- The index of the item's line: where it was, else the first line with its text. -/
def locate (ls : List String) (item : WorkItem) : Option Nat :=
  let holds (line : String) : Bool := (ListLine.ofText line).content = item.text
  if 0 ≤ item.line && (ls[item.line.toNat]?).any holds then some item.line.toNat
  else ls.findIdx? holds

/-- The lines of a document after an edit of the item at an index. -/
def editLines (unit : String) (u : Update) (ls : List String) (index : Nat) : List String :=
  let line := ls.getD index ""
  let stop := blockEnd ls index + 1
  let old := (ls.take stop).drop (index + 1)
  ls.take index ++
    (decoration line ++ u.content (ListLine.ofText line).content) ::
      u.children unit (leadingBlanks line) old ++
    ls.drop stop

/-- The text of a document's lines; a newline at its end is kept. -/
def joinLines (ls : List String) (trailing : Bool) : String :=
  let s := unlines ls
  if trailing && !endsWith "\n" s then s ++ "\n" else s

/-- A document after an edit of the item at an index. -/
def editText (unit : String) (u : Update) (s : String) (index : Nat) : String :=
  joinLines (editLines unit u (lines s) index) (endsWith "\n" s)

/-- A task line with another status mark. -/
def markLine? (mark : Char) (line : String) : Option String := do
  let task ← taskLine? line
  let blanks := ((line.toList.drop (task.indent.length + 1)).takeWhile isBlank).length
  let position := task.indent.length + 1 + blanks + 1
  return .ofList (line.toList.set position mark)

/-- The lines below an item as they were written, in units of indentation. -/
def childLines (unit : String) (ls : List String) (index : Nat) : List ChildLine :=
  let base := indentWidth (ls.getD index "")
  let step := max 1 (expandedLength tabWidth unit)
  let below := (ls.take (blockEnd ls index + 1)).drop (index + 1)
  (below.filter (!isBlankText ·)).map fun line =>
    let parsed := ListLine.ofText line
    { text := parsed.content
      indent := ((indentWidth line - base) / step - 1 : Nat)
      marker := (parsed.bullet.map Char.toString).getD "" }

end BulletScript.Tasks
