import BulletScript.Outline.Line
import BulletScript.Value.Literal

/-! Outlines: trees of items, read from indented lines or from data, and written as lists. -/
namespace BulletScript.Outline

open Text

/-- An entry of an outline, with the number of the line it was read from. -/
structure Item where
  text : String
  children : List Item := []
  line : Option Nat := none
  deriving Inhabited

/-- A line with text, before its place in the tree is known. -/
structure Row where
  width : Nat
  text : String
  line : Nat

/-- The text of an outline line: behind its bullet if it has one, trimmed. -/
def itemText (line : String) : String := trim ((itemContent? line).getD line)

def rows (ls : List String) : List Row :=
  ls.zipIdx.filterMap fun (line, number) =>
    if isBlankText line then none else some ⟨indentWidth line, itemText line, number⟩

/-- The items of some rows: the children of a row are the rows after it that are indented
further, up to the first that is not. -/
def forest : List Row → List Item
  | [] => []
  | row :: rest =>
    ⟨row.text, forest (rest.takeWhile (row.width < ·.width)), some row.line⟩ ::
      forest (rest.dropWhile (row.width < ·.width))
termination_by rest => rest.length
decreasing_by
  all_goals simp only [List.length_cons]
  · exact Nat.lt_succ_of_le (List.takeWhile_sublist _).length_le
  · exact Nat.lt_succ_of_le (List.dropWhile_sublist _).length_le

/-- Reads an outline; every line with text is an item, whether or not it has a bullet. -/
def ofText (s : String) : List Item := forest (rows (boundaryLines s))

mutual

/-- The items that data stands for: a text is an item, a record with a text an item with its
children, any other record one item a key, a list its entries' items. -/
def ofValue : Value → List Item
  | .null => []
  | .list items => ofValues items
  | .map entries =>
    match Record.get? entries "text" with
    | some text => [{ text := text.plain, children := childrenOf entries }]
    | none => ofEntries entries
  | v => [{ text := v.plain }]

def ofValues : List Value → List Item
  | [] => []
  | v :: rest => ofValue v ++ ofValues rest

def childrenOf : List (Key × Value) → List Item
  | [] => []
  | (k, v) :: rest => if k.same "children" then ofValue v else childrenOf rest

def ofEntries : List (Key × Value) → List Item
  | [] => []
  | (k, v) :: rest =>
    let item : Item :=
      if v.isMap || v.isList then { text := k.plain ++ ":", children := ofValue v }
      else if v.isNull then { text := k.plain ++ ":" }
      else { text := k.plain ++ ": \x60" ++ v.templateText ++ "\x60" }
    item :: ofEntries rest

end

/-- How an outline is written: the unit of indentation and the bullet. -/
structure Layout where
  indentUnit : String := "  "
  bullet : String := "-"

mutual

/-- The lines of an item at a depth, those of its children below. -/
def Item.lines (layout : Layout) (depth : Int) : Item → List String
  | ⟨text, children, _⟩ =>
    (repeated layout.indentUnit depth.toNat ++ layout.bullet ++ " " ++ text) ::
      linesOf layout (depth + 1) children

/-- The lines of some items at a depth. -/
def linesOf (layout : Layout) (depth : Int) : List Item → List String
  | [] => []
  | item :: rest => item.lines layout depth ++ linesOf layout depth rest

end

end BulletScript.Outline
