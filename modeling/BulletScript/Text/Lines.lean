import BulletScript.Text.Blank
import BulletScript.Text.Search

/-! Lines of a text: the newline alone in documents and buffers, every line boundary where a text
is read as an outline or as output. -/
namespace BulletScript.Text

/-- The lines of a document: the pieces between newlines. -/
def lines (s : String) : List String := split "\n" s

/-- The document that has these lines. -/
def unlines (ls : List String) : String := join "\n" ls

/-- A character that ends a line wherever text is cut at all line boundaries. -/
def isLineBoundary (c : Char) : Bool :=
  let n := c.toNat
  (10 ≤ n && n ≤ 13) || (28 ≤ n && n ≤ 30) || n == 0x85 || n == 0x2028 || n == 0x2029

/-- The lines between boundaries; a carriage return and its newline are one boundary, and a
boundary at the end opens no further line. -/
def boundaryLinesFrom (line : List Char) : List Char → List (List Char)
  | [] => if line = [] then [] else [line.reverse]
  | '\r' :: '\n' :: rest => line.reverse :: boundaryLinesFrom [] rest
  | c :: rest =>
    if isLineBoundary c then line.reverse :: boundaryLinesFrom [] rest
    else boundaryLinesFrom (c :: line) rest

def boundaryLines (s : String) : List String := (boundaryLinesFrom [] s.toList).map .ofList

example : boundaryLinesFrom [] ['a', '\r', '\n', '\n', 'b'] = [['a'], [], ['b']] := by decide

/-- Every carriage return, with the newline after it if there is one, read as a newline. -/
def plainNewlinesChars : List Char → List Char
  | [] => []
  | '\r' :: '\n' :: rest => '\n' :: plainNewlinesChars rest
  | c :: rest => (if c = '\r' then '\n' else c) :: plainNewlinesChars rest

def plainNewlines (s : String) : String := .ofList (plainNewlinesChars s.toList)

example : plainNewlinesChars ['a', '\r', '\r', '\n', 'b'] = ['a', '\n', '\n', 'b'] := by decide

/-- A text with its tabs filled with blanks up to the next multiple of `tab`; columns are
counted anew after a line end. -/
def expandTabsFrom (tab : Nat) (column : Nat) : List Char → List Char
  | [] => []
  | c :: rest =>
    if c = '\t' then
      let step := if tab = 0 then 0 else tab - column % tab
      List.replicate step ' ' ++ expandTabsFrom tab (column + step) rest
    else if c = '\n' ∨ c = '\r' then c :: expandTabsFrom tab 0 rest
    else c :: expandTabsFrom tab (column + 1) rest

example : expandTabsFrom 4 0 [' ', '\t', 'a'] = [' ', ' ', ' ', ' ', 'a'] := by decide

/-- The number of characters of a text once its tabs are filled with blanks. -/
def expandedLength (tab : Nat) (s : String) : Nat := (expandTabsFrom tab 0 s.toList).length

end BulletScript.Text
