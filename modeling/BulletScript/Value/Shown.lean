import BulletScript.Value.Basic
import BulletScript.Text.Quoted

/-! Values as texts: plain, and as shown inside lists and mappings. -/
namespace BulletScript

def boolShown (b : Bool) : String := if b then "True" else "False"

def Key.shown : Key → String
  | .null => "None"
  | .bool b => boolShown b
  | .int n => Number.intText n
  | .float x => Number.floatText x
  | .str s => Text.shown s
  | .bytes data => Text.shownBytes data
  | .stamp s => s.shown

namespace Value

mutual

/-- A value as it is shown inside a container: texts are quoted. -/
def shown : Value → String
  | .null => "None"
  | .bool b => boolShown b
  | .int n => Number.intText n
  | .float x => Number.floatText x
  | .str s => Text.shown s
  | .bytes data => Text.shownBytes data
  | .stamp s => s.shown
  | .list items => "[" ++ ", ".intercalate (shownItems items) ++ "]"
  | .map entries => "\x7b" ++ ", ".intercalate (shownEntries entries) ++ "\x7d"

def shownItems : List Value → List String
  | [] => []
  | x :: xs => shown x :: shownItems xs

def shownEntries : List (Key × Value) → List String
  | [] => []
  | (k, v) :: rest => (k.shown ++ ": " ++ shown v) :: shownEntries rest

end

/-- A value as text by itself: texts and dates are written plainly. -/
def plain : Value → String
  | .str s => s
  | .stamp s => s.text " "
  | v => v.shown

end Value

def Key.plain (k : Key) : String := k.toValue.plain

/-- The entries in the order of their keys' texts. -/
def Record.sorted (r : Record) : Record := r.mergeSort fun a b => !decide (b.1.plain < a.1.plain)

end BulletScript
