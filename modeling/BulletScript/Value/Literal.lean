import BulletScript.Value.Shown
import BulletScript.Json.Writer
import BulletScript.Json.Reader
import BulletScript.Text.Case
import BulletScript.Failure

/-! The passage between values and template text, and the loose comparisons that conditions use. -/
namespace BulletScript

/-- Words that stand for a value besides JSON. -/
def literalWord? (s : String) : Option Value :=
  if s = "true" then some (.bool true)
  else if s = "false" then some (.bool false)
  else if s = "null" then some .null
  else none

/-- The characters with which a JSON value can start here. -/
def startsLiteral (c : Char) : Bool :=
  c == '[' || c == '\x7b' || c == '"' || c == '-' || c.isDigit

/-- The value that a text writes, or the text itself. -/
def parseLiteral (s : String) : Value :=
  let body := Text.trim s
  match literalWord? body with
  | some v => v
  | none => match body.toList with
    | c :: _ => if startsLiteral c then (Json.read? body).getD (.str s) else .str s
    | [] => .str s

/-- Whether a whole number has no more digits than are read or written. -/
def Number.isWritable (n : Int) : Bool := (digitChars n.natAbs).length ≤ digitLimit

def Key.isWritable : Key → Bool
  | .int n => Number.isWritable n
  | _ => true

namespace Value

mutual

/-- Whether every whole number in a value, keys included, can be written. -/
def isWritable : Value → Bool
  | .int n => Number.isWritable n
  | .list items => areWritable items
  | .map entries => entriesWritable entries
  | _ => true

def areWritable : List Value → Bool
  | [] => true
  | v :: rest => isWritable v && areWritable rest

def entriesWritable : List (Key × Value) → Bool
  | [] => true
  | (k, v) :: rest => k.isWritable && isWritable v && entriesWritable rest

end

/-- A value is about to be written. -/
def checkWritable (v : Value) : Result Unit :=
  if v.isWritable then .ok () else .error (.internal .tooLongToWrite)

/-- The text that a template prints for a value. A container that JSON has no form for is shown. -/
def templateText (v : Value) : String :=
  match v with
  | .null => ""
  | .bool b => if b then "true" else "false"
  | .list _ | .map _ => match Json.write Json.compact Json.plainString v with
    | .ok text => text
    | .error _ => v.shown
  | v => v.plain

/-- Words that count as false. -/
def falsyWords : List String := ["", "false", "0", "null", "undefined"]

def truthy (v : Value) : Bool :=
  match v with
  | .str s => !falsyWords.contains (Text.lower (Text.trim s))
  | v => v.isSome

/-- A number, or the number that a text writes. -/
def toNumber? (v : Value) : Option Number :=
  match v with
  | .str s => match parseLiteral s with
    | .int n => some (.int n)
    | .float x => some (.float x)
    | _ => none
  | v => v.number?

/-- Equality that does not tell a number from the text that writes it. -/
def looseEquals (a b : Value) : Bool :=
  a.same b || match a.toNumber?, b.toNumber? with
    | some m, some n => m.same n
    | _, _ => a.templateText == b.templateText

end Value

def Number.toValue : Number → Value
  | .int n => .int n
  | .float x => .float x

/-- The comparisons of conditions and expressions. -/
inductive CompareOp where
  | eq | ne | lt | gt | le | ge
  deriving Repr, DecidableEq

namespace CompareOp

def text : CompareOp → String
  | .eq => "==" | .ne => "!=" | .lt => "<" | .gt => ">" | .le => "<=" | .ge => ">="

def ofText? (s : String) : Option CompareOp :=
  [eq, ne, ge, le, gt, lt].find? fun op => op.text == s

/-- An order holds only between numbers. -/
def holds (op : CompareOp) (a b : Value) : Bool :=
  let ordered (test : Number → Number → Bool) : Bool := match a.toNumber?, b.toNumber? with
    | some m, some n => test m n
    | _, _ => false
  match op with
  | .eq => a.looseEquals b
  | .ne => !a.looseEquals b
  | .lt => ordered Number.less
  | .gt => ordered fun m n => n.less m
  | .le => ordered Number.atMost
  | .ge => ordered fun m n => n.atMost m

end CompareOp

/-- Whether a comparison comes down to the texts of its sides. -/
def CompareOp.readsTexts (op : CompareOp) (a b : Value) : Bool :=
  (op = .eq || op = .ne) && !a.same b && !(a.toNumber?.isSome && b.toNumber?.isSome)

/-- A comparison of values, which have to be written if their texts are compared. -/
def CompareOp.test (op : CompareOp) (a b : Value) : Result Bool := do
  if op.readsTexts a b then
    a.checkWritable
    b.checkWritable
  return op.holds a b

/-- The comparison under an operator text. An unknown operator fails only between numbers. -/
def compareValues (a : Value) (op : String) (b : Value) : Result Bool :=
  match CompareOp.ofText? op with
  | some op => op.test a b
  | none => if a.toNumber?.isSome && b.toNumber?.isSome
    then .error (.pattern (.unknownOperator op)) else .ok false

end BulletScript
