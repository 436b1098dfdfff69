import BulletScript.Value.Literal
import BulletScript.Text.Word
import BulletScript.Number.Reader

/-! Paths such as `a.b[0]["c d"]` into a value. -/
namespace BulletScript

inductive PathStep where
  | index (n : Int)
  | name (s : String)
  deriving Repr, DecidableEq

/-- The number of a run of digits; digits that no number uses make it fail. -/
def digitsNumber (cs : List Char) : Result Nat :=
  match cs.mapM Text.decimalValue? with
  | some ds =>
    if Number.digitLimit < ds.length then .error (.internal (.tooManyDigits ds.length))
    else .ok (ds.foldl (fun n d => 10 * n + d) 0)
  | none => .error (.internal (.notInt (.ofList cs)))

/-- `[12]` at the start: its digits and what follows. -/
def cutIndex (cs : List Char) : Option (List Char × List Char) :=
  match cs with
  | '[' :: rest => match rest.span Text.isDecimal with
    | (d :: ds, ']' :: after) => some (d :: ds, after)
    | _ => none
  | _ => none

/-- The text up to the first quote that is followed by a bracket, on one line. -/
def cutQuotedFrom (quote : Char) : List Char → Option (List Char × List Char)
  | [] => none
  | c :: rest =>
    if c = quote ∧ rest.head? = some ']' then some ([], rest.drop 1)
    else if c = '\n' then none
    else (cutQuotedFrom quote rest).map fun (inner, after) => (c :: inner, after)

/-- `["name"]` or `['name']` at the start: the name and what follows. -/
def cutQuoted (cs : List Char) : Option (List Char × List Char) :=
  match cs with
  | '[' :: '"' :: rest => cutQuotedFrom '"' rest
  | '[' :: '\'' :: rest => cutQuotedFrom '\'' rest
  | _ => none

/-- A character of a plain name. -/
def isNameChar (c : Char) : Bool := c ≠ '.' && c ≠ '[' && c ≠ ']'

/-- The steps of a path. What is no step is passed over. -/
def pathSteps (fuel : Nat) (cs : List Char) : Result (List PathStep) :=
  match fuel, cs with
  | 0, _ | _, [] => .ok []
  | fuel + 1, c :: rest =>
    match cutIndex cs with
    | some (digits, after) => do
      let n ← digitsNumber digits
      return .index n :: (← pathSteps fuel after)
    | none => match cutQuoted cs with
      | some (inner, after) => do return .name (.ofList inner) :: (← pathSteps fuel after)
      | none =>
        if isNameChar c then do
          let (name, after) := cs.span isNameChar
          return .name (Text.trim (.ofList name)) :: (← pathSteps fuel after)
        else pathSteps fuel rest

/-- The steps of a path text. -/
def splitPath (path : String) : Result (List PathStep) :=
  pathSteps path.length path.toList

namespace Value

def itemAt? (items : List Value) (n : Int) : Option Value :=
  if 0 ≤ n then items[n.toNat]? else none

/-- One step into a value: an entry of a mapping, an item of a list, or the length of a list, text
or bytes. A number also finds the entry whose key writes it, and a text of digits an item. -/
def step? (v : Value) (step : PathStep) : Result (Option Value) :=
  match v, step with
  | .map entries, .name s => .ok (Record.get? entries (.str s))
  | .map entries, .index n =>
    .ok (Record.get? entries (.int n) <|> Record.get? entries (.str (Number.intText n)))
  | .list items, .index n => .ok (itemAt? items n)
  | .list items, .name s =>
    if s = "length" then .ok (some (.int items.length))
    else if s ≠ "" ∧ s.toList.all Text.isDigitLike then do
      let n ← digitsNumber s.toList
      return itemAt? items n
    else .ok none
  | .str t, .name s => .ok (if s = "length" then some (.int t.length) else none)
  | .bytes data, .name s => .ok (if s = "length" then some (.int data.length) else none)
  | _, _ => .ok none

def steps? (v : Value) : List PathStep → Result (Option Value)
  | [] => .ok (some v)
  | step :: rest => do
    match ← v.step? step with
    | some w => w.steps? rest
    | none => return none

end Value

/-- The value at a path into the variables, if there is one. -/
def resolvePath (vars : Record) (path : String) : Result (Option Value) := do
  (Value.map vars).steps? (← splitPath path)

example : pathSteps 9 ['a', '.', 'b', '[', '1', ']'] =
    .ok [.name (.ofList ['a']), .name (.ofList ['b']), .index 1] := by rfl

end BulletScript
