import BulletScript.Calendar.Moment
import BulletScript.Engine.Reading
import BulletScript.Regex.Literal

/-! Steps that compute variables: records, values taken from texts, lists, and dates. -/
namespace BulletScript.Engine

open Script

/-- The value that a search puts into a variable: all matches, or the first with its groups. -/
def matchValues (literal : Regex.Literal) (text : Array Char) : List Value :=
  if literal.everywhere then (literal.regex.all text).map fun m => .str (m.whole text)
  else match literal.regex.search text with
    | none => []
    | some m =>
      .str (m.whole text) :: (List.range literal.regex.groups).map fun i =>
        ((m.group? text (i + 1)).map Value.str).getD .null

/-- The groups with a name that took part in the first match. -/
def namedGroups (literal : Regex.Literal) (text : Array Char) : Record :=
  match literal.regex.search text with
  | none => []
  | some m => literal.regex.names.filterMap fun (name, index) =>
      (m.group? text index).map fun s => (.str name, .str s)

/-- The variables as one item of a list sees them. -/
def itemScope (vars : Record) (name : String) (item : Value) (index : Nat) : Record :=
  (vars.set name item).set (name ++ "_index") (.int index)

/-- The items of a list for which a condition holds. -/
def keepItems (vars : Record) (condition name : Value) (index : Nat) :
    List Value → Result (List Value)
  | [] => .ok []
  | item :: rest => do
    let scope := itemScope vars (← Act.variableName name) item index
    let holds ← Template.condition (← Act.templateOf condition) scope
    let kept ← keepItems vars condition name (index + 1) rest
    return if holds then item :: kept else kept

/-- What a template makes of each item of a list. -/
def mapItems (vars : Record) (template name : Value) (index : Nat) :
    List Value → Result (List Value)
  | [] => .ok []
  | item :: rest => do
    let scope := itemScope vars (← Act.variableName name) item index
    let text ← Template.interpolate (← Act.templateOf template) scope
    return parseLiteral text :: (← mapItems vars template name (index + 1) rest)

mutual

/-- The record that templates make, nested where records were written. -/
def buildValue (vars : Record) : Value → Result Value
  | .map properties => do return .map (Record.ofEntries (← buildEntries vars properties))
  | v => do return parseLiteral (← Template.interpolate v.plain vars)

def buildEntries (vars : Record) : List (Key × Value) → Result (List (Key × Value))
  | [] => .ok []
  | (key, v) :: rest => do
    let value ← buildValue vars v
    return (key, value) :: (← buildEntries vars rest)

end

namespace Act

def build (name : String) (properties : Record) : Act Unit := do
  let value ← ofResult (buildValue (← context).vars (.map properties))
  set name value

/-- Sets a variable, unless a pattern has just given it a value. -/
def setVariable (name value : String) (pattern : Option Value) (source : Value) : Act Unit := do
  match pattern.filter Value.isSome with
  | some pattern =>
    let text ← renderOption source
    let found ← extractInto text (← ofResult (templateOf pattern))
    if found.has name then return
  | none => pure ()
  set name (parseLiteral (← render value))

def matchText (pattern : String) (source : Value) : Act Unit := do
  let _ ← extractInto (← renderOption source) pattern

def extract (pattern : String) (source storeAs : Value) : Act Unit := do
  let literal ← ofResult (Regex.readLiteral pattern)
  let text := (← renderOption source).toList.toArray
  setNamed storeAs (.list (matchValues literal text))
  setMany (namedGroups literal text)

def filter (reference : String) (condition storeAs itemName : Value) : Act Unit := do
  let values ← items reference
  setNamed storeAs (.list (← ofResult (keepItems (← context).vars condition itemName 0 values)))

def map (reference : String) (template storeAs itemName : Value) : Act Unit := do
  let values ← items reference
  setNamed storeAs (.list (← ofResult (mapItems (← context).vars template itemName 0 values)))

def date (engine : Runner) (mode : DateMode) (source : Option Value) (storeAs : Value)
    (format : DateFormat) : Act Unit := do
  let moment ← match mode with
    | .now => pure engine.now
    | .parse => do
      let text ← match source with
        | some template => renderOption template
        | none => pure ""
      ofResult (Calendar.parseDate text)
  setNamed storeAs (← ofResult (Calendar.formatDate moment format))

end Act

end BulletScript.Engine
