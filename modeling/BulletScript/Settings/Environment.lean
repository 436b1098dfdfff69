import BulletScript.Settings.Build
import BulletScript.Text.Lines
import BulletScript.Yaml.Load

/-! Settings read from a file, with the variables of the environment in it. -/
namespace BulletScript.Settings

open Files

abbrev Environment := List (String × String)

def isVariableChar (c : Char) : Bool := c.isAlphanum || c == '_'

/-- The name of a variable behind a dollar sign, bare or between braces, and what follows. -/
def cutVariable? : List Char → Option (List Char × List Char)
  | '\x7b' :: rest =>
    let (name, after) := rest.span (· ≠ '\x7d')
    match after with
    | _ :: after => some (name, after)
    | [] => none
  | cs =>
    let (name, after) := cs.span isVariableChar
    if name = [] then none else some (name, after)

/-- A text with the values of the variables it names; an unknown name stays. Values are not looked
at again. -/
def expandChars (environment : Environment) (fuel : Nat) (cs : List Char) : List Char :=
  match fuel, cs with
  | 0, cs => cs
  | _, [] => []
  | fuel + 1, '$' :: rest =>
    match cutVariable? rest with
    | none => '$' :: expandChars environment fuel rest
    | some (name, after) =>
      let written := '$' :: rest.take (rest.length - after.length)
      let image := ((environment.lookup (.ofList name)).map String.toList).getD written
      image ++ expandChars environment fuel after
  | fuel + 1, c :: rest => c :: expandChars environment fuel rest

def expandText (environment : Environment) (s : String) : String :=
  .ofList (expandChars environment s.length s.toList)

/-- The names of the variables in a text. -/
def variableNames (fuel : Nat) (cs : List Char) : List String :=
  match fuel, cs with
  | fuel + 1, '$' :: rest =>
    match cutVariable? rest with
    | none => variableNames fuel rest
    | some (name, after) => .ofList name :: variableNames fuel after
  | fuel + 1, _ :: rest => variableNames fuel rest
  | _, _ => []

mutual

/-- A value with the variables in its texts expanded; keys stay as they are. -/
def expand (environment : Environment) : Value → Value
  | .str s => .str (expandText environment s)
  | .list items => .list (expandItems environment items)
  | .map entries => .map (expandEntries environment entries)
  | v => v

def expandItems (environment : Environment) : List Value → List Value
  | [] => []
  | v :: rest => expand environment v :: expandItems environment rest

def expandEntries (environment : Environment) : List (Key × Value) → List (Key × Value)
  | [] => []
  | (key, v) :: rest => (key, expand environment v) :: expandEntries environment rest

end

/-- The value of a file of settings; one that counts as nothing is an empty mapping. -/
def readFile (environment : Environment) (name text : String) : Result Value :=
  match Yaml.load (Text.plainNewlines text) with
  | .ok v => .ok (expand environment (if v.isSome then v else .map []))
  | .error fault => .error (fault.failure name)

/-- The settings in a value: all of it, or what stands under their name. -/
def inFile : Value → Result Value
  | .map entries => .ok ((Record.get? entries "settings").getD (.map entries))
  | v => .error (.internal (.noAttribute v.typeName "get"))

/-- The settings of a file at a path. -/
def load (homes : Homes) (environment : Environment) (path : Path) (text : String) :
    Result BulletScript.Settings := do
  build homes path.parent (← inFile (← readFile environment path.text text))

end BulletScript.Settings
