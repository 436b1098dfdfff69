import BulletScript.Value.Shown

/-! Rules for the shape of a value, and where a value breaks them. -/
namespace BulletScript.Settings

/-- The types that a rule can ask for. -/
inductive Shape where
  | object | array | string | number | integer | boolean
  deriving Repr, DecidableEq

def Shape.text : Shape → String
  | .object => "object"
  | .array => "array"
  | .string => "string"
  | .number => "number"
  | .integer => "integer"
  | .boolean => "boolean"

/-- A float without a fraction. -/
def isWholeFloat (x : Float) : Bool :=
  match Number.decode x with
  | .finite v => (Number.ofInt? v.truncate).any (· == x)
  | _ => false

/-- Truth values are no numbers; a float without a fraction is an integer. -/
def Shape.admits : Shape → Value → Bool
  | .object, .map _ => true
  | .array, .list _ => true
  | .string, .str _ => true
  | .number, .int _ | .number, .float _ => true
  | .integer, .int _ => true
  | .integer, .float x => isWholeFloat x
  | .boolean, .bool _ => true
  | _, _ => false

/-- What a value must satisfy. All but the first of these pass over values of another type. -/
inductive Rule where
  | shape (shape : Shape)
  | oneOf (choices : List String)
  | above (bound : Int)
  | atLeast (bound : Int)
  | notEmpty
  | blanksOnly
  | eachItem (rules : List Rule)
  | fields (fields : List (String × List Rule))
  | required (names : List String)
  | onlyFields (names : List String)
  | eachField (rules : List Rule)

/-- A broken rule: the keys and indices that lead to the value, and what is wrong with it. -/
structure Misfit where
  path : List Key
  message : String

def Misfit.under (key : Key) (m : Misfit) : Misfit := { m with path := key :: m.path }

def here (message : String) : Misfit := ⟨[], message⟩

def compareBound (v : Value) (bound : Int) (wrong : Number → Number → Bool) (words : String) :
    List Misfit :=
  match v with
  | .int _ | .float _ =>
    if v.number?.any fun n => wrong n (.int bound) then
      [here (v.shown ++ " is less than " ++ words ++ " minimum of " ++ toString bound)]
    else []
  | _ => []

/-- Blanks and tabs, and at most one newline behind them. -/
def isBlanksOnly (s : String) : Bool :=
  let cs := s.toList
  let line := if cs.getLast? = some '\n' then cs.dropLast else cs
  line ≠ [] && line.all fun c => c == ' ' || c == '\t'

def quotedList (names : List String) : String := ", ".intercalate (names.map Text.shown)

/-- The fields that no rule names, in the order of their names. -/
def unknownFields (names : List String) (entries : Record) : List Misfit :=
  let extra := (entries.map (·.1)).filter fun key => match key with
    | .str s => !names.contains s
    | _ => true
  if extra.isEmpty then []
  else
    let sorted := extra.mergeSort fun a b => !decide (b.plain < a.plain)
    [here ("Additional properties are not allowed (" ++
      ", ".intercalate (sorted.map Key.shown) ++
      (if extra.length = 1 then " was" else " were") ++ " unexpected)")]

mutual

/-- Where a value breaks a rule. -/
def Rule.misfits (v : Value) : Rule → List Misfit
  | .shape shape =>
    if shape.admits v then [] else [here (v.shown ++ " is not of type " ++ Text.shown shape.text)]
  | .oneOf choices =>
    if choices.any fun choice => v.same (.str choice) then []
    else [here (v.shown ++ " is not one of [" ++ quotedList choices ++ "]")]
  | .above bound => compareBound v bound Number.atMost "or equal to the"
  | .atLeast bound => compareBound v bound Number.less "the"
  | .notEmpty =>
    match v with
    | .str "" => [here (v.shown ++ " should be non-empty")]
    | _ => []
  | .blanksOnly =>
    match v with
    | .str s =>
      if isBlanksOnly s then [] else [here (v.shown ++ " does not match '^[ \\\\t]+$'")]
    | _ => []
  | .eachItem rules =>
    match v with
    | .list items => (items.zipIdx.map fun (item, i) =>
        (misfits item rules).map (·.under (.int i))).flatten
    | _ => []
  | .fields fields =>
    match v with
    | .map entries => fieldMisfits entries fields
    | _ => []
  | .required names =>
    match v with
    | .map entries => (names.filter fun name => !Record.has entries (.str name)).map fun name =>
        here (Text.shown name ++ " is a required property")
    | _ => []
  | .onlyFields names =>
    match v with
    | .map entries => unknownFields names entries
    | _ => []
  | .eachField rules =>
    match v with
    | .map entries => (entries.map fun (key, field) =>
        (misfits field rules).map (·.under key)).flatten
    | _ => []

/-- Where a value breaks some of the rules. -/
def misfits (v : Value) : List Rule → List Misfit
  | [] => []
  | rule :: rest => rule.misfits v ++ misfits v rest

def fieldMisfits (entries : Record) : List (String × List Rule) → List Misfit
  | [] => []
  | (name, rules) :: rest =>
    (match entries.get? (.str name) with
    | some v => (misfits v rules).map (·.under name)
    | none => []) ++ fieldMisfits entries rest

end

/-- A mapping with these fields and no others. -/
def closed (fields : List (String × List Rule)) : List Rule :=
  [.shape .object, .fields fields, .onlyFields (fields.map (·.1))]

def text : List Rule := [.shape .string]

def flag : List Rule := [.shape .boolean]

def targetRules : List Rule :=
  [.shape .object,
    .fields [("type", [.shape .string, .oneOf ["log", "webhook", "discord"]]), ("url", text),
      ("webhook_url", text), ("method", text),
      ("headers", [.shape .object, .eachField text]), ("enabled", flag)],
    .required ["type"]]

/-- The rules for settings. -/
def rules : List Rule :=
  closed [
    ("document_root", text),
    ("scripts_file", text),
    ("indent_unit", [.shape .string, .blanksOnly]),
    ("http", closed [("timeout", [.shape .number, .above 0]),
      ("user_agent", [.shape .string, .notEmpty])]),
    ("shell", closed [("enabled", flag), ("timeout", [.shape .number, .above 0]),
      ("max_output", [.shape .integer, .atLeast 1])]),
    ("notifications", closed [("default_duration_ms", [.shape .integer, .atLeast 0]),
      ("targets", [.shape .array, .eachItem targetRules])]),
    ("connector", closed [("error_format", text), ("timestamps", flag),
      ("clear_errors_on_success", flag), ("clear_errors_on_reset", flag),
      ("retry", [.shape .integer, .atLeast 0])])]

end BulletScript.Settings
