import BulletScript.Calendar.Date
import BulletScript.Template.Interpolate

/-! Notifications and the payloads made from them. -/
namespace BulletScript.Notify

/-- One notification and where it comes from. -/
structure Event where
  message : String
  durationMs : Value := .int 4000
  tag : Value := .null
  trigger : Value := .null
  document : Value := .null
  line : Value := .null
  level : Value := .str "info"
  details : Record := []
  timestamp : Calendar.Stamp

namespace Event

/-- The payload of a notification without a template. -/
def payload (e : Event) : Record :=
  let origin : Record := [("tag", e.tag), ("trigger", e.trigger), ("document", e.document),
    ("line", e.line)]
  let base : Record := [("message", .str e.message), ("level", e.level),
    ("duration_ms", e.durationMs), ("timestamp", .str (e.timestamp.text "T")),
    ("script", .map (origin.filter fun (_, v) => !v.isNull))]
  if e.details.isEmpty then base else base.set "details" (.map e.details)

def entriesOf : Option Value → Record
  | some (.map entries) => entries
  | _ => []

/-- The names a template can use: the payload, the script's own names, and the details where they
do not clash with these. -/
def templateValues (e : Event) : Record :=
  let payload := e.payload
  let details := entriesOf (payload.get? "details")
  let values := (details.update (entriesOf (payload.get? "script"))).update payload
  values.setDefault "details" (.map [])

end Event

def isPathChar (c : Char) : Bool := c.isAlphanum || "_.[]".toList.contains c

/-- The path in a text that is one placeholder around a path. -/
def wholePlaceholder? (s : String) : Option String :=
  let cs := s.toList
  let cs := if cs.getLast? = some '\n' then cs.dropLast else cs
  match cs with
  | '\x7b' :: '\x7b' :: rest =>
    if Text.endsWith "\x7d\x7d" (.ofList rest) then
      let path := Text.trimChars (rest.take (rest.length - 2))
      match path with
      | c :: more =>
        if (c.isAlpha || c = '_') && more.all isPathChar then some (.ofList path) else none
      | [] => none
    else none
  | _ => none

/-- A text of a template: the value of a lone placeholder, or the text with placeholders filled in
as far as that is possible. -/
def renderText (values : Record) (s : String) : Result Value :=
  match wholePlaceholder? s with
  | some path => do return (← resolvePath values path).getD .null
  | none =>
    match Template.interpolateLenient s values with
    | .ok text => .ok (.str text)
    | .error (.pattern _) => .ok (.str s)
    | .error failure => .error failure

mutual

/-- A template with all its texts filled in. -/
def render (values : Record) : Value → Result Value
  | .str s => renderText values s
  | .list items => do return .list (← renderItems values items)
  | .map entries => do return .map (← renderEntries values entries)
  | v => .ok v

def renderItems (values : Record) : List Value → Result (List Value)
  | [] => .ok []
  | v :: rest => do
    let v ← render values v
    return v :: (← renderItems values rest)

def renderEntries (values : Record) : List (Key × Value) → Result (List (Key × Value))
  | [] => .ok []
  | (k, v) :: rest => do
    let v ← render values v
    return (k, v) :: (← renderEntries values rest)

end

end BulletScript.Notify
