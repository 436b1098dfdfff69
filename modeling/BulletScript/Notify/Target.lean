import BulletScript.Engine.World
import BulletScript.Notify.Event
import BulletScript.Settings.Basic
import BulletScript.Text.Case
import BulletScript.Value.Whole

/-! Where notifications go: the log, or a post to a web address. -/
namespace BulletScript.Notify

open Engine Text

inductive Sink where
  | log
  | discord (url : Option String) (username : Value)
  | webhook (url : Option String) (method : Value) (headers : Record) (template : Value)

structure Target where
  sink : Sink
  active : Bool := true

/-- Seconds that a post may take. -/
def postTimeout : Float := 10

namespace Sink

def name : Sink → String
  | .log => "log"
  | .discord .. => "discord"
  | .webhook .. => "webhook"

/-- A sink without an address takes nothing. -/
def isReady : Sink → Bool
  | .log => true
  | .discord url _ | .webhook url _ _ _ => url.any (· ≠ "")

end Sink

def Target.enabled (t : Target) : Bool := t.active && t.sink.isReady

/-- The level of a notification as text. -/
def levelText : Value → Result String
  | .str s => .ok s
  | .list _ => .error (.internal (.badType "unhashable type: 'list'"))
  | .map _ => .error (.internal (.badType "unhashable type: 'dict'"))
  | _ => .ok ""

def logLevel (level : String) : Script.LogLevel :=
  if level = "warning" then .warning else if level = "error" then .error else .info

/-- The text without the blanks around it, cut at a limit with dots in place of the rest. -/
def shorten (limit : Nat) (s : String) : String :=
  let s := trim s
  if s.length ≤ limit then s else take (limit - 3) s ++ "..."

def color (level : String) : Int :=
  if level = "success" then 0x57F287 else if level = "warning" then 0xFEE75C
  else if level = "error" then 0xED4245 else 0x5865F2

def shortField (limit : Nat) : Value → Result Value
  | .str s => .ok (.str (shorten limit s))
  | v => .error (.internal (.noAttribute v.typeName "strip"))

/-- A field beside the text of a message. -/
def embedField (name : String) (v : Value) : Value :=
  .map [("name", .str name), ("value", v), ("inline", .bool true)]

/-- The message that a chat shows for a notification. -/
def chatMessage (e : Event) (username : Value) : Result Record := do
  let level ← levelText e.level
  let base : Record := [("description", .str (shorten 2000 e.message)),
    ("color", .int (color level)), ("timestamp", .str (e.timestamp.text "T"))]
  let base := if e.tag.isSome then base.set "title" e.tag else base
  let trigger := if e.trigger.isSome then [embedField "Trigger" e.trigger] else []
  let document ← if e.document.isSome then
      pure [embedField "Document" (← shortField 1024 e.document)]
    else pure []
  let fields := trigger ++ document
  let embed := if fields.isEmpty then base else base.set "fields" (.list fields)
  let message : Record := [("embeds", .list [.map embed])]
  return if username.isSome then message.set "username" username else message

/-- The body of a post to a web address. -/
def webPayload (e : Event) (template : Value) : Result Value :=
  if template.isNull then .ok (.map e.payload) else render e.templateValues template

/-- The fields of a payload that an address can carry. -/
def addressFields : Value → Record
  | .map entries => entries.filter fun (_, v) => match v with
    | .str _ | .int _ | .float _ | .bool _ => true
    | _ => false
  | _ => []

def headerTexts (headers : Record) : List (String × String) :=
  headers.map fun (k, v) => (k.plain, v.plain)

/-- Takes the answer to a post; a refusal is logged, a crash is a failure. -/
def takeAnswer (post : Post) (refusal answerer : String) : WorldM Unit := do
  match ← modifyGet (·.post post) with
  | .response status text =>
    if 400 ≤ status then
      modify (·.log .warning (answerer ++ " responded with " ++ toString status ++ ": " ++ text))
  | .refused text => modify (·.log .warning (refusal ++ ": " ++ text))
  | .crashed text => throw (.internal (.crashed text))

/-- Sends a notification to one sink. -/
def Sink.send (e : Event) : Sink → WorldM Unit
  | .log => do
    let level ← liftExcept (levelText e.level)
    let mark := if e.tag.isSome then "[" ++ e.tag.plain ++ "] " else ""
    modify (·.log (logLevel level) (mark ++ e.message))
  | .discord url username => do
    let message ← liftExcept (chatMessage e username)
    takeAnswer
      ⟨.str "POST", url.getD "", [], postTimeout, some (.map message), none⟩
      "Failed to send Discord notification" "Discord webhook"
  | .webhook url method headers template => do
    let payload ← liftExcept (webPayload e template)
    let post : Post := ⟨method, url.getD "", headerTexts headers, postTimeout, none, none⟩
    let origin := if e.tag.isSome then e.tag.plain else "script"
    takeAnswer
      (if method.same (.str "GET") then { post with params := some (addressFields payload) }
        else { post with json := some payload })
      ("Failed to send webhook notification for " ++ origin) ("Webhook " ++ url.getD "")
where
  liftExcept {α : Type} (r : Result α) : WorldM α := ExceptT.mk (pure r)

def Target.send (e : Event) (t : Target) : WorldM Unit :=
  if t.enabled then t.sink.send e else return

/-- Sends a notification to all targets; the failure of one is logged and stops no other. -/
def dispatch (e : Event) : List Target → World → World
  | [], w => w
  | t :: rest, w =>
    let w := match (t.send e).run w with
      | (.ok _, w) => w
      | (.error failure, w) =>
        w.log .warning ("Notification target " ++ t.sink.name ++ " failed: " ++ failure.message)
    dispatch e rest w

/-- The event that a message and the context of its script make. -/
def eventOf (now : Calendar.Stamp) (message : String) (durationMs : Value) (context : Record) :
    Event :=
  let get (key : Key) : Value := (context.get? key).getD .null
  let level := get "level"
  let own : List Key := ["tag", "trigger", "document", "line", "level"]
  { message, durationMs, timestamp := now
    tag := get "tag"
    trigger := get "trigger"
    document := get "document"
    line := get "line"
    level := if level.isSome then level else .str "info"
    details := own.foldl Record.erase context }

def trimmed? : Value → Option String
  | .str s => some (trim s)
  | _ => none

/-- A text in upper case; of bytes, those that are ASCII letters. -/
def upperCase : Value → Result Value
  | .str s => .ok (.str (upper s))
  | .bytes data => .ok (.bytes (data.map fun b => if 97 ≤ b && b ≤ 122 then b - 32 else b))
  | v => .error (.internal (.noAttribute v.typeName "upper"))

/-- The sink of a web address that an entry describes. -/
def webSink (url : Value) (entry : Record) : Result Sink := do
  let method ← upperCase (entry.getD "method" (.str "POST"))
  let headers ← match (entry.get? "headers").filter Value.isSome with
    | none => pure []
    | some (.map headers) => do
      (Value.map headers).checkWritable
      pure (Record.ofEntries (headers.map fun (k, v) => (.str k.plain, .str v.plain)))
    | some v => throw (.internal (.noAttribute v.typeName "items"))
  return .webhook (trimmed? url) method headers (entry.getD "template" .null)

/-- The sink that an entry of the settings describes, or why it describes none. -/
def sinkOf (entry : Record) : Result (Except String Sink) := do
  let kind := lower (entry.getD "type" (.str "")).plain
  let given (key : Key) : Option Value := (entry.get? key).filter Value.isSome
  if kind = "log" then return .ok .log
  else if kind = "discord" then
    match (given "webhook_url").or (given "url") with
    | some url => return .ok (.discord (trimmed? url) (entry.getD "username" .null))
    | none => return .error "Skipped Discord target because webhook_url was not provided."
  else if kind = "webhook" then
    match given "url" with
    | some url => return .ok (← webSink url entry)
    | none => return .error "Skipped webhook target because url was not provided."
  else
    let shown := if kind = "" then "<missing>" else kind
    return .error ("Unknown notification target type '" ++ shown ++ "'")

/-- The targets that entries of the settings describe; those that describe none are logged. -/
def targetsOf : List Record → WorldM (List Target)
  | [] => return []
  | entry :: rest => do
    match ← ExceptT.mk (pure (sinkOf entry)) with
    | .ok sink =>
      let target : Target := ⟨sink, (entry.getD "enabled" (.bool true)).isSome⟩
      return target :: (← targetsOf rest)
    | .error reason =>
      modify (·.log .warning reason)
      targetsOf rest

/-- Without any other target, notifications go to the log. -/
def withLog (targets : List Target) : List Target :=
  if targets.isEmpty then [⟨.log, true⟩] else targets

/-- The targets of a service with these settings. -/
def serviceTargets (settings : Settings.Notifications) : WorldM (List Target) := do
  return withLog (← targetsOf settings.targets)

end BulletScript.Notify
