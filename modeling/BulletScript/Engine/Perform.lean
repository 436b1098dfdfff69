import BulletScript.Calendar.Duration
import BulletScript.Engine.Editing
import BulletScript.Engine.Variables

/-! What each step of a script does. -/
namespace BulletScript.Engine

open Script

/-- What a notification tells of the run it comes from. -/
def Context.describe (c : Context) : Record :=
  let optional (s : Option String) : Value := (s.map Value.str).getD .null
  [("tag", optional c.tag), ("trigger", optional c.trigger),
    ("document", optional (c.document.map (·.path))), ("line", .str c.line)]

namespace Act

/-- Ends the run, with a value if one is given. -/
def returnValue (value : Option String) : Act Unit := do
  match value.filter (· ≠ "") with
  | some template =>
    let text ← render template
    modifyContext fun c => { c with returnValue := parseLiteral text }
  | none => pure ()
  modifyContext fun c => { c with shouldReturn := true }

def holds (condition : String) : Act Bool := do
  ofResult (Template.condition condition (← context).vars)

/-- Fails unless a condition holds. -/
def validate (condition : String) (message : Option Value) : Act Unit := do
  if ← holds condition then return
  let text ← match message.filter Value.isSome with
    | some template =>
      let template ← ofResult (templateOf template)
      ofResult (Template.interpolateLenient template (← context).vars)
    | none => pure ""
  fail (.validation (if text = "" then "Validation failed: " ++ condition else text))

def delay (duration : String) : Act Unit := do
  let seconds ← ofResult (Calendar.parseDuration (← render duration))
  modifyWorld (·.delay seconds)

def logMessage (message : String) (level : LogLevel) : Act Unit := do
  let text ← render message
  let tag := ((← context).tag.filter (· ≠ "")).getD "script"
  log level ("[" ++ tag ++ "] " ++ text)

def notify (engine : Runner) (message : String) (durationMs : Int) : Act Unit := do
  let details := (← context).describe
  let text ← render message
  match engine.notifier with
  | .recorder => modifyWorld (·.note ⟨text, durationMs, details⟩)
  | .targets targets =>
    let event := Notify.eventOf engine.now text (.int durationMs) details
    modifyWorld (Notify.dispatch event targets)

end Act

/-- Carries out one step. -/
def Runner.perform (engine : Runner) : Step → Act Unit
  | .read step => .read engine step
  | .file reference storeAs => .file engine reference storeAs
  | .fetch step => .fetch engine step
  | .shell command storeAs timeoutMs => .shell engine command storeAs timeoutMs
  | .transform template mode children => .transform engine template mode children
  | .build name properties => .build name properties
  | .query identifier storeAs options => .query engine identifier storeAs options
  | .set name value pattern source => .setVariable name value pattern source
  | .match pattern source => .matchText pattern source
  | .extract pattern source storeAs => .extract pattern source storeAs
  | .return value => .returnValue value
  | .append template indent => .append engine template indent
  | .task step => .task engine step
  | .validate condition message => .validate condition message
  | .delay duration => .delay duration
  | .filter items condition storeAs itemName => .filter items condition storeAs itemName
  | .map items template storeAs itemName => .map items template storeAs itemName
  | .date mode source storeAs format => .date engine mode source storeAs format
  | .log message level => .logMessage message level
  | .notify message durationMs => .notify engine message durationMs

end BulletScript.Engine
