import BulletScript.Engine.Run

/-! Scripts bound to the life of work items: what happens when an item is checked, fails, is reset
or changes its status. -/
namespace BulletScript.Engine

open Script Tasks

/-- What lasts from one event to the next: the world, the responses that wait for their items to be
done, by path, and the item and the buffer at hand. -/
structure Desk where
  world : World
  pending : List (String × Value) := []
  item : Option WorkItem := none
  buffer : Option Buffer := none

/-- The answer to an event. -/
abbrev Deal (α : Type) := ExceptT Failure (StateM Desk) α

/-- A script with the engine that runs it and the options of its tag. -/
structure Binding where
  tag : String
  engine : Runner
  config : Config
  options : Record

/-- The script's own configuration goes before the settings, and explicit options before both. -/
def Binding.make (tag : String) (engine : Runner) (config : Config) (options : Record) : Binding :=
  { tag, engine, config
    options := (engine.settings.connector.toRecord.update config.settings).update options }

/-- The trigger of a status mark. -/
def triggerOfStatus? (status : String) : Option TriggerKind :=
  [("x", .onDone), ("!", .onError), ("/", .onInProgress), ("-", .onCancelled)].lookup status

def successMark : String := "✓"

/-- The bullet of lines that tell of errors. -/
def errorBullet : String := "*"

/-- A text up to its first success mark, without the blanks before it. -/
def cutSuccess (s : String) : String :=
  match Text.cut? successMark s with
  | some (before, _) => Text.trimRight before
  | none => s

namespace Deal

def ofResult {α : Type} (r : Result α) : Deal α := ExceptT.mk (pure r)

/-- Work on the world as part of an answer. -/
def ofWorld {α : Type} (m : WorldM α) : Deal α :=
  ExceptT.mk fun d =>
    let (r, world) := m.run d.world
    (r, { d with world })

def log (level : LogLevel) (message : String) : Deal Unit :=
  modify fun d => { d with world := d.world.log level message }

/-- The last response that waits at a path. -/
def stash (path : String) (response : Value) : Deal Unit :=
  modify fun d =>
    let pending := d.pending.filter (·.1 ≠ path) ++ [(path, response)]
    { d with pending }

def discard (path : String) : Deal Unit :=
  modify fun d => { d with pending := d.pending.filter (·.1 ≠ path) }

/-- Takes the response that waits at a path. -/
def consume (path : String) : Deal (Option Value) := do
  let found := (← get).pending.lookup path
  discard path
  return found

def isPending (path : String) : Deal Bool := do return (← get).pending.any (·.1 = path)

/-- The path of the item at hand. -/
def itemPath : Deal String := do return (((← get).item).map (·.path)).getD ""

/-- An act of an engine on the item at hand, and on the buffer if it is wanted. -/
def act {α : Type} (withBuffer : Bool) (context : Context) (work : Scene → α × Scene) :
    Deal α := do
  let d ← get
  let buffer := if withBuffer then d.buffer else none
  let (a, scene) := work ⟨d.world, d.item, buffer, context⟩
  set { d with
    world := scene.world
    item := scene.item
    buffer := if withBuffer then scene.buffer else d.buffer }
  return a

/-- Runs a trigger of a script in a context that begins with the names of a trigger and a tag. -/
def runTriggerAs (engine : Runner) (config : Config) (kind : String) (trigger tag : Option String)
    (withBuffer : Bool) (line document : Option String) (vars : Record) : Deal Outcome := do
  let d ← get
  let buffer := if withBuffer then d.buffer else none
  let context ← ofResult (Context.start d.item line document buffer trigger tag vars)
  act withBuffer context (engine.execute config kind)

/-- Runs a trigger of a script on the item and the buffer at hand. -/
def runTrigger (engine : Runner) (config : Config) (kind : String) (withBuffer : Bool)
    (line document : Option String) (vars : Record) : Deal Outcome :=
  runTriggerAs engine config kind kind config.tag withBuffer line document vars

/-- An edit of the item at hand; without an item nothing happens. -/
def editItem (work : Files.Tree → WorkItem → WorkItem × Result Files.Tree) : Deal Unit := do
  let d ← get
  match d.item with
  | none => return
  | some item =>
    let (item, r) := work d.world.tree item
    set { d with item := some item }
    let tree ← ofResult r
    modify fun d => { d with world := { d.world with tree } }

end Deal

namespace Binding

open Deal

def hasTrigger (b : Binding) (kind : TriggerKind) : Bool := b.config.hasTrigger kind.text

/-- The variables of an event; one without a value is left out. -/
def varsWith (b : Binding) (extra : Record) : Record :=
  Record.update [("config", .map b.options)] (extra.filter fun (_, v) => !v.isNull)

/-- A text with the time on the clocks of the place behind it, if the options ask for one. -/
def stamp (b : Binding) (text : String) : String :=
  if !(b.options.getD "timestamps" .null).isSome then text
  else
    let now := b.engine.now.onClock b.engine.ahead
    let clock := match now.time with
      | some t => " " ++ Calendar.padded 2 t.hour ++ ":" ++ Calendar.padded 2 t.minute
      | none => ""
    text ++ " (" ++ now.date.text ++ clock ++ ")"

/-- Edits the item at hand. Without an editor nothing happens. -/
def edit (b : Binding) (u : Update) : Deal Unit :=
  match b.engine.tasks with
  | some editor => editItem fun tree item => editor.update tree item u
  | none => return

/-- Runs a trigger on the item at hand. -/
def runTrigger (b : Binding) (kind : TriggerKind) (extra : Record) : Deal Outcome :=
  Deal.runTrigger b.engine b.config kind.text false none none (b.varsWith extra)

/-- An event without details is none. -/
def eventVariable (event : Option Record) : Record :=
  match event.filter (!·.isEmpty) with
  | some event => [("event", .map event)]
  | none => []

def attempt (b : Binding) (event : Option Record) : Deal Outcome :=
  b.runTrigger .onTrigger (eventVariable event)

/-- The value that a run returned, or else the last response in it. -/
def responseOf (o : Outcome) : Value := if o.value.isNull then o.context.response else o.value

/-- Whether the script writes the item's line itself. -/
def editsLine (b : Binding) : Bool :=
  b.config.triggers.any fun trigger =>
    (Action.flattenAll trigger.actions).any fun action => action.keyword = .transform

/-- Removes the lines that tell of errors, if an option asks for it. -/
def clearErrors (b : Binding) (option : String) : String :=
  if (b.options.getD option .null).isSome then errorBullet else ""

/-- Marks the item's line, and removes the lines below it with a bullet. -/
def successEdit (mark cleared : String) : Update := { append := mark, removeMarked := cleared }

/-- Takes the mark of success away, and the lines with a bullet. -/
def resetEdit (cleared : String) : Update := { replace := some cutSuccess, removeMarked := cleared }

/-- Puts a line that tells of an error right below the item. -/
def errorEdit (text : String) : Update := { prependChildren := [{ text, marker := errorBullet }] }

/-- Keeps the response for when the item is done, and marks the item. -/
def onSuccess (b : Binding) (response : Value) : Deal Unit := do
  stash (← itemPath) response
  let mark := if b.editsLine then "" else b.stamp successMark
  let cleared := b.clearErrors "clearErrorsOnSuccess"
  if mark = "" ∧ cleared = "" then return
  b.edit (successEdit mark cleared)

/-- The number of further attempts after a failure. -/
def retries (b : Binding) : Result Nat := do
  match (b.options.get? "retry").filter Value.isSome with
  | none => return 0
  | some v => return (← v.whole).toNat

/-- The item is there but no run has been made. -/
def withoutRun (b : Binding) (state : RunState) (error : Option Failure) : Deal Outcome := do
  let d ← get
  let context ← ofResult (Context.start d.item none none none none b.tag [])
  return { state, context, error }

/-- Runs `onError`, or else leaves a line that tells of the error below the item. -/
def reportFailure (b : Binding) (error : Option Failure) (last : Option Outcome) :
    Deal Outcome := do
  let handled ← match error with
    | some failure =>
      if b.hasTrigger .onError then
        let outcome ← b.runTrigger .onError [("error", .map (failureRecord failure))]
        pure (if outcome.success then some outcome else none)
      else pure none
    | none => pure none
  match handled with
  | some outcome => return outcome
  | none =>
    let format := (b.options.getD "errorFormat" (.str "✗ ")).plain
    let message := format ++ ((error.map (·.message)).getD "None")
    b.edit (errorEdit (b.stamp message))
    match last with
    | some outcome => return outcome
    | none => b.withoutRun .failed error

/-- Attempts again, up to so many times. -/
def retry (b : Binding) (event : Option Record) (error : Option Failure) (last : Option Outcome)
    (number : Nat) : Nat → Deal Outcome
  | 0 => b.reportFailure error last
  | remaining + 1 => do
    let text := (((← get).item).map (·.text)).getD ""
    log .info (b.tag ++ ": retrying " ++ text ++ " (attempt " ++ toString number ++ ")")
    let outcome ← b.attempt event
    if outcome.success then
      b.onSuccess (responseOf outcome)
      return outcome
    b.retry event outcome.error (some outcome) (number + 1) remaining

/-- Deals with a failure: attempts again, then reports it. -/
def onError (b : Binding) (error : Option Failure) (event : Option Record)
    (first : Option Outcome) : Deal Outcome := do
  discard (← itemPath)
  b.retry event error first 1 (← ofResult b.retries)

/-- A checked item runs its script and is marked as succeeded or failed. -/
def onTrigger (b : Binding) (event : Option Record) : Deal Outcome := do
  let outcome ← b.attempt event
  match outcome.state with
  | .idle => return outcome
  | .completed =>
    b.onSuccess (responseOf outcome)
    return outcome
  | .failed => b.onError outcome.error event outcome

/-- An unchecked item runs `onReset`, or loses the mark of success. -/
def onReset (b : Binding) : Deal Outcome := do
  let handled ← if b.hasTrigger .onReset then do
      let outcome ← b.runTrigger .onReset []
      pure (if outcome.success then some outcome else none)
    else pure none
  match handled with
  | some outcome => return outcome
  | none =>
    b.edit (resetEdit (b.clearErrors "clearErrorsOnReset"))
    b.withoutRun .completed none

/-- A change of status runs its trigger; an item that is done gets the response that waits. -/
def onStatusChange (b : Binding) (oldStatus newStatus : String) : Deal (Option Outcome) := do
  match (triggerOfStatus? newStatus).filter b.hasTrigger with
  | none => return none
  | some kind =>
    let event : Record := [("fromStatus", .str oldStatus), ("toStatus", .str newStatus)]
    let response ← if newStatus = "x" then consume (← itemPath) else pure none
    let extra : Record := [("event", .map event), ("response", response.getD .null)]
    return some (← b.runTrigger kind extra)

/-- Leaves a line that tells of a failure below the line of the cursor. -/
def noteBelow (b : Binding) (outcome : Outcome) : Deal Unit := do
  match (← get).buffer with
  | none => return
  | some buffer =>
    let cursor := outcome.context.cursor.getD buffer.cursor
    let line ← ofResult (buffer.line cursor.line)
    let note := Text.leadingBlanks line ++ b.engine.settings.indentUnit ++ errorBullet ++
      " Error: " ++ ((outcome.error.map (·.message)).getD "None")
    let buffer ← ofResult ((buffer.insertLines cursor.line [note]).setCursor
      ⟨cursor.line, line.length⟩)
    modify fun d => { d with buffer := some buffer }

/-- A line that is completed in the buffer runs `onEnter`. -/
def onEnter (b : Binding) (document : Option String) : Deal (Option Outcome) := do
  if !b.hasTrigger .onEnter then return none
  let outcome ← Deal.runTrigger b.engine b.config TriggerKind.onEnter.text true none document
    (b.varsWith [])
  if !outcome.success && (← get).item.isNone then b.noteBelow outcome
  return some outcome

/-- Data from outside run `onData`. -/
def onData (b : Binding) (data : Value) (document : Option String) : Deal (Option Outcome) := do
  if !b.hasTrigger .onData then return none
  return some (← Deal.runTrigger b.engine b.config TriggerKind.onData.text false none document
    (b.varsWith [("data", data)]))

end Binding

end BulletScript.Engine
