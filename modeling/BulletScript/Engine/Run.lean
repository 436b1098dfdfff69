import BulletScript.Engine.Perform
import BulletScript.Log.Block

/-! Runs of whole scripts: branches, loops, handlers of failures and early returns. -/
namespace BulletScript.Engine

open Script

/-- What scripts see of a failure. -/
def failureRecord (failure : Failure) : Record :=
  [("message", .str failure.message), ("name", .str failure.name), ("kind", .str failure.kind)]

namespace Act

def noteFailure (failure : Failure) : Act Unit := do
  modifyContext fun c => { c with error := some failure }
  set "error" (.map (failureRecord failure))

/-- A body, and what runs in its place once it fails. Without handlers the failure goes on. -/
def handled (onError : List Action) (handler body : Act Unit) : Act Unit :=
  if onError.isEmpty then body
  else tryCatch body fun failure => do
    noteFailure failure
    handler

/-- The name under which the body of a loop sees the position of its item. -/
def indexNameOf (itemName : Value) (indexName : Option Value) : Value :=
  (indexName.filter Value.isSome).getD (.str (itemName.plain ++ "_index"))

/-- The cursor from which a loop begins. -/
def anchorCursor : Act (Option Cursor) := do
  let s ← get
  return s.context.cursor.or (s.buffer.map (·.cursor))

/-- Moves the cursor to a position, if there is one. -/
def moveBack : Option Cursor → Act Unit
  | some position => moveCursor position
  | none => return

/-- Lets the body of a loop see an item and its position, from where the loop began. -/
def enterRound (itemName indexName : Value) (anchor : Option Cursor) (index : Nat)
    (item : Value) : Act Unit := do
  setNamed itemName item
  setNamed indexName (.int index)
  moveBack anchor

/-- Runs the body of a loop for each item, from the position where the loop began, until one run
returns. The result is where the last run left the cursor. -/
def eachItem (itemName indexName : Value) (anchor : Option Cursor) (body : Act Unit)
    (index : Nat) (last : Option Cursor) : List Value → Act (Option Cursor)
  | [] => return last
  | item :: rest => do
    enterRound itemName indexName anchor index item
    body
    let c ← context
    if c.shouldReturn then return c.cursor
    eachItem itemName indexName anchor body (index + 1) c.cursor rest

/-- Removes the variables of a loop. -/
def dropNames (itemName indexName : Value) : Act Unit := do
  unset [← ofResult (variableName itemName)]
  unset [← ofResult (variableName indexName)]

/-- A loop; its variables are gone whichever way it ends. -/
def forEach (reference : String) (itemName : Value) (indexName : Option Value)
    (body : Act Unit) : Act Unit := do
  let values ← items reference
  let indexName := indexNameOf itemName indexName
  let anchor ← anchorCursor
  let last ← tryCatch (eachItem itemName indexName anchor body 0 anchor values) fun failure => do
    dropNames itemName indexName
    throw failure
  dropNames itemName indexName
  moveBack last

mutual

/-- Runs an action with its handler; `perform` carries out the steps. -/
def action (perform : Step → Act Unit) : Action → Act Unit
  | .step leaf onError _ => handled onError (sequence perform onError) (perform leaf)
  | .branch condition yes no onError _ =>
    handled onError (sequence perform onError) do
      if ← holds condition then sequence perform yes else sequence perform no
  | .loop reference itemName indexName body onError _ =>
    handled onError (sequence perform onError)
      (forEach reference itemName indexName (sequence perform body))

/-- Runs actions one after the other until one of them returns. -/
def sequence (perform : Step → Act Unit) : List Action → Act Unit
  | [] => return
  | first :: rest => do
    if (← context).shouldReturn then return
    action perform first
    sequence perform rest

end

end Act

inductive RunState where
  | idle | completed | failed
  deriving Repr, DecidableEq

def RunState.text : RunState → String
  | .idle => "idle"
  | .completed => "completed"
  | .failed => "failed"

/-- How a run ended. -/
structure Outcome where
  state : RunState
  context : Context
  value : Value := .null
  error : Option Failure := none

def Outcome.success (o : Outcome) : Bool := o.state ≠ .failed

/-- The block that tells of a failed run. -/
def failureBlock (config : Config) (kind : String) (c : Context) (failure : Failure) : String :=
  Log.block {} ("Script " ++ config.tag ++ " failed")
    [("Trigger", .str kind), ("Document", ((c.document.map (·.path)).map Value.str).getD .null),
      ("Line", .str c.line), ("Error", .str failure.name), ("Message", .str failure.message)]

/-- What a run begins with: the line, its document and its task, then the variables given. -/
def Context.start (item : Option Tasks.WorkItem) (line document : Option String)
    (buffer : Option Buffer) (trigger tag : Option String) (vars : Record) : Result Context := do
  let line ← match line, item, buffer with
    | some line, _, _ => pure line
    | none, some item, _ => pure item.text
    | none, none, some buffer => buffer.line buffer.cursor.line
    | none, none, none => pure ""
  let document := (document.or (item.map (·.path))).map Documents.DocumentRef.ofPath
  let seen : Record := [("line", .str line)]
  let seen := match document with
    | some d => seen.set "file" (.map d.toRecord)
    | none => seen
  let seen := match item with
    | some i => seen.set "task" (.map i.toRecord)
    | none => seen
  let vars := Record.update seen vars
  return {
    vars, line, document, trigger, tag
    response := vars.getD "response" .null
    cursor := buffer.map (·.cursor) }

/-- A scene as the actions of a trigger find it. -/
def Scene.enter (config : Config) (kind : String) (scene : Scene) : Scene :=
  let c := scene.context
  { scene with context := { c with
      trigger := some kind
      tag := (c.tag.filter (· ≠ "")).or (some config.tag)
      vars := c.vars.setDefault "config" (.map config.settings) } }

/-- Runs the actions of a trigger, whose steps `perform` carries out. Whatever fails in them ends up
in the outcome. -/
def executeWith (perform : Step → Act Unit) (config : Config) (kind : String) (scene : Scene) :
    Outcome × Scene :=
  match config.trigger? kind with
  | none => (⟨.idle, scene.context, .null, none⟩, scene)
  | some trigger =>
    match (Act.sequence perform trigger.actions).run (scene.enter config kind) with
    | (.ok (), scene) =>
      (⟨.completed, scene.context, scene.context.returnValue, none⟩, scene)
    | (.error failure, scene) =>
      let c := { scene.context with
        error := some failure
        vars := scene.context.vars.set "error" (.map (failureRecord failure)) }
      let world := scene.world.log .warning (failureBlock config kind c failure)
      (⟨.failed, c, .null, some failure⟩, { scene with context := c, world })

/-- Runs a trigger of a script. -/
def Runner.execute (engine : Runner) : Config → String → Scene → Outcome × Scene :=
  executeWith engine.perform

end BulletScript.Engine
