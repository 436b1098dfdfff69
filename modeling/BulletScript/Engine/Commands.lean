import BulletScript.Engine.Fetching
import BulletScript.Number.Layout
import BulletScript.Shell.Output
import BulletScript.Shell.Quote
import BulletScript.Shell.Sandbox

/-! Steps that run a command in the folder of the documents. -/
namespace BulletScript.Engine

namespace Act

def commandFolder (engine : Runner) : Act String := do
  match engine.documents with
  | some store => return (← get).world.tree.pathOf store.base
  | none => return engine.settings.documentRoot

/-- Runs a command and gives its output. It must end in time and without an error. -/
def runCommand (command folder : String) (timeout : Float) (limit : Nat) : Act String := do
  let inTime := 0 < timeout
  let reply ← modifyGet fun s =>
    let (reply, world) := s.world.command command folder inTime
    (reply, { s with world })
  let text := ((Shell.Output.mk limit [] false).read reply.chunks).text
  if reply.hangs || !inTime then
    fail (.shell ("Command timed out after " ++ Number.generalText timeout ++ "s"))
  else if reply.exitCode ≠ 0 then
    fail (.shell ("Command exited with code " ++ toString reply.exitCode ++ ": " ++ text))
  else return text

/-- Puts the lines of an output below the item or the cursor's line. -/
def addOutput (engine : Runner) (ls : List String) : Act Unit := do
  if ls.isEmpty then return
  match (← get).item, engine.tasks with
  | some _, some editor =>
    updateItem editor { appendChildren := ls.map fun line => { text := line, marker := "+" } }
  | _, _ =>
    if (← get).buffer.isSome then insertBelow engine "+" (ls.map fun line => (1, line))

def shell (engine : Runner) (command : String) (storeAs : Option Value) (timeoutMs : Option Int) :
    Act Unit := do
  if !engine.settings.shell.enabled then fail .shellDisabled
  let vars := (← context).vars
  let command ← ofResult (Template.interpolateWith Shell.quote true command vars)
  ofResult (Shell.checkSandbox command)
  let folder ← commandFolder engine
  let timeout ← timeoutOf timeoutMs engine.settings.shell.timeout
  let output ← runCommand command folder timeout engine.settings.shell.maxOutput
  set "output" (.str output)
  storeIn storeAs (.str output)
  addOutput engine ((Text.boundaryLines output).filter (!Text.isBlankText ·))

end Act

end BulletScript.Engine
