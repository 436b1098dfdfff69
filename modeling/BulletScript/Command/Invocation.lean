import BulletScript.Command.Arguments
import BulletScript.Files.Path
import BulletScript.Script.Action
import BulletScript.Value.Whole

/-! The commands of the program and how they are called. -/
namespace BulletScript.Command

open Files Script

/-- What is run: one trigger of a tag's script, on a line of a document. -/
structure RunRequest where
  scripts : Path
  tag : String
  document : Path
  line : Int
  trigger : TriggerKind := .onTrigger
  settings : Option Path := none
  data : Option String := none

inductive Task where
  | check (scripts : Path)
  | run (request : RunRequest)
  | validateSettings (settings : Path)

/-- A call of the program. -/
structure Invocation where
  logLevel : String := "INFO"
  logFile : Option Path := none
  task : Task

def any (_ : String) : Bool := true

def isLine (s : String) : Bool := (wholeText s).toBool

def helpRules : List Rule := [⟨"-h", .stop .help⟩, ⟨"--help", .stop .help⟩]

def globalRules : List Rule :=
  helpRules ++ [⟨"--version", .stop .version⟩, ⟨"--log-level", .value any⟩,
    ⟨"--log-file", .value any⟩]

def runRules : List Rule :=
  helpRules ++ [⟨"--tag", .value any⟩, ⟨"--document", .value any⟩, ⟨"--line", .value isLine⟩,
    ⟨"--trigger", .value fun s => (TriggerKind.ofText? s).isSome⟩, ⟨"--settings", .value any⟩,
    ⟨"--data", .value any⟩]

/-- What must be given. -/
def required {α : Type} (a : Option α) : Except Stop α :=
  match a with
  | some a => .ok a
  | none => .error .misuse

def runRequest (g : Given) : Except Stop RunRequest := do
  return {
    scripts := .ofText (← required g.positional)
    tag := ← required (g.option? "--tag")
    document := .ofText (← required (g.option? "--document"))
    line := ← required ((g.option? "--line").bind fun s => (wholeText s).toOption)
    trigger := ((g.option? "--trigger").bind TriggerKind.ofText?).getD .onTrigger
    settings := (g.option? "--settings").map .ofText
    data := g.option? "--data" }

/-- The task that a name and the words behind it ask for, and whether a word is left over. -/
def readTask (name : String) (words : List String) : Except Stop (Task × Bool) := do
  let given (rules : List Rule) : Except Stop Given := do
    takeWords (← readWords rules words) {}
  if name = "check" then
    let g ← given helpRules
    return (.check (.ofText (← required g.positional)), g.isStray)
  else if name = "run" then
    let g ← given runRules
    return (.run (← runRequest g), g.isStray)
  else if name = "validate-settings" then
    let g ← given helpRules
    return (.validateSettings (.ofText (← required g.positional)), g.isStray)
  else throw .misuse

/-- The call that the words of a command line make. -/
def Invocation.ofWords (words : List String) : Except Stop Invocation := do
  let (g, name, count) ← takeGlobal (← readWords globalRules words) {}
  let (task, isStray) ← readTask name (words.drop (words.length - count))
  if g.isStray || isStray then throw .misuse
  return {
    logLevel := (g.option? "--log-level").getD "INFO"
    logFile := (g.option? "--log-file").map .ofText
    task }

end BulletScript.Command
