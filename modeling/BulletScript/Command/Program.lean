import BulletScript.Command.Invocation
import BulletScript.Console.Report
import BulletScript.Engine.Binding
import BulletScript.Json.Reader
import BulletScript.Log.Block
import BulletScript.Settings.Environment

/-! What the commands of the program do. -/
namespace BulletScript.Command

open Console Documents Engine Files Script

/-- Where and when the program is called, and by how many microseconds the clocks there are ahead of
universal time. -/
structure Site where
  folder : Place := []
  homes : Settings.Homes
  environment : Settings.Environment
  now : Calendar.Stamp
  ahead : Int := 0

/-- What a call leaves behind. -/
structure Ending where
  code : UInt32
  console : List Printed
  world : World

namespace Site

/-- The folder of the call as a whole path. -/
def path (site : Site) (tree : Tree) : Path := .ofText (tree.pathOf site.folder)

/-- The text of a file that the caller names. -/
def read (site : Site) (tree : Tree) (p : Path) : Result String :=
  let content := match tree.place? site.folder p.text with
    | some place => tree.read place p.text
    | none => .error (.notFound p.text)
  match content with
  | .ok content => content.toText
  | .error fault => .error (.internal (.file fault))

/-- The settings of a run: those of a file, or those that make the document's folder the root. -/
def settings (site : Site) (tree : Tree) (r : RunRequest) : Result BulletScript.Settings := do
  let here := site.path tree
  match r.settings with
  | some file =>
    let v ← Settings.readFile site.environment file.text (← site.read tree file)
    Settings.build site.homes (here.under file.parent) (← Settings.inFile v)
  | none =>
    let folder := (here.under r.document).normal.parent
    Settings.build site.homes here (.map [("document_root", .str folder.text)])

end Site

/-- Faults of the system, which are told in place of a result. -/
def isSystemFault : Failure → Bool
  | .internal (.file _) | .internal (.system _) => true
  | _ => false

/-- Failures of a run that are told to the caller; all others end the program. -/
def isTold (failure : Failure) : Bool :=
  match failure with
  | .pattern _ | .parse _ | .action _ | .script _ => true
  | .internal (.undecodable _) => true
  | _ => isSystemFault failure || failure.name = "ValueError"

def unreadable (p : Path) (failure : Failure) : Printed :=
  ofFailure ("Could not read " ++ p.text ++ ": " ++ escape failure.message)

/-- Lists the scripts of a document. -/
def check (site : Site) (scripts : Path) (w : World) : Result Ending :=
  match site.read w.tree scripts with
  | .ok text =>
    let library := Library.ofText text
    let w := library.log.foldl (fun w message => w.log .warning message) w
    .ok ⟨if library.scripts.isEmpty then 1 else 0, ofScripts library.scripts, w⟩
  | .error failure =>
    if isSystemFault failure then .ok ⟨1, [unreadable scripts failure], w⟩ else .error failure

def isYamlFault : Failure → Bool
  | .internal (.yaml ..) => true
  | _ => false

/-- Reports on a file of settings. -/
def validateSettings (site : Site) (file : Path) (w : World) : Result Ending := do
  let data := (site.read w.tree file).bind (Settings.readFile site.environment file.text)
  match data with
  | .ok data =>
    let issues ← Settings.validate site.homes (site.path w.tree) w.tree data
    return ⟨if Settings.isValid issues then 0 else 1, ofIssues issues, w⟩
  | .error failure =>
    if isSystemFault failure || isYamlFault failure then
      return ⟨1, [unreadable file failure], w⟩
    throw failure

/-- The script of a tag. -/
def scriptOf (r : RunRequest) (library : Library) : Result Parsed :=
  let tag := if Text.startsWith "#" r.tag then r.tag else "#" ++ r.tag
  match library.get? tag with
  | some parsed => .ok parsed
  | none => .error (.script ("No script for " ++ tag ++ " in " ++ r.scripts.text))

/-- The line of a document that is run on, and its index. -/
def lineOf (r : RunRequest) (document : String) (ls : List String) : Result (Nat × String) :=
  let index := r.line - 1
  match if 0 ≤ index then ls[index.toNat]? else none with
  | some line => .ok (index.toNat, line)
  | none => .error (.script ("Line " ++ toString r.line ++ " is outside " ++ document ++ " (" ++
      toString ls.length ++ " lines)"))

/-- The value that a text gives to `onData`. -/
def dataOf (data : Option String) : Result Value :=
  match data.filter (· ≠ "") with
  | some s => Json.read s
  | none => .ok .null

/-- The folder that the settings name for the documents, and the path of a document in it. -/
def storeOf (tree : Tree) (settings : BulletScript.Settings) (document : Path) :
    Result (Store × String) := do
  let path ← relativeTo (.ofText settings.documentRoot) document
  match tree.place? [] settings.documentRoot with
  | some base => return (⟨base⟩, path)
  | none => throw (.action (.documentNotFound path))

/-- Runs a trigger on the item at hand, or on the buffer or the data that it is meant for. -/
def runOn (b : Binding) (store : Store) (r : RunRequest) (document : String)
    (noTask : Failure) : Deal (Option Outcome) := do
  match r.trigger with
  | .onEnter =>
    modify fun d => { d with item := none }
    let outcome ← b.onEnter document
    let d ← get
    let text := (d.buffer.map (·.text)).getD ""
    let tree ← Deal.ofResult (store.write d.world.tree document text)
    modify fun d => { d with world := { d.world with tree } }
    return outcome
  | .onData => b.onData (← Deal.ofResult (dataOf r.data)) document
  | kind =>
    if (← get).item.isNone then throw noTask
    match kind with
    | .onTrigger => return some (← b.onTrigger none)
    | .onReset => return some (← b.onReset)
    | kind => return some (← Deal.runTrigger b.engine b.config kind.text false none none
        [("config", .map b.options)])

/-- Runs one trigger of a script on a line of a document. -/
def runScript (site : Site) (r : RunRequest) : Deal (Option Outcome) := do
  let tree := (← get).world.tree
  let settings ← Deal.ofResult (site.settings tree r)
  let library := Library.ofText (← Deal.ofResult (site.read tree r.scripts))
  library.log.forM (Deal.log .warning)
  let parsed ← Deal.ofResult (scriptOf r library)
  let (store, document) ←
    Deal.ofResult (storeOf tree settings ((site.path tree).under r.document))
  let ls := Text.lines (← Deal.ofResult (store.read tree document))
  let (index, line) ← Deal.ofResult (lineOf r document ls)
  let targets ← Deal.ofWorld (Notify.serviceTargets settings.notifications)
  let engine : Runner := {
    settings
    documents := some store
    tasks := some ⟨store, settings.indentUnit⟩
    query := some store
    http := true
    notifier := .targets targets
    now := site.now
    ahead := site.ahead }
  let item := Tasks.WorkItem.ofLine? line document index
  modify fun d => { d with
    item
    buffer := some { lines := ls, cursor := ⟨index, line.length⟩ } }
  let noTask : Failure := .script
    ("Line " ++ toString r.line ++ " of " ++ document ++ " is not a task: " ++ line)
  runOn (.make parsed.config.tag engine parsed.config []) store r document noTask

def run (site : Site) (r : RunRequest) (w : World) : Result Ending :=
  let (outcome, d) := (runScript site r).run { world := w }
  match outcome with
  | .ok none =>
    let note := r.tag ++ " has no " ++ r.trigger.text ++ " trigger"
    .ok ⟨0, [.markup (inStyle "dim" note)], d.world⟩
  | .ok (some outcome) =>
    .ok ⟨if outcome.success then 0 else 1, [ofOutcome r.tag outcome], d.world⟩
  | .error failure =>
    if isTold failure then .ok ⟨1, [ofFailure (escape failure.message)], d.world⟩
    else .error failure

/-- The files that a task names. -/
def Task.files : Task → List Path
  | .check scripts => [scripts]
  | .run r => [r.scripts, r.document] ++ r.settings.toList
  | .validateSettings file => [file]

/-- The settings that a task works with, if they can be read. -/
def Task.settings? (site : Site) (tree : Tree) : Task → Option BulletScript.Settings
  | .check _ => none
  | .run r => (site.settings tree r).toOption
  | .validateSettings file => (Settings.load site.homes site.environment
      ((site.path tree).under file) ((site.read tree file).toOption.getD "")).toOption

/-- Whether a task needs all that is below the folder of the documents. -/
def Task.needsDocuments : Task → Bool
  | .run _ => true
  | _ => false

/-- Carries out a call of the program. -/
def Invocation.perform (i : Invocation) (site : Site) (w : World) : Result Ending := do
  let _ ← Log.readLevel i.logLevel
  match i.task with
  | .check scripts => check site scripts w
  | .validateSettings file => validateSettings site file w
  | .run request => run site request w

end BulletScript.Command
