import BulletScript.Buffer
import BulletScript.Documents.Store
import BulletScript.Engine.World
import BulletScript.Notify.Target
import BulletScript.Tasks.Query
import BulletScript.Tasks.Editor
import BulletScript.Template.Extract

/-! A run of a script: what it is given, what it changes, and the steps all actions share. -/
namespace BulletScript.Engine

open Documents Tasks

/-- Who hears of notifications. -/
inductive Notifier where
  | recorder
  | targets (targets : List Notify.Target)

/-- What runs scripts, by the parts it works with. A part that is missing makes the actions fail
that need it. It is `now`, on clocks that are `ahead` of universal time by that many microseconds. -/
structure Runner where
  settings : Settings
  documents : Option Store := none
  tasks : Option Editor := none
  query : Option Store := none
  http : Bool := false
  notifier : Notifier := .targets [⟨.log, true⟩]
  now : Calendar.Stamp
  ahead : Int := 0

/-- What a script sees and leaves behind. -/
structure Context where
  vars : Record := []
  line : String := ""
  document : Option DocumentRef := none
  response : Value := .null
  error : Option Failure := none
  cursor : Option Cursor := none
  shouldReturn : Bool := false
  returnValue : Value := .null
  trigger : Option String := none
  tag : Option String := none

/-- The state of a run: the world, the work item and the buffer it edits, and its context. -/
structure Scene where
  world : World
  item : Option WorkItem := none
  buffer : Option Buffer := none
  context : Context := {}

/-- A step of a run. It may fail; what it changed before it failed stays changed. -/
abbrev Act (α : Type) := ExceptT Failure (StateM Scene) α

namespace Act

def ofResult {α : Type} (r : Result α) : Act α := ExceptT.mk (pure r)

def fail {α : Type} (fault : ActionFault) : Act α := throw (.action fault)

def context : Act Context := do return (← get).context

def modifyContext (f : Context → Context) : Act Unit :=
  modify fun s => { s with context := f s.context }

def modifyWorld (f : World → World) : Act Unit := modify fun s => { s with world := f s.world }

/-- Work on the world as a step of a run. -/
def ofWorld {α : Type} (m : WorldM α) : Act α :=
  ExceptT.mk fun s =>
    let (r, world) := m.run s.world
    (r, { s with world })

def log (level : Script.LogLevel) (message : String) : Act Unit := modifyWorld (·.log level message)

def set (name : String) (v : Value) : Act Unit :=
  modifyContext fun c => { c with vars := c.vars.set name v }

/-- The name that an option gives to a variable. -/
def variableName : Value → Result String
  | .str s => .ok s
  | v => .error (.internal (.badType ("unhashable type: '" ++ v.typeName ++ "'")))

def setNamed (name : Value) (v : Value) : Act Unit := do set (← ofResult (variableName name)) v

def setMany (values : Record) : Act Unit :=
  modifyContext fun c => { c with vars := c.vars.update values }

def unset (names : List String) : Act Unit :=
  modifyContext fun c =>
    { c with vars := names.foldl (fun (vars : Record) (name : String) => vars.erase name) c.vars }

/-- The text of a template. -/
def render (template : String) : Act String := do
  ofResult (Template.interpolate template (← context).vars)

/-- The text that an option writes as a template. -/
def templateOf : Value → Result String
  | .str s => .ok s
  | v => if v.isSome then .error (.internal (.noAttribute v.typeName "find")) else .ok ""

def renderOption (template : Value) : Act String := do render (← ofResult (templateOf template))

/-- The list that a variable holds; its name may stand in a placeholder. -/
def items (reference : String) : Act (List Value) := do
  let name := Text.trim reference
  let name :=
    if Text.startsWith "\x7b\x7b" name && Text.endsWith "\x7d\x7d" name then
      Text.trim (Text.dropEnd 2 (Text.drop 2 name))
    else name
  match ← ofResult (resolvePath (← context).vars name) with
  | some (.list values) => return values
  | _ => fail (.notAnArray name)

/-- The cursor of the run, or else that of the buffer. -/
def currentCursor : Act Cursor := do
  let s ← get
  return (s.context.cursor.or (s.buffer.map (·.cursor))).getD ⟨0, 0⟩

def moveCursor (position : Cursor) : Act Unit := do
  modifyContext fun c => { c with cursor := some position }
  match (← get).buffer with
  | some buffer =>
    let buffer ← ofResult (buffer.setCursor position)
    modify fun s => { s with buffer := some buffer }
  | none => return

def buffer : Act Buffer := do
  match (← get).buffer with
  | some buffer => return buffer
  | none => fail (.unavailable "text buffer")

def setBuffer (buffer : Buffer) : Act Unit := modify fun s => { s with buffer := some buffer }

/-- The line of a list at an index that may count from the end. -/
def lineAt (ls : List String) (index : Int) : Result String :=
  let i := if index < 0 then index + ls.length else index
  match if 0 ≤ i then ls[i.toNat]? else none with
  | some line => .ok line
  | none => .error (.internal (.outOfRange "list index out of range"))

/-- Adds list items below the block of the cursor's line, each at a depth below that line, and
moves the cursor to the end of the last one. -/
def insertBelow (engine : Runner) (bullet : String) (entries : List (Int × String)) :
    Act Unit := do
  let b ← buffer
  let anchor := (← currentCursor).line
  let base := Text.leadingBlanks (← ofResult (lineAt b.lines anchor))
  let new := entries.map fun (depth, text) =>
    base ++ Text.repeated engine.settings.indentUnit depth.toNat ++ bullet ++ " " ++ text
  match new.getLast? with
  | none => return
  | some last =>
    let stop ← ofResult (Outline.blockEndAt b.lines anchor)
    setBuffer (b.insertLines stop new)
    moveCursor ⟨stop + new.length, last.length⟩

/-- A service, or the fault that it is missing. -/
def require {α : Type} (service : Option α) (name : String) : Act α :=
  match service with
  | some a => return a
  | none => fail (.unavailable name)

/-- An edit of the work item at hand by an editor. -/
def edit {α : Type} (work : Files.Tree → WorkItem → WorkItem × Result α)
    (keep : α → World → World) : Act (Option α) := do
  let s ← get
  match s.item with
  | none => return none
  | some item =>
    let (item, r) := work s.world.tree item
    modify fun s => { s with item := some item }
    let a ← ofResult r
    modifyWorld (keep a)
    return some a

def keepTree (tree : Files.Tree) (w : World) : World := { w with tree }

def updateItem (editor : Editor) (u : Update) : Act Unit := do
  let _ ← edit (fun tree item => editor.update tree item u) keepTree

def setStatus (editor : Editor) (status : String) : Act Unit := do
  let _ ← edit (fun tree item => editor.setStatus tree item status) keepTree

def childLines (editor : Editor) : Act (List ChildLine) := do
  return (← edit editor.children fun _ w => w).getD []

end Act

end BulletScript.Engine
