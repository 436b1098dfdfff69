import BulletScript.Engine.Commands

/-! Steps that edit the work item, or the buffer where there is none. -/
namespace BulletScript.Engine

open Script Tasks Outline

/-- The sign before each mark in a template for where the cursor goes is dropped. -/
def dropMarkers (s : String) : String := Text.replace Template.cursorMarker "" s

/-- The line of a buffer after a transform. -/
def editedLine (mode : TransformMode) (line text : String) : String :=
  match mode with
  | .append => Text.trimRight line ++ " " ++ text
  | .prepend => decoration line ++ text ++ " " ++ (ListLine.ofText line).content
  | .replace => (ListLine.ofText line).indent ++ "- " ++ text

namespace Act

mutual

/-- The lines that templates write below an item; empty ones are left out. -/
def itemChild : ChildTemplate → Act (List ChildLine)
  | ⟨template, indent, children⟩ => do
    let text := Text.trim (← render template)
    if text = "" ∨ text = Template.cursorMarker then return []
    let own : ChildLine := { text := Text.trim (dropMarkers text), indent }
    return own :: (← itemChildren children)

def itemChildren : List ChildTemplate → Act (List ChildLine)
  | [] => return []
  | child :: rest => do return (← itemChild child) ++ (← itemChildren rest)

end

mutual

/-- The lines that templates write below a line of a buffer, each with its depth. -/
def bufferChild (shift : Int) : ChildTemplate → Act (List (Int × String))
  | ⟨template, indent, children⟩ => do
    let text := Text.trim (← render template)
    let own := if text = "" then [] else [((indent : Int) + 1 - shift, text)]
    return own ++ (← bufferChildren shift children)

def bufferChildren (shift : Int) : List ChildTemplate → Act (List (Int × String))
  | [] => return []
  | child :: rest => do return (← bufferChild shift child) ++ (← bufferChildren shift rest)

end

/-- Makes a text the line of the run. -/
def setLine (line : String) : Act Unit := do
  modifyContext fun c => { c with line }
  set "line" (.str line)

def transformItem (editor : Editor) (template : String) (mode : TransformMode)
    (children : List ChildTemplate) : Act Unit := do
  let own : Update ←
    if template = "" then pure {}
    else do
      let text := Text.trim (dropMarkers (← render template))
      pure <| match mode with
        | .append => { append := text }
        | .prepend => { prepend := text }
        | .replace => { replace := some fun _ => text }
  let below ← itemChildren children
  updateItem editor { own with appendChildren := below }
  if template ≠ "" then setLine (((← get).item.map (·.text)).getD "")

/-- The first line that a transform writes, and the lines below it. Without a template of its own
the first child takes the place of the line. -/
def bufferEntries (line template : String) (mode : TransformMode)
    (children : List ChildTemplate) : Act (String × List (Int × String)) := do
  if template ≠ "" then
    let first := editedLine mode line (Text.trim (← render template))
    return (first, ← bufferChildren 0 children)
  match children with
  | [] => return (line, [])
  | head :: rest =>
    let first := Text.leadingBlanks line ++ "- " ++ Text.trim (← render head.template)
    let inner ← bufferChildren 1 head.children
    return (first, inner ++ (← bufferChildren 0 rest))

/-- The end of a text as a position below a line: the newlines in it, and what follows the last. -/
def positionAfter (line : Int) (before : String) : Cursor :=
  let ls := Text.lines before
  ⟨line + (ls.length - 1 : Nat), (ls.getLast?.getD "").length⟩

/-- Writes a block in place of the cursor's line. The cursor goes where the first mark stood, or to
the end of the block. -/
def transformBuffer (engine : Runner) (buffer : Buffer) (template : String) (mode : TransformMode)
    (children : List ChildTemplate) : Act Unit := do
  let cursor ← currentCursor
  let line ← ofResult (buffer.line cursor.line)
  let indent := Text.leadingBlanks line
  let (first, entries) ← bufferEntries line template mode children
  let below := entries.map fun (depth, text) =>
    indent ++ Text.repeated engine.settings.indentUnit depth.toNat ++ "- " ++ text
  let (block, mark) := Template.stripCursor (Text.unlines (first :: below))
  let block := dropMarkers block
  let new := Text.lines block
  setBuffer (buffer.replaceLines cursor.line cursor.line new)
  moveCursor (positionAfter cursor.line (match mark with
    | some offset => Text.take offset block
    | none => block))
  setLine (new.headD "")

def transform (engine : Runner) (template : Option String) (mode : TransformMode)
    (children : List ChildTemplate) : Act Unit := do
  let template := template.getD ""
  let s ← get
  if s.item.isSome then
    transformItem (← require engine.tasks "task editor") template mode children
  else match s.buffer with
    | some buffer => transformBuffer engine buffer template mode children
    | none => fail (.needsTarget "transform")

/-- Adds a line below the item or the cursor's line. -/
def append (engine : Runner) (template : String) (indent : Int) : Act Unit := do
  let text := Text.trim (← render template)
  if (← get).item.isSome then
    let editor ← require engine.tasks "task editor"
    updateItem editor { appendChildren := [{ text, indent := max (indent - 1) 0 }] }
  else if (← get).buffer.isSome then insertBelow engine "-" [(indent, text)]
  else fail (.needsTarget "append")

/-- Whether a character is among bullets, given as a text or as the keys of a record. -/
def bulletsOf : Value → Result (List String)
  | .str s => .ok (s.toList.map Char.toString)
  | .map entries => .ok (entries.map fun (key, _) => key.plain)
  | v => .error (.internal (.badType ("argument of type '" ++ v.typeName ++ "' is not iterable")))

/-- Bullets of lines that scripts write; lines with the other one are left to people. -/
def generatedBullets : String := "+*"

def taskAppend (editor : Editor) (step : TaskStep) : Act Unit := do
  match step.bullet with
  | .str bullet =>
    if !Text.contains bullet generatedBullets then fail (.notGenerated bullet generatedBullets)
    let text := Text.trim (← renderMaybe step.template)
    updateItem editor
      { appendChildren := [{ text, indent := max (step.indent - 1) 0, marker := bullet }] }
  | v =>
    throw (.internal (.badType
      ("'in <string>' requires string as left operand, not " ++ v.typeName)))

def statusChoices : List String := statusMarks.map Char.toString

/-- Removes the lines with one of these bullets. -/
def clearEdit (bullets : List String) : Update :=
  { removeMarked := "".intercalate (bullets.filter (·.length = 1)) }

/-- Removes generated lines below the task. -/
def taskClear (editor : Editor) (step : TaskStep) : Act Unit := do
  let bullets ← ofResult (bulletsOf step.bullets)
  if bullets.contains "-" then fail .clearsHumanLines
  updateItem editor (clearEdit bullets)

def taskStatus (editor : Editor) (step : TaskStep) : Act Unit := do
  let status := (step.toStatus.getD (.str " ")).plain
  if !statusChoices.contains status then fail (.statusNotOneOf status statusChoices)
  setStatus editor status
  match (← get).item with
  | some item => set "task" (.map item.toRecord)
  | none => return

/-- Steps on the task itself: they remove generated lines, set its status, or add a line. -/
def task (engine : Runner) (step : TaskStep) : Act Unit := do
  if (← get).item.isNone then fail .needsItem
  let editor ← require engine.tasks "task editor"
  match step.op with
  | .clear => taskClear editor step
  | .status => taskStatus editor step
  | .append => taskAppend editor step

end Act

end BulletScript.Engine
