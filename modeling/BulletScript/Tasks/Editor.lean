import BulletScript.Tasks.Edit

/-! Edits carried out on documents. An item is told where its line is as soon as it is found, even
if the edit fails after that. -/
namespace BulletScript.Tasks

open Text Files Documents

/-- Where the documents are and how they are indented. -/
structure Editor where
  store : Store
  indentUnit : String

namespace Editor

/-- The lines of the item's document, whether it ends with a newline, and the index of the item's
line. -/
def find (editor : Editor) (tree : Tree) (item : WorkItem) : Result (String × Nat) := do
  let s ← editor.store.read tree item.path
  match locate (lines s) item with
  | some index => return (s, index)
  | none => throw (.action (.itemNotFound item.path item.text))

/-- Edits the item's line and the lines below it. -/
def update (editor : Editor) (tree : Tree) (item : WorkItem) (u : Update) :
    WorkItem × Result Tree :=
  match editor.find tree item with
  | .error failure => (item, .error failure)
  | .ok (s, index) =>
    let item := { item with line := index }
    match editor.store.write tree item.path (editText editor.indentUnit u s index) with
    | .error failure => (item, .error failure)
    | .ok tree =>
      let content := u.content (Outline.ListLine.ofText ((lines s).getD index "")).content
      ({ item with text := content, tags := findTags content }, .ok tree)

/-- Sets the status mark of the item's line. -/
def setStatus (editor : Editor) (tree : Tree) (item : WorkItem) (status : String) :
    WorkItem × Result Tree :=
  match Outline.statusMarks.find? (·.toString = status) with
  | none => (item, .error (.action (.unknownStatus status)))
  | some mark =>
    match editor.find tree item with
    | .error failure => (item, .error failure)
    | .ok (s, index) =>
      let item := { item with line := index }
      let ls := lines s
      match markLine? mark (ls.getD index "") with
      | none => (item, .error (.action (.notATask (index + 1) item.path)))
      | some line =>
        let text := joinLines (ls.set index line) (endsWith "\n" s)
        match editor.store.write tree item.path text with
        | .error failure => (item, .error failure)
        | .ok tree => ({ item with status }, .ok tree)

/-- The lines below the item. -/
def children (editor : Editor) (tree : Tree) (item : WorkItem) :
    WorkItem × Result (List ChildLine) :=
  match editor.find tree item with
  | .error failure => (item, .error failure)
  | .ok (s, index) =>
    ({ item with line := index }, .ok (childLines editor.indentUnit (lines s) index))

end Editor

end BulletScript.Tasks
