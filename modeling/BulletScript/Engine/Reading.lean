import BulletScript.Bytes.Base64
import BulletScript.Documents.Frontmatter
import BulletScript.Documents.Link
import BulletScript.Engine.Context
import BulletScript.Script.Options
import BulletScript.Web.Media

/-! Steps that bring text into a run: from its line, its document, a selection, the lines below an
item, and what a line links to. -/
namespace BulletScript.Engine

open Documents Tasks Script

namespace Act

/-- The content of a file of the store as the run sees it. -/
def withTree {α : Type} (work : Files.Tree → Result α) : Act α := do
  ofResult (work (← get).world.tree)

def store (engine : Runner) : Act Store := require engine.documents "document store"

/-- The document a reference names, seen from the document of the run. -/
def resolve (store : Store) (reference : String) : Act DocumentRef := do
  let source := (← context).document.map (·.path)
  match ← withTree fun tree => store.resolve tree reference source with
  | some document => return document
  | none => fail (.unresolved reference)

/-- Values of a pattern matched against a text become variables. -/
def extractInto (text pattern : String) : Act Record := do
  let found ← ofResult (Template.extract text pattern)
  match found.error with
  | some reason => throw (.pattern (.noMatch reason))
  | none =>
    setMany found.values
    return found.values

/-- The reference a step gives, or else the one in the line of the run. -/
def referenceOf (step : ReadStep) (find : String → Option String) : Act String := do
  match step.reference.filter Value.isSome with
  | some template => return Template.clean (← renderOption template)
  | none =>
    let line := (← context).line
    match find line with
    | some reference => return reference
    | none => fail (.noReference step.source.text line)

def dropNewlines (s : String) : String := .ofList (s.toList.dropWhile (· = '\n'))

/-- The text of a linked document, without its head if the step says so. -/
def readLink (engine : Runner) (step : ReadStep) : Act String := do
  let store ← store engine
  let target ← resolve store (← referenceOf step firstLink?)
  let text ← withTree fun tree => store.read tree target.path
  setNamed step.fileAs (.map target.toRecord)
  if step.stripFrontmatter || step.includeFrontmatter then
    let (head, body) ← ofResult (splitFrontmatter text)
    if step.includeFrontmatter then setNamed step.frontmatterAs (.map head)
    return if step.stripFrontmatter then dropNewlines body else text
  else return text

/-- The address of an image, or its bytes as text. -/
def readImage (engine : Runner) (step : ReadStep) : Act String := do
  let reference ← referenceOf step firstImage?
  if ← ofResult (Web.isWebUrl reference) then return reference
  let store ← store engine
  let target ← resolve store (((Text.cut? "|" reference).map (·.1)).getD reference)
  setNamed step.fileAs (.map target.toRecord)
  match step.format with
  | .url =>
    let tree := (← get).world.tree
    let below := Text.join "/" (store.base ++ [target.path])
    return "file://" ++ tree.root ++ "/" ++ addressText below
  | format =>
    let encoded := Bytes.base64 (← withTree fun tree => store.readBytes tree target.path)
    if format = .base64 then return encoded
    let type := (Web.mediaType? target.name).getD "application/octet-stream"
    return "data:" ++ type ++ ";base64," ++ encoded

/-- The pairs that child lines hold. -/
def recordOfChildren (children : List ChildLine) : Record :=
  Record.ofEntries (children.filterMap fun child =>
    (keyValue? child.text).map fun (key, value) =>
      (.str key, parseLiteral (Template.clean value)))

/-- The lines below the item, as text, as a list and as a record. -/
def readChildren (engine : Runner) (step : ReadStep) : Act String := do
  if (← get).item.isNone then
    setNamed step.childrenAs (.map [])
    setNamed step.childrenLinesAs (.list [])
    return ""
  let children ← childLines (← require engine.tasks "task editor")
  let ls := children.map (·.text)
  setNamed step.childrenAs (.map (recordOfChildren children))
  setNamed step.childrenLinesAs (.list (ls.map .str))
  return Text.unlines ls

/-- The text of the document of the run. -/
def readDocument (engine : Runner) : Act String := do
  let store ← store engine
  match (← context).document with
  | none => fail .noDocument
  | some document => withTree fun tree => store.read tree document.path

/-- The text that a step reads. -/
def readSource (engine : Runner) (step : ReadStep) : Act String := do
  match step.source with
  | .line => return (← context).line
  | .document | .file => readDocument engine
  | .selection =>
    let selection := (((← get).buffer).map (·.selection)).getD ""
    let line := (← context).line
    return if selection = "" then line else selection
  | .children => readChildren engine step
  | .wikilink => readLink engine step
  | .image => readImage engine step

def storeIn (name : Option Value) (v : Value) : Act Unit := do
  match name.filter Value.isSome with
  | some name => setNamed name v
  | none => return

/-- Reads a text and matches it. Of a line the content is matched, without its decoration. -/
def read (engine : Runner) (step : ReadStep) : Act Unit := do
  let text ← readSource engine step
  let content : Option String :=
    if step.source = .line then
      some (if step.strip then (Outline.ListLine.ofText text).content else text)
    else none
  if step.pattern ≠ "" then
    let _ ← extractInto (content.getD text) step.pattern
  set "text" (.str text)
  match content with
  | some content => set "textContent" (.str content)
  | none => pure ()
  storeIn step.storeAs (.str text)

/-- Makes what is known of a document a variable. -/
def file (engine : Runner) (reference storeAs : Value) : Act Unit := do
  let store ← store engine
  let reference := Template.clean (← renderOption reference)
  let document ← resolve store reference
  setNamed storeAs (.map document.toRecord)

end Act

end BulletScript.Engine
