import BulletScript.Outline.Line
import BulletScript.Text.Word
import BulletScript.Value.Basic

/-! Work items: task lines of documents, and the tags on them. -/
namespace BulletScript.Tasks

open Text

/-- The characters of a tag behind its number sign. -/
def isTagChar (c : Char) : Bool := isWord c || c = '/' || c = '-'

/-- A character right before a number sign that keeps it from starting a tag. -/
def blocksTag (c : Char) : Bool := isWord c || c = '#'

/-- The tags of a text that follows a character. -/
def tagsAfter (before : Option Char) : List Char → List (List Char)
  | [] => []
  | c :: rest =>
    let name := rest.takeWhile isTagChar
    if c = '#' && !before.any blocksTag && !name.isEmpty then
      ('#' :: name) :: tagsAfter name.getLast? (rest.drop name.length)
    else tagsAfter (some c) rest
termination_by cs => cs.length
decreasing_by
  all_goals simp only [List.length_drop, List.length_cons]
  all_goals omega

def findTags (s : String) : List String := (tagsAfter none s.toList).map .ofList

/-- A task line of a document, as it was when it was last read or written. -/
structure WorkItem where
  text : String
  path : String
  line : Int
  status : String
  tags : List String
  indent : String
  deriving Repr, DecidableEq

namespace WorkItem

def ofLine? (line path : String) (index : Int) : Option WorkItem := do
  let parsed ← Outline.taskLine? line
  return {
    text := parsed.content
    path
    line := index
    status := (parsed.status.map Char.toString).getD " "
    tags := findTags parsed.content
    indent := parsed.indent }

def completed (item : WorkItem) : Bool := item.status = "x" || item.status = "X"

/-- What scripts see of a work item. -/
def toRecord (item : WorkItem) : Record :=
  [("text", .str item.text), ("path", .str item.path), ("line", .int item.line),
    ("status", .str item.status), ("completed", .bool item.completed),
    ("tags", .list (item.tags.map .str))]

end WorkItem

end BulletScript.Tasks
