import BulletScript.Files.Path
import BulletScript.Text.Blank
import BulletScript.Value.Basic

/-! References to documents: what a link names, and what scripts see of a document. -/
namespace BulletScript.Documents

open Text

def suffix : String := ".md"

/-- What a link between double brackets names, without heading and alias; any other text names
itself. -/
def linkTarget (reference : String) : String :=
  let s := trim reference
  let cs := match s.toList with
    | '!' :: rest => rest
    | cs => cs
  match cs with
  | '[' :: '[' :: rest =>
    let (target, rest) := rest.span fun c => c ≠ ']' && c ≠ '|' && c ≠ '#'
    let rest := match rest with
      | '#' :: heading => heading.dropWhile fun c => c ≠ ']' && c ≠ '|'
      | rest => rest
    let rest := match rest with
      | '|' :: shown => shown.dropWhile (· ≠ ']')
      | rest => rest
    if rest = [']', ']'] then .ofList (trimChars target) else s
  | _ => s

example : linkTarget "![[Note#Heading|alias]]" = "Note" := by cbv
example : linkTarget "[[a|b]c]]" = "[[a|b]c]]" := by cbv

/-- A document by its path, with the parts of its name. -/
structure DocumentRef where
  path : String
  name : String
  stem : String
  extension : String
  deriving Repr, DecidableEq

namespace DocumentRef

def ofPath (path : String) : DocumentRef :=
  let p := Files.Path.ofText path
  ⟨p.text, p.name, p.stem, p.extension⟩

def toRecord (d : DocumentRef) : Record :=
  [("path", .str d.path), ("name", .str d.name), ("basename", .str d.stem),
    ("extension", .str d.extension)]

end DocumentRef

end BulletScript.Documents
