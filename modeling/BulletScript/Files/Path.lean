import BulletScript.Text.Search

/-! Paths as text: their components, and how they are joined and shortened. -/
namespace BulletScript.Files

open Text

/-- A path without empty and single-dot components. The root is empty for a relative path. -/
structure Path where
  root : String := ""
  parts : List String := []
  deriving Repr, DecidableEq

namespace Path

/-- Two slashes at the start are kept; one, or more than two, are one. -/
def rootOf (cs : List Char) : String :=
  match cs.takeWhile (· = '/') with
  | [] => ""
  | ['/', '/'] => "//"
  | _ => "/"

def ofText (s : String) : Path where
  root := rootOf s.toList
  parts := (split "/" s).filter fun part => part ≠ "" && part ≠ "."

/-- The path as text; a single dot when it is empty. -/
def text (p : Path) : String :=
  if p.root = "" && p.parts.isEmpty then "." else p.root ++ join "/" p.parts

def parent (p : Path) : Path := { p with parts := p.parts.dropLast }

/-- A path below another; an absolute one stands alone. -/
def under (base p : Path) : Path :=
  if p.root = "" then { base with parts := base.parts ++ p.parts } else p

/-- The last component. -/
def name (p : Path) : String := p.parts.getLast?.getD ""

/-- A name before and after its last dot; a dot at either end of the name does not count. -/
def splitName (name : String) : String × String :=
  match cutLast? "." name with
  | some (stem, suffix) => if stem = "" ∨ suffix = "" then (name, "") else (stem, suffix)
  | none => (name, "")

/-- The last component without its extension. -/
def stem (p : Path) : String := (splitName p.name).1

def extension (p : Path) : String := (splitName p.name).2

/-- The components with each double dot taken together with the one before it. Those that lead
above the start remain, unless the path has a root. -/
def collapse (absolute : Bool) (parts : List String) : List String :=
  (parts.foldl (fun done part =>
    if part ≠ ".." then part :: done
    else match done with
      | [] => if absolute then [] else [part]
      | ".." :: _ => part :: done
      | _ :: rest => rest) []).reverse

/-- A path with all that can be shortened taken out. -/
def normal (p : Path) : Path := { p with parts := collapse (p.root ≠ "") p.parts }

end Path

/-- The normal form of a path text. -/
def normalPath (s : String) : String := (Path.ofText s).normal.text

end BulletScript.Files
