import BulletScript.Bytes.Utf8
import BulletScript.Failure
import BulletScript.Files.Path
import BulletScript.Text.Lines

/-! A tree of files, addressed by the components below its root. -/
namespace BulletScript.Files

/-- The components of a path below the root of a tree. -/
abbrev Place := List String

/-- What a file holds. Bytes that write a text are always kept as that text. -/
inductive Content where
  | text (s : String)
  | bytes (data : List UInt8) (fault : String)
  deriving Repr, DecidableEq

namespace Content

def ofBytes (data : List UInt8) : Content :=
  match Bytes.toText data with
  | .ok s => .text s
  | .error fault => .bytes data fault

def toBytes : Content → List UInt8
  | .text s => Bytes.ofText s
  | .bytes data _ => data

/-- The text of a file with plain newlines. -/
def toText : Content → Result String
  | .text s => .ok (Text.plainNewlines s)
  | .bytes _ fault => .error (.internal (.undecodable fault))

end Content

structure Tree where
  root : String
  files : List (Place × Content) := []
  folders : List Place := []

namespace Tree

def file? (t : Tree) (place : Place) : Option Content := t.files.lookup place

def isFile (t : Tree) (place : Place) : Bool := (t.file? place).isSome

def isFolder (t : Tree) (place : Place) : Bool := place.isEmpty || t.folders.contains place

def exists? (t : Tree) (place : Place) : Bool := t.isFile place || t.isFolder place

/-- The whole path of a place. -/
def pathOf (t : Tree) (place : Place) : String := ((Path.ofText t.root).under ⟨"", place⟩).text

/-- The proper beginnings of a place, the shortest first. -/
def above (place : Place) : List Place := (List.range place.length).map place.take

/-- Whether a file stands where a place needs a folder. -/
def isBlocked (t : Tree) (place : Place) : Bool := (above place).any t.isFile

/-- The content of a file; `shown` is how its path is written in a fault. -/
def read (t : Tree) (place : Place) (shown : String) : Except FileFault Content :=
  match t.file? place with
  | some content => .ok content
  | none =>
    if t.isFolder place then .error (.isDirectory shown)
    else if t.isBlocked place then .error (.notDirectory shown)
    else .error (.notFound shown)

/-- Adds the folder of a place and those above it. -/
def addFolder (t : Tree) (place : Place) : Tree :=
  { t with folders := (above place ++ [place]).foldl (fun folders p =>
      if p.isEmpty || folders.contains p then folders else folders ++ [p]) t.folders }

/-- Puts a content at a place, whatever was there. -/
def put (t : Tree) (place : Place) (content : Content) : Tree :=
  let t := t.addFolder place.dropLast
  { t with files :=
      if t.isFile place then t.files.map fun (p, old) => (p, if p = place then content else old)
      else t.files ++ [(place, content)] }

def remove (t : Tree) (place : Place) : Tree :=
  { t with files := t.files.filter fun (p, _) => p ≠ place }

/-- Writes a file and makes the folders it needs. -/
def write (t : Tree) (place : Place) (content : Content) : Except FileFault Tree :=
  let folder := place.dropLast
  if t.isBlocked folder then .error (.notDirectory (t.pathOf folder))
  else if t.isFile folder then .error (.exists (t.pathOf folder))
  else if t.isFolder place then .error (.isDirectory (t.pathOf place))
  else .ok (t.put place content)

/-- The order of places: by their components from the first on. -/
def placeLe (a b : Place) : Bool := !decide (b < a)

/-- The places of all files in order. -/
def places (t : Tree) : List Place := (t.files.map (·.1)).mergeSort placeLe

/-- The place that a path leads to from another, if it stays in the tree. -/
def place? (t : Tree) (base : Place) (path : String) : Option Place :=
  let top := (Path.ofText t.root).normal
  let p := ((top.under ⟨"", base⟩).under (Path.ofText path)).normal
  if p.root = top.root && top.parts.isPrefixOf p.parts then some (p.parts.drop top.parts.length)
  else none

/-- A tree of files by their paths below its root. -/
def ofFiles (root : String) (files : List (String × Content)) : Tree :=
  files.foldl (fun t (path, content) => t.put (Path.ofText path).parts content) { root }

/-- The files that differ from those of an older tree, in the order of their paths, and what they
hold now, if they are still there. -/
def changes (old new : Tree) : List (String × Option Content) :=
  let changed := new.files.filter fun (place, content) => old.file? place ≠ some content
  let gone := old.files.filter fun (place, _) => !new.isFile place
  let all := changed.map (fun (place, content) => (Text.join "/" place, some content)) ++
    gone.map fun (place, _) => (Text.join "/" place, none)
  all.mergeSort fun a b => !decide (b.1 < a.1)

end Tree

end BulletScript.Files
