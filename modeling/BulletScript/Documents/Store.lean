import BulletScript.Documents.Reference
import BulletScript.Documents.Similarity
import BulletScript.Files.Tree
import BulletScript.Web.Url

/-! The documents below one folder of a tree of files. -/
namespace BulletScript.Documents

open Text Files

/-- The folder that holds the documents. -/
structure Store where
  base : Place := []
  deriving Repr, DecidableEq

/-- A whole path as it is written below another. -/
def relativeTo (base path : Path) : Result String :=
  let base := base.normal
  let p := path.normal
  if p.root = base.root && base.parts.isPrefixOf p.parts then
    .ok (Files.Path.mk "" (p.parts.drop base.parts.length)).text
  else
    .error (.internal (.badValue (shown p.text ++ " is not in the subpath of " ++ shown base.text ++
      " OR one path is relative and the other is absolute.")))

namespace Store

/-- The place of a path, which must not leave the folder. -/
def place (store : Store) (tree : Tree) (path : String) : Result Place :=
  match tree.place? store.base path with
  | some place =>
    if store.base.isPrefixOf place then .ok place
    else .error (.action (.outsideRoot path))
  | none => .error (.action (.outsideRoot path))

/-- The content at a path; `missing` is the fault when nothing is there. -/
def content (store : Store) (tree : Tree) (path : String) (missing : ActionFault) :
    Result Content := do
  let place ← store.place tree path
  match tree.read place (tree.pathOf place) with
  | .ok content => .ok content
  | .error (.notFound _) => .error (.action missing)
  | .error fault => .error (.internal (.file fault))

def read (store : Store) (tree : Tree) (path : String) : Result String := do
  (← store.content tree path (.documentNotFound path)).toText

def readBytes (store : Store) (tree : Tree) (path : String) : Result (List UInt8) := do
  return (← store.content tree path (.fileNotFound path)).toBytes

def write (store : Store) (tree : Tree) (path text : String) : Result Tree := do
  let place ← store.place tree path
  match tree.write place (.text text) with
  | .ok tree => .ok tree
  | .error fault => .error (.internal (.file fault))

/-- The paths of all files that are not hidden, in order. -/
def files (store : Store) (tree : Tree) : List String :=
  (tree.places.filter fun place => store.base.isPrefixOf place && place ≠ store.base).filterMap
    fun place =>
      let parts := place.drop store.base.length
      if parts.any (startsWith ".") then none else some (join "/" parts)

def documents (store : Store) (tree : Tree) : List String :=
  (store.files tree).filter (endsWith suffix)

/-- The last component of a path text. -/
def lastPart (path : String) : String := ((cutLast? "/" path).map (·.2)).getD path

/-- Where a target may be: beside the document that names it, or below the folder, with and without
the suffix of documents. -/
def candidates (target : String) (source : Option String) : List String :=
  let withSuffix := target ++ suffix
  let beside := match source with
    | some source =>
      let folder := (Path.ofText source).parent
      [(folder.under (.ofText target)).text, (folder.under (.ofText withSuffix)).text]
    | none => []
  (beside ++ [target, withSuffix]).map normalPath

/-- Files by their names in lower case, documents also by their names without suffix; the first
file of a name keeps it. -/
def byName (files : List String) : List (String × String) :=
  files.foldl (fun known path =>
    let name := lastPart path
    let names := if endsWith suffix path then [name, dropEnd suffix.length name] else [name]
    names.foldl (fun known name =>
      let name := lower name
      if known.any (·.1 = name) then known else known ++ [(name, path)]) known) []

/-- The score from which a name counts as meant. -/
def similarityCutoff : Float := 85

/-- The document that a reference names: by its path, else by its name, else by a similar name. -/
def resolve (store : Store) (tree : Tree) (reference : String) (source : Option String) :
    Result (Option DocumentRef) := do
  let target := linkTarget reference
  if target = "" then return none
  if ← Web.isWebUrl target then return none
  let files := store.files tree
  let source := source.filter (· ≠ "")
  match (candidates target source).find? files.contains with
  | some path => return some (.ofPath path)
  | none =>
    let wanted := lower (lastPart target)
    let names := byName files
    let name := (names.lookup wanted).map fun _ => wanted
    let best := name.or (mostSimilar wanted (names.map (·.1)) similarityCutoff)
    return (best.bind fun name => names.lookup name).map DocumentRef.ofPath

end Store

end BulletScript.Documents
