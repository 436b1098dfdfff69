import BulletScript.Documents.Glob
import BulletScript.Tasks.Edit
import BulletScript.Value.Whole

/-! List items found by a tag, in all documents of a store. -/
namespace BulletScript.Tasks

open Text Outline Files Documents

/-- Whether a tag stands in a text that follows a character, not as part of a longer one. -/
def hasTagAfter (tag : List Char) (before : Option Char) : List Char → Bool
  | [] => false
  | c :: rest =>
    let cs := c :: rest
    (!before.any blocksTag && tag.isPrefixOf cs && !((cs.drop tag.length).head?.any isTagChar)) ||
      hasTagAfter tag (some c) rest

/-- What is asked for. -/
structure Query where
  tag : String
  statuses : Option Value
  glob : Option String
  limit : Option Value
  withChildren : Bool

/-- The tag that an identifier names. -/
def tagOfIdentifier (identifier : String) : Result String :=
  let tag := trim identifier
  if tag = "" then .error (.action .emptyIdentifier)
  else .ok (if startsWith "#" tag then tag else "#" ++ tag)

def Query.ofOptions (identifier : String) (options : Record) : Result Query := do
  let tag ← tagOfIdentifier identifier
  let children := options.getD "children" (.bool true)
  let present (key : Key) := (options.get? key).filter (!·.isNull)
  return {
    tag
    statuses := (present "status").map fun v => match v with
      | .str s => .list [.str s]
      | v => v
    glob := ((present "path").filter Value.isSome).map Value.plain
    limit := present "limit"
    withChildren := !(children.same (.bool false) || children.same (.str "false")) }

/-- Whether a status mark is among those asked for. -/
def acceptsStatus (statuses : Option Value) (status : Option Char) : Result Bool :=
  let mark : Value := match status with
    | some c => .str c.toString
    | none => .null
  match statuses with
  | none => .ok true
  | some (.list marks) => .ok (marks.any mark.same)
  | some (.map entries) => .ok (entries.any fun (k, _) => k.toValue.same mark)
  | some v => .error (.internal (.badType
      ("argument of type '" ++ v.typeName ++ "' is not iterable")))

namespace Query

/-- What is reported of the line at an index, if it is asked for. -/
def entry? (q : Query) (path : String) (ls : List String) (index : Nat) :
    Result (Option Value) := do
  let parsed := ListLine.ofText (ls.getD index "")
  if parsed.bullet.isNone || !hasTagAfter q.tag.toList none parsed.content.toList then return none
  if !(← acceptsStatus q.statuses parsed.status) then return none
  let below := (ls.take (blockEnd ls index + 1)).drop (index + 1)
  let children : Record :=
    if q.withChildren then
      [("children", .list ((below.filter (!isBlankText ·)).map fun line =>
        .str (ListLine.ofText line).content))]
    else []
  let status : Value := match parsed.status with
    | some c => .str c.toString
    | none => .null
  let own : Record := [("text", .str parsed.content), ("path", .str path), ("line", .int index),
    ("status", status), ("tags", .list ((findTags parsed.content).map .str))]
  return some (.map (own ++ children))

/-- Whether the entries found are as many as were asked for. -/
def isFull (q : Query) (found : List Value) : Result Bool :=
  match q.limit with
  | none => .ok false
  | some v => do return (← v.whole) ≤ found.length

/-- The entries of the lines at some indices, added to those found before, and whether they are
enough. -/
def collectLines (q : Query) (path : String) (ls : List String) (found : List Value) :
    List Nat → Result (List Value × Bool)
  | [] => .ok (found, false)
  | index :: rest => do
    match ← q.entry? path ls index with
    | none => q.collectLines path ls found rest
    | some entry =>
      let found := found ++ [entry]
      if ← q.isFull found then return (found, true)
      q.collectLines path ls found rest

def collectDocuments (q : Query) (store : Store) (tree : Tree) (found : List Value) :
    List String → Result (List Value)
  | [] => .ok found
  | path :: rest => do
    if q.glob.all (globMatches · path) then
      let ls := lines (← store.read tree path)
      let (found, full) ← q.collectLines path ls found (List.range ls.length)
      if full then return found
      q.collectDocuments store tree found rest
    else q.collectDocuments store tree found rest

/-- The entries of all documents in order, up to the limit. -/
def run (q : Query) (store : Store) (tree : Tree) : Result (List Value) :=
  q.collectDocuments store tree [] (store.documents tree)

end Query

end BulletScript.Tasks
