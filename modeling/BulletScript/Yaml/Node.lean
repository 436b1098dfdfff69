import BulletScript.Yaml.Kind
import BulletScript.Yaml.Layout

/-! The node that a YAML text writes, with every reference replaced by what it stands for. -/
namespace BulletScript.Yaml

inductive Node where
  | scalar (tag : String) (text : String) (start : Mark)
  | sequence (tag : String) (items : List Node) (start : Mark)
  | mapping (tag : String) (entries : List (Node × Node)) (start : Mark)

namespace Node

def tag : Node → String
  | .scalar tag .. | .sequence tag .. | .mapping tag .. => tag

def start : Node → Mark
  | .scalar _ _ start | .sequence _ _ start | .mapping _ _ start => start

/-- The name of the shape of a node in messages. -/
def shape : Node → String
  | .scalar .. => "scalar"
  | .sequence .. => "sequence"
  | .mapping .. => "mapping"

end Node

/-- The state of reading nodes: the tokens left, the fault behind them, the nodes under their
anchors (none while a node is open), and the abbreviations of tags. -/
structure Parse where
  tokens : List Token
  fault : Option Fault
  anchors : List (String × Mark × Option Node) := []
  handles : List (String × String) := []

abbrev ParseM (α : Type) := StateT Parse (Except Fault) α

namespace ParseM

/-- The next token; the fault of the text is met only here. -/
def peek : ParseM Token := do
  let s ← get
  match s.tokens, s.fault with
  | t :: _, _ => return t
  | [], some fault => throw fault
  | [], none => return ⟨.streamEnd, {}, {}⟩

def take : ParseM Token := do
  let t ← peek
  modify fun s => { s with tokens := s.tokens.drop 1 }
  return t

def fail {α : Type} (level : YamlLevel) (context : Option String) (since : Option Mark)
    (text : String) (mark : Mark) : ParseM α :=
  throw (.problem ⟨level, context, since, text, mark⟩)

/-- Takes the next token if it is the one asked for. -/
def taken (kind : TokenKind) : ParseM Bool := do
  if (← peek).kind = kind then
    let _ ← take
    return true
  else return false

/-- Whether the next token is one of these. -/
def nextIn (kinds : List TokenKind) : ParseM Bool := do return kinds.contains (← peek).kind

/-- A node that nothing is written for. -/
def empty (mark : Mark) : Node := .scalar (baseTag "null") "" mark

/-- What stands in front of a node: its anchor and tag, and where the first of them begins. -/
structure Properties where
  anchor : Option String := none
  tag : Option String := none
  start : Option Mark := none
  stop : Mark

def fullTag (since : Mark) (t : Token) (handle : Option String) (suffix : String) :
    ParseM String := do
  match handle with
  | none => return suffix
  | some handle =>
    match (← get).handles.lookup handle with
    | some start => return start ++ suffix
    | none =>
      fail .nodes (some "while parsing a node") (some since)
        ("found undefined tag handle " ++ Text.shown handle) t.start

def properties : ParseM Properties := do
  let first ← peek
  match first.kind with
  | .anchor name =>
    let _ ← take
    let second ← peek
    match second.kind with
    | .tag handle suffix =>
      let _ ← take
      return ⟨some name, some (← fullTag first.start second handle suffix), some first.start,
        second.stop⟩
    | _ => return ⟨some name, none, some first.start, first.stop⟩
  | .tag handle suffix =>
    let _ ← take
    let second ← peek
    match second.kind with
    | .anchor name =>
      let _ ← take
      return ⟨some name, some (← fullTag first.start first handle suffix), some first.start,
        second.stop⟩
    | _ => return ⟨none, some (← fullTag first.start first handle suffix), some first.start,
        first.stop⟩
  | _ => return ⟨none, none, none, first.start⟩

/-- Opens an anchor, which stands for nothing before its node is complete. -/
def openAnchor (anchor : Option String) (start : Mark) : ParseM Unit := do
  match anchor with
  | none => return
  | some name =>
    match (← get).anchors.lookup name with
    | some (first, _) =>
      fail .anchors (some ("found duplicate anchor " ++ Text.shown name ++ "; first occurrence"))
        (some first) "second occurrence" start
    | none => modify fun s => { s with anchors := (name, start, none) :: s.anchors }

def closeAnchor (anchor : Option String) (node : Node) : ParseM Node := do
  match anchor with
  | none => return node
  | some name =>
    modify fun s => { s with anchors := (name, node.start, some node) :: s.anchors }
    return node

def tagOr (tag : Option String) (kind : String) : String :=
  match tag with
  | none | some "!" => baseTag kind
  | some tag => tag

/-- The kind of a scalar: a plain one is known by its text, and so is one with the tag that says
nothing. -/
def scalarTag (tag : Option String) (text : String) (plain : Bool) : String :=
  match tag with
  | none => baseTag (if plain then plainKind text else "str")
  | some "!" => baseTag (plainKind text)
  | some tag => tag

mutual

/-- A node. In a block it may be a block; after a key also a sequence with no indentation. -/
def node (block dashes : Bool) (fuel : Nat) : ParseM Node :=
  match fuel with
  | 0 => return empty {}
  | fuel + 1 => do
    let first ← peek
    match first.kind with
    | .reference name =>
      let _ ← take
      match (← get).anchors.lookup name with
      | none => fail .anchors none none ("found undefined alias " ++ Text.shown name) first.start
      | some (_, none) =>
        fail .values none none "found unconstructable recursive node" first.start
      | some (_, some node) => return node
    | _ =>
      let ⟨anchor, tag, since, stop⟩ ← properties
      let next ← peek
      let start := since.getD next.start
      match next.kind with
      | .blockEntry =>
        if dashes then
          openAnchor anchor start
          let items ← dashItems fuel
          closeAnchor anchor (.sequence (tagOr tag "seq") items start)
        else nothing block anchor tag since stop next
      | .scalar text plain =>
        let _ ← take
        openAnchor anchor start
        closeAnchor anchor (.scalar (scalarTag tag text plain) text start)
      | .openSequence =>
        openAnchor anchor start
        let _ ← take
        let items ← flowItems next.start true fuel
        closeAnchor anchor (.sequence (tagOr tag "seq") items start)
      | .openMapping =>
        openAnchor anchor start
        let _ ← take
        let entries ← flowEntries next.start true fuel
        closeAnchor anchor (.mapping (tagOr tag "map") entries start)
      | .blockSequence =>
        if block then
          openAnchor anchor start
          let _ ← take
          let items ← blockItems next.start fuel
          closeAnchor anchor (.sequence (tagOr tag "seq") items start)
        else nothing block anchor tag since stop next
      | .blockMapping =>
        if block then
          openAnchor anchor start
          let _ ← take
          let entries ← blockEntries next.start fuel
          closeAnchor anchor (.mapping (tagOr tag "map") entries start)
        else nothing block anchor tag since stop next
      | _ => nothing block anchor tag since stop next

/-- A node of which only the anchor or the tag is written; without either there is none. -/
def nothing (block : Bool) (anchor tag : Option String) (since : Option Mark) (stop : Mark)
    (next : Token) : ParseM Node := do
  match since with
  | some start =>
    openAnchor anchor start
    closeAnchor anchor (.scalar (match tag with
      | none => baseTag "null"
      | some "!" => baseTag "null"
      | some tag => tag) "" start)
  | none =>
    let _ := stop
    fail .nodes (some ("while parsing a " ++ (if block then "block" else "flow") ++ " node"))
      (some next.start) ("expected the node content, but found " ++ Text.shown next.kind.text)
      next.start

/-- The items of a block sequence, up to its end. -/
def blockItems (since : Mark) (fuel : Nat) : ParseM (List Node) :=
  match fuel with
  | 0 => return []
  | fuel + 1 => do
    let t ← peek
    match t.kind with
    | .blockEntry =>
      let _ ← take
      let item ← if ← nextIn [.blockEntry, .blockEnd] then pure (empty t.stop)
        else node true false fuel
      return item :: (← blockItems since fuel)
    | .blockEnd =>
      let _ ← take
      return []
    | kind =>
      fail .nodes (some "while parsing a block collection") (some since)
        ("expected <block end>, but found " ++ Text.shown kind.text) t.start

/-- The items of a sequence that stands as far out as its key. -/
def dashItems (fuel : Nat) : ParseM (List Node) :=
  match fuel with
  | 0 => return []
  | fuel + 1 => do
    let t ← peek
    if ← taken .blockEntry then
      let item ← if ← nextIn [.blockEntry, .key, .value, .blockEnd] then pure (empty t.stop)
        else node true false fuel
      return item :: (← dashItems fuel)
    else return []

/-- The entries of a block mapping, up to its end. -/
def blockEntries (since : Mark) (fuel : Nat) : ParseM (List (Node × Node)) :=
  match fuel with
  | 0 => return []
  | fuel + 1 => do
    let t ← peek
    match t.kind with
    | .key =>
      let _ ← take
      let key ← if ← nextIn [.key, .value, .blockEnd] then pure (empty t.stop)
        else node true true fuel
      let colon ← peek
      let value ←
        if ← taken .value then
          if ← nextIn [.key, .value, .blockEnd] then pure (empty colon.stop)
          else node true true fuel
        else pure (empty colon.start)
      return (key, value) :: (← blockEntries since fuel)
    | .blockEnd =>
      let _ ← take
      return []
    | kind =>
      fail .nodes (some "while parsing a block mapping") (some since)
        ("expected <block end>, but found " ++ Text.shown kind.text) t.start

/-- The value after a key in a flow collection, which may be left out. -/
def flowValue (ends : List TokenKind) (fuel : Nat) : ParseM Node :=
  match fuel with
  | 0 => return empty {}
  | fuel + 1 => do
    let colon ← peek
    if ← taken .value then
      if ← nextIn ends then return empty colon.stop
      else node false false fuel
    else return empty colon.start

/-- The items of a flow sequence, up to its bracket; a pair alone is a mapping. -/
def flowItems (since : Mark) (first : Bool) (fuel : Nat) : ParseM (List Node) :=
  match fuel with
  | 0 => return []
  | fuel + 1 => do
    if ← taken .closeSequence then return []
    if !first then
      let t ← peek
      if !(← taken .flowEntry) then
        fail .nodes (some "while parsing a flow sequence") (some since)
          ("expected ',' or ']', but got " ++ Text.shown t.kind.text) t.start
    let t ← peek
    if ← taken .closeSequence then return []
    if ← taken .key then
      let key ← if ← nextIn [.value, .flowEntry, .closeSequence] then pure (empty t.stop)
        else node false false fuel
      let value ← flowValue [.flowEntry, .closeSequence] fuel
      let item : Node := .mapping (baseTag "map") [(key, value)] t.start
      return item :: (← flowItems since false fuel)
    else
      let item ← node false false fuel
      return item :: (← flowItems since false fuel)

/-- The entries of a flow mapping, up to its brace; a node alone is a key. -/
def flowEntries (since : Mark) (first : Bool) (fuel : Nat) : ParseM (List (Node × Node)) :=
  match fuel with
  | 0 => return []
  | fuel + 1 => do
    if ← taken .closeMapping then return []
    if !first then
      let t ← peek
      if !(← taken .flowEntry) then
        fail .nodes (some "while parsing a flow mapping") (some since)
          ("expected ',' or '\x7d', but got " ++ Text.shown t.kind.text) t.start
    let t ← peek
    if ← taken .closeMapping then return []
    if ← taken .key then
      let key ← if ← nextIn [.value, .flowEntry, .closeMapping] then pure (empty t.stop)
        else node false false fuel
      let value ← flowValue [.flowEntry, .closeMapping] fuel
      return (key, value) :: (← flowEntries since false fuel)
    else
      let key ← node false false fuel
      let value := empty (← peek).start
      return (key, value) :: (← flowEntries since false fuel)

end

/-- The abbreviations of tags that a document begins with. -/
def directives (fuel : Nat) (versioned : Bool) (handles : List (String × String)) :
    ParseM Unit :=
  match fuel with
  | 0 => return
  | fuel + 1 => do
    let t ← peek
    let wrong (text : String) : ParseM Unit := fail .nodes none none text t.start
    match t.kind with
    | .directive d =>
      let _ ← take
      match d with
      | .version major =>
        if versioned then wrong "found duplicate YAML directive"
        else if major ≠ 1 then
          wrong "found incompatible YAML document (version 1.* is required)"
        else directives fuel true handles
      | .tagHandle handle start =>
        if (handles.lookup handle).isSome then
          wrong ("duplicate tag handle " ++ Text.shown handle)
        else directives fuel versioned (handles ++ [(handle, start)])
      | .other => directives fuel versioned handles
    | _ => modify fun s => { s with handles := handles ++ [("!", "!"), ("!!", baseTag "")] }

/-- The start of a document that is marked as one: where it is, or nothing at the end of the
text. -/
def documentStart (fuel : Nat) : ParseM (Option Mark) :=
  match fuel with
  | 0 => return none
  | fuel + 1 => do
    if ← taken .documentEnd then documentStart fuel
    else
      let t ← peek
      if t.kind = .streamEnd then return none
      directives (fuel + 1) false []
      let marker ← peek
      if ← taken .documentStart then return some t.start
      else
        fail .nodes none none
          ("expected '<document start>', but found " ++ Text.shown marker.kind.text) marker.start

/-- The one document of a text. An empty text has none. -/
def document (fuel : Nat) : ParseM (Option Node) := do
  let first ← peek
  let root ← match first.kind with
    | .streamEnd => pure none
    | .directive _ | .documentStart =>
      let _ ← documentStart fuel
      let t ← peek
      match t.kind with
      | .directive _ | .documentStart | .documentEnd | .streamEnd => pure (some (empty t.start))
      | _ => pure (some (← node true false fuel))
    | _ =>
      modify fun s => { s with handles := [("!", "!"), ("!!", baseTag "")] }
      pure (some (← node true false fuel))
  match root with
  | none => return none
  | some root =>
    let _ ← taken .documentEnd
    match ← documentStart fuel with
    | none => return some root
    | some second =>
      fail .anchors (some "expected a single document in the stream") (some root.start)
        "but found another document" second

end ParseM

def Node.ofTokens? (ts : Tokens) : Read (Option Node) := do
  let fuel := 4 * ts.tokens.length + 8
  return (← (ParseM.document fuel).run ⟨ts.tokens, ts.fault, [], []⟩).1

end BulletScript.Yaml
