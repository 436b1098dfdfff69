import BulletScript.Script.Steps

/-! Scripts read from outlines and from data. What cannot be used is left out with a warning. -/
namespace BulletScript.Script

open Text

/-- A reading that collects warnings. -/
abbrev Reading (α : Type) := StateM (List String) α

def warn (warning : String) : Reading Unit := modify (· ++ [warning])

/-- The line of an item, as warnings count it. -/
def lineNote : Option Nat → String
  | some line => " (line " ++ toString (line + 1) ++ ")"
  | none => ""

/-- The keyword of an action, its main value and the options on its line, or why it is no
action. -/
def headOf (text : String) (line : Option Nat) : Except String (Keyword × String × Record) :=
  let text := trim text
  match keyValue? text with
  | none => .error ("Ignoring line without an action: " ++ text)
  | some (key, value) =>
    match Keyword.ofText? key with
    | none => .error ("Unknown action type: " ++ key ++ lineNote line)
    | some keyword =>
      let pairs := inlineRecord (some inlineKeys) text
      let main := match pairs.get? key with
        | some (.str s) => s
        | _ => value
      let options := (pairs.erase key).map fun (k, v) => (k, .str (Template.clean v.plain))
      .ok (keyword, Template.clean main, options)

/-- The warning about an action that is left out. -/
def dropNote (keyword : Keyword) (line : Option Nat) (reason : String) : String :=
  "Dropping '" ++ keyword.text ++ "' action" ++ lineNote line ++ ": " ++ reason

/-- Whether an item has this key. -/
def hasKey (key : String) (item : Outline.Item) : Bool :=
  (keyValue? item.text).any (·.1 = key)

/-- An item in a loop that names its variables and is no action. -/
def namesVariable (item : Outline.Item) : Bool :=
  (hasKey "as" item || hasKey "index" item) && item.children.isEmpty

mutual

/-- Reads one action; a fault in it is a warning. -/
def readAction : Outline.Item → Reading (Option Action)
  | ⟨text, children, line⟩ =>
    match headOf text line with
    | .error warning => do warn warning; return none
    | .ok (keyword, value, pairs) => do
      let onError ← readHandler [] children
      let regular := children.filter (!hasKey "onError" ·)
      let head : Head := ⟨keyword, value, (blockRecord [] regular).update pairs, regular⟩
      match keyword with
      | .if => do
        let (yes, no) ← readBranches false children
        return some (.branch value yes no onError line)
      | .foreach =>
        match head.required "an items variable" with
        | .error fault => do
          warn (dropNote keyword line fault.message)
          return none
        | .ok items => do
          let body ← readBody children
          let itemName := head.givenOr "as" "item"
          return some (.loop items itemName (head.given? "index") body onError line)
      | _ =>
        match stepOf head with
        | .error fault => do
          warn (dropNote keyword line fault.message)
          return none
        | .ok leaf => return some (.step leaf onError line)

/-- Reads a sequence of actions. -/
def readActions : List Outline.Item → Reading (List Action)
  | [] => return []
  | item :: rest => do
    let action ← readAction item
    let actions ← readActions rest
    return action.toList ++ actions

/-- The sequence of the last error handler among the children of an action. -/
def readHandler (handler : List Action) : List Outline.Item → Reading (List Action)
  | [] => return handler
  | ⟨text, children, line⟩ :: rest => do
    if hasKey "onError" ⟨text, children, line⟩ then
      let handler ← readActions children
      readHandler handler rest
    else
      readHandler handler rest

/-- The actions of a branch: those before the first `else` and the others. -/
def readBranches (inElse : Bool) : List Outline.Item → Reading (List Action × List Action)
  | [] => return ([], [])
  | ⟨text, children, line⟩ :: rest => do
    if hasKey "onError" ⟨text, children, line⟩ then
      readBranches inElse rest
    else if hasKey "else" ⟨text, children, line⟩ then
      let actions ← readActions children
      let (yes, no) ← readBranches true rest
      return (yes, actions ++ no)
    else
      let action ← readAction ⟨text, children, line⟩
      let (yes, no) ← readBranches inElse rest
      return if inElse then (yes, action.toList ++ no) else (action.toList ++ yes, no)

/-- The actions of a loop. -/
def readBody : List Outline.Item → Reading (List Action)
  | [] => return []
  | ⟨text, children, line⟩ :: rest => do
    if hasKey "onError" ⟨text, children, line⟩ || namesVariable ⟨text, children, line⟩ then
      readBody rest
    else
      let action ← readAction ⟨text, children, line⟩
      let actions ← readBody rest
      return action.toList ++ actions

end

/-- What stands under the name of a trigger: items of an outline, or data. -/
inductive Section where
  | outline (items : List Outline.Item)
  | data (v : Value)

namespace Section

/-- Whether anything was written there. -/
def isSome : Section → Bool
  | .outline _ => true
  | .data v => v.isSome

/-- The items to read as actions, if it is of a kind that can hold actions. -/
def items? : Section → Option (List Outline.Item)
  | .outline items => some items
  | .data (.list vs) => some (Outline.ofValue (.list vs))
  | .data (.map entries) => some (Outline.ofValue (.map entries))
  | .data (.str s) => some (Outline.ofValue (.str s))
  | .data _ => none

end Section

/-- The configuration of a tag before its triggers are read. -/
structure Draft where
  sections : List (TriggerKind × Section) := []
  settings : Record := []

namespace Draft

def ofRecord (raw : Record) : Draft where
  sections := TriggerKind.all.filterMap fun kind =>
    (raw.get? kind.text).map fun v => (kind, .data v)
  settings := raw.filter fun (k, _) => TriggerKind.all.all fun kind => !k.same kind.text

/-- The section of a trigger, unless it is empty. -/
def section? (draft : Draft) (kind : TriggerKind) : Option Section :=
  (draft.sections.lookup kind).filter Section.isSome

def hasTriggers (draft : Draft) : Bool :=
  TriggerKind.all.any fun kind => (draft.section? kind).isSome

def setSection (draft : Draft) (kind : TriggerKind) (content : Section) : Draft :=
  { draft with sections := (kind, content) :: draft.sections }

def setSetting (draft : Draft) (key : String) (v : Value) : Draft :=
  { draft with settings := draft.settings.set key v }

end Draft

/-- A script and what was wrong with its text. -/
structure Parsed where
  config : Config
  warnings : List String

/-- Reads the section of one trigger. -/
def readTrigger (kind : TriggerKind) (content : Section) : Reading (Option Trigger) :=
  match content.items? with
  | none => do
    warn ("Invalid trigger config for " ++ kind.text ++ ": expected a list of actions")
    return none
  | some items => do
    let actions ← readActions items
    if actions.isEmpty then warn ("No actions found for trigger: " ++ kind.text)
    return some ⟨kind, actions⟩

/-- Reads the triggers of a configuration, in their own order; there must be one. -/
def parseDraft (draft : Draft) (tag : String) : Checked Parsed :=
  let reading : Reading (List (Option Trigger)) :=
    TriggerKind.all.mapM fun kind =>
      match draft.section? kind with
      | some content => readTrigger kind content
      | none => return none
  let (triggers, warnings) := reading.run []
  let triggers := triggers.filterMap id
  if triggers.isEmpty then .error (.noTriggers tag)
  else .ok ⟨⟨triggers, tag, draft.settings⟩, warnings⟩

/-- The warnings of a script as they are logged. -/
def Parsed.log (parsed : Parsed) : List String :=
  parsed.warnings.map fun warning => parsed.config.tag ++ ": " ++ warning

def parseRecord (raw : Record) (tag : String) : Checked Parsed := parseDraft (.ofRecord raw) tag

def settingValue (text : String) : Value := parseLiteral (Template.clean text)

mutual

def nestedSetting (value : String) : Outline.Item → Value
  | ⟨_, children, _⟩ =>
    if children.isEmpty then settingValue value else .map (nestedSettings [] children)

/-- A block of settings, added to a record. -/
def nestedSettings (record : Record) : List Outline.Item → Record
  | [] => record
  | item :: rest =>
    match keyValue? item.text with
    | some (key, value) => nestedSettings (record.set (.str key) (nestedSetting value item)) rest
    | none => nestedSettings record rest

end

mutual

/-- Adds what the items below a tag say: triggers, settings, and blocks named `config` with more
of both. -/
def collectDraft (draft : Draft) : List Outline.Item → Draft
  | [] => draft
  | item :: rest => collectDraft (collectItem draft item) rest

def collectItem (draft : Draft) : Outline.Item → Draft
  | ⟨text, children, _⟩ =>
    match keyValue? text with
    | none => draft
    | some (key, value) =>
      match TriggerKind.ofText? key with
      | some kind => draft.setSection kind (.outline children)
      | none =>
        if key = "config" then collectDraft draft children
        else if children.isEmpty then draft.setSetting key (settingValue value)
        else draft.setSetting key (.map (nestedSettings [] children))

end

/-- The tag that a top-level item names. -/
def tagOf? (text : String) : Option String :=
  match trimChars text.toList with
  | '#' :: name =>
    if name ≠ [] && name.all (fun c => isWord c || c = '/' || c = '-') then
      some (.ofList ('#' :: name))
    else none
  | _ => none

/-- The scripts of a document and the warnings that were logged while it was read. -/
structure Library where
  scripts : List (String × Parsed) := []
  log : List String := []

namespace Library

/-- Adds the script of an item; a tag without triggers is skipped, and a tag defined again is
replaced where it stands. -/
def add (library : Library) (item : Outline.Item) : Library :=
  match tagOf? item.text with
  | none => library
  | some tag =>
    let draft := collectDraft {} item.children
    let skip (reason : String) : Library :=
      { library with log := library.log ++ ["Skipping " ++ tag ++ ": " ++ reason] }
    if !draft.hasTriggers then skip "no triggers configured"
    else match parseDraft draft tag with
      | .error fault => skip fault.message
      | .ok parsed =>
        let scripts := if library.scripts.any (·.1 = tag) then
            library.scripts.map fun (t, old) => (t, if t = tag then parsed else old)
          else library.scripts ++ [(tag, parsed)]
        { scripts, log := library.log ++ parsed.log }

def get? (library : Library) (tag : String) : Option Parsed := library.scripts.lookup tag

/-- Reads the scripts that a document defines in its top-level items. -/
def ofText (s : String) : Library := (Outline.ofText s).foldl add {}

end Library

end BulletScript.Script
