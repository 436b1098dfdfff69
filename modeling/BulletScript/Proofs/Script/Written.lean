import BulletScript.Proofs.Outline.Forest
import BulletScript.Script.Reader

/-! Scripts as they are written: the texts and the outline of an action, and the action that it
stands for. -/
namespace BulletScript.Script

open Text Outline

/-- What may stand between backticks and is read as it is. -/
structure IsPhrase (s : String) : Prop where
  nonempty : s ≠ ""
  plain : PlainText s
  unquoted : '\x60' ∉ s.toList

instance (s : String) : Decidable (IsPhrase s) :=
  decidable_of_iff (s ≠ "" ∧ trim s = s ∧ s.toList.all (!isLineBoundary ·) = true ∧
      '\x60' ∉ s.toList)
    ⟨fun ⟨hne, htrim, hall, hquote⟩ => ⟨hne, ⟨htrim, by simpa using hall⟩, hquote⟩,
      fun h => ⟨h.nonempty, h.plain.trimmed, by simpa using h.plain.unbroken, h.unquoted⟩⟩

mutual

/-- An action without the numbers of lines in it. -/
def Action.bare : Action → Action
  | .step leaf onError _ => .step leaf (bareActions onError) none
  | .branch condition yes no onError _ =>
    .branch condition (bareActions yes) (bareActions no) (bareActions onError) none
  | .loop items itemName indexName body onError _ =>
    .loop items itemName indexName (bareActions body) (bareActions onError) none

def bareActions : List Action → List Action
  | [] => []
  | action :: rest => action.bare :: bareActions rest

end

def Trigger.bare (trigger : Trigger) : Trigger :=
  { trigger with actions := bareActions trigger.actions }

namespace Written

structure Phrase where
  text : String
  isPhrase : IsPhrase text

/-- A step with its options; one that is not written has its default. -/
inductive Leaf where
  | log (message : Phrase) (level : Option LogLevel)
  | set (name value : Phrase) (pattern source : Option Phrase)
  | match (pattern : Phrase) (source : Option Phrase)
  | extract (pattern : Phrase) (source storeAs : Option Phrase)
  | validate (condition : Phrase) (message : Option Phrase)
  | delay (duration : Phrase)
  | return (value : Option Phrase)

/-- An action with those that it holds and those that handle its failure. -/
inductive Node where
  | leaf (leaf : Leaf) (onError : List Node)
  | branch (condition : Phrase) (yes no onError : List Node)
  | loop (items : Phrase) (itemName indexName : Option Phrase) (body onError : List Node)

section Meaning

def given (p : Option Phrase) : Option Value := p.map fun p => .str p.text

def givenOr (p : Option Phrase) (fallback : String) : Value := (given p).getD (.str fallback)

/-- The step that is written. -/
def Leaf.step : Leaf → Step
  | .log message level => .log message.text (level.getD .info)
  | .set name value pattern source =>
    .set name.text value.text (given pattern) (givenOr source lineTemplate)
  | .match pattern source => .match pattern.text (givenOr source lineTemplate)
  | .extract pattern source storeAs =>
    .extract pattern.text (givenOr source lineTemplate) (givenOr storeAs "matches")
  | .validate condition message => .validate condition.text (given message)
  | .delay duration => .delay duration.text
  | .return value => .return (value.map (·.text))

mutual

/-- The action that is written. -/
def Node.action : Node → Action
  | .leaf leaf onError => .step leaf.step (actions onError) none
  | .branch condition yes no onError =>
    .branch condition.text (actions yes) (actions no) (actions onError) none
  | .loop items itemName indexName body onError =>
    .loop items.text (givenOr itemName "item") (given indexName) (actions body) (actions onError)
      none

def actions : List Node → List Action
  | [] => []
  | node :: rest => node.action :: actions rest

end

end Meaning

section Outlines

/-- A key and its value in backticks. -/
def pair (key value : String) : String := key ++ ": \x60" ++ value ++ "\x60"

def pairs (entries : List (String × String)) : String :=
  " ".intercalate (entries.map fun (key, value) => pair key value)

/-- An option, if it is written. -/
def option (key : String) (p : Option Phrase) : List (String × String) :=
  (p.map fun p => (key, p.text)).toList

def Leaf.keyword : Leaf → Keyword
  | .log .. => .log
  | .set .. => .set
  | .match .. => .match
  | .extract .. => .extract
  | .validate .. => .validate
  | .delay .. => .delay
  | .return .. => .return

def Leaf.main : Leaf → Option Phrase
  | .log p _ | .set p .. | .match p _ | .extract p .. | .validate p _ | .delay p => p
  | .return p => p

def Leaf.options : Leaf → List (String × String)
  | .log _ level => (level.map fun level => ("level", level.text)).toList
  | .set _ value pattern source =>
    ("value", value.text) :: option "pattern" pattern ++ option "in" source
  | .match _ source => option "in" source
  | .extract _ source storeAs => option "from" source ++ option "as" storeAs
  | .validate _ message => option "message" message
  | .delay _ | .return _ => []

/-- The line of an action: its keyword with its value, and its options. -/
def headText (keyword : Keyword) (main : Option Phrase) (options : List (String × String)) :
    String :=
  match main with
  | some main => pairs ((keyword.text, main.text) :: options)
  | none => keyword.text ++ ":"

/-- Items below a key; without any there is no such key. -/
def block (key : String) (items : List Item) : List Item :=
  if items.isEmpty then [] else [{ text := key ++ ":", children := items }]

mutual

/-- The outline of an action: a line for the action, and below it the actions that it holds, with
those of `else` and `onError` below these. -/
def Node.item : Node → Item
  | .leaf leaf onError =>
    { text := headText leaf.keyword leaf.main leaf.options
      children := block "onError" (items onError) }
  | .branch condition yes no onError =>
    { text := headText .if condition []
      children := items yes ++ block "else" (items no) ++ block "onError" (items onError) }
  | .loop target itemName indexName body onError =>
    { text := headText .foreach target (option "as" itemName ++ option "index" indexName)
      children := items body ++ block "onError" (items onError) }

def items : List Node → List Item
  | [] => []
  | node :: rest => node.item :: items rest

end

end Outlines

/-- The actions of one trigger. -/
structure Section where
  kind : TriggerKind
  nodes : List Node
  nonempty : nodes ≠ []

structure Tag where
  text : String
  isTag : tagOf? text = some text

end Written

/-- A script with something to do, its triggers in their order. -/
structure Written where
  tag : Written.Tag
  sections : List Written.Section
  nonempty : sections ≠ []
  ordered : (sections.map (·.kind)).Sublist TriggerKind.all

namespace Written

def Section.item (s : Section) : Item := { text := s.kind.text ++ ":", children := items s.nodes }

def Section.trigger (s : Section) : Trigger := ⟨s.kind, actions s.nodes⟩

def item (script : Written) : Item :=
  { text := script.tag.text, children := script.sections.map (·.item) }

/-- The text of a script. -/
def text (script : Written) (layout : Layout) (depth : Nat) : String :=
  unlines (linesOf layout depth [script.item])

end Written

end BulletScript.Script
