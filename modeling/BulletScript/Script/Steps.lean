import BulletScript.Number.Reader
import BulletScript.Script.Action
import BulletScript.Script.Options

/-! From an authored action to a step: its main value and its options, read and checked. -/
namespace BulletScript.Script

open Text

/-- An action before its options are read. -/
structure Head where
  keyword : Keyword
  value : String
  options : Record
  children : List Outline.Item

abbrev Checked (α : Type) := Except ParseFault α

def readBool (option : String) (v : Value) : Checked Bool :=
  let word := lower (trim v.plain)
  if word = "true" ∨ word = "yes" ∨ word = "1" then .ok true
  else if word = "false" ∨ word = "no" ∨ word = "0" then .ok false
  else .error (.notBool option)

def readInt (option : String) (v : Value) : Checked Int :=
  match Number.readInt? (trim v.plain) with
  | some n => .ok n
  | none => .error (.notInt option)

def readChoice {α : Type} (option : String) (choices : List α) (text : α → String) (v : Value) :
    Checked α :=
  match choices.find? (text · = trim v.plain) with
  | some choice => .ok choice
  | none => .error (.notOneOf option (choices.map text))

namespace Head

/-- An option that is present and not empty. -/
def given? (head : Head) (key : String) : Option Value :=
  (head.options.get? key).filter Value.isSome

def givenOr (head : Head) (key fallback : String) : Value := (head.given? key).getD (.str fallback)

/-- A whole number, unless the option is absent or left empty. -/
def int? (head : Head) (key : String) : Checked (Option Int) :=
  match head.options.get? key with
  | none | some .null | some (.str "") => .ok none
  | some v => some <$> readInt key v

def flag (head : Head) (key : String) : Checked Bool :=
  match head.options.get? key with
  | some v => readBool key v
  | none => .ok false

/-- The main value, which must not be empty. -/
def required (head : Head) (what : String) : Checked String :=
  if head.value = "" then .error (.lacks head.keyword.text what) else .ok head.value

end Head

def readStep (head : Head) : Checked Step := do
  let source ← match head.options.get? "source" with
    | some v => readChoice "source" ReadSource.all ReadSource.text v
    | none => pure .line
  let strip ← match head.options.get? "strip" with
    | some v => readBool "strip" v
    | none => pure true
  let stripFrontmatter ← head.flag "stripFrontmatter"
  let includeFrontmatter ← head.flag "includeFrontmatter"
  let format ← match head.options.get? "format" with
    | some v => readChoice "format" ImageFormat.all ImageFormat.text v
    | none => pure .dataUri
  return .read {
    pattern := head.value
    source, strip, stripFrontmatter, includeFrontmatter, format
    reference := head.options.get? "from"
    storeAs := head.given? "as"
    fileAs := head.givenOr "asFile" "fromFile"
    frontmatterAs := head.givenOr "frontmatterAs" "frontmatter"
    childrenAs := head.givenOr "childrenAs" "children"
    childrenLinesAs := head.givenOr "childrenLinesAs" "childrenLines" }

def fileStep (head : Head) : Checked Step :=
  let reference := if head.value = "" then head.options.getD "from" (.str "") else .str head.value
  if reference.isSome then .ok (.file reference (head.givenOr "as" "linked"))
  else .error (.lacks head.keyword.text "a reference")

def readAuth (v : Value) : Checked (Option Auth) :=
  match v with
  | .map entries =>
    match (Record.get? entries "type").filter Value.isSome with
    | none => .ok none
    | some kind => do
      let kind ← readChoice "auth.type" AuthKind.all AuthKind.text kind
      return some {
        kind
        username := Record.get? entries "username"
        password := Record.get? entries "password"
        token := Record.get? entries "token"
        apiKey := Record.get? entries "apiKey"
        headerName :=
          ((Record.get? entries "headerName").filter Value.isSome).getD (.str "X-API-Key") }
  | _ => .ok none

/-- A name in backticks, or else the characters up to a blank, and what follows it. -/
def cutName? : List Char → Option (List Char × List Char)
  | [] => none
  | c :: cs =>
    let quoted := cs.takeWhile (· ≠ '\x60')
    if c = '\x60' ∧ quoted ≠ [] ∧ quoted.length < cs.length then
      some (quoted, cs.drop (quoted.length + 1))
    else if isBlank c then none
    else some ((c :: cs).takeWhile (!isBlank ·), (c :: cs).dropWhile (!isBlank ·))

/-- A name behind blanks, the word that announces it and blanks again, at the start of a text. -/
def cutTrailingName? (cs : List Char) : Option (List Char × List Char) :=
  if !(cs.head?.any isBlank) then none
  else match cs.dropWhile isBlank with
    | 'a' :: 's' :: ':' :: c :: rest =>
      if isBlank c then cutName? (rest.dropWhile isBlank) else none
    | _ => none

/-- The first such name in a text, and the text without it. -/
def takeTrailingName? : List Char → Option (List Char × List Char)
  | [] => none
  | c :: cs =>
    match cutTrailingName? (c :: cs) with
    | some cut => some cut
    | none => (takeTrailingName? cs).map fun (name, rest) => (name, c :: rest)

def fetchStep (head : Head) : Checked Step := do
  let storeAs := head.given? "as"
  let trailing := if storeAs.isSome then none else takeTrailingName? head.value.toList
  let (url, storeAs) : String × Option Value := match trailing with
    | some (name, rest) => (trim (.ofList rest), some (.str (.ofList name)))
    | none => (head.value, storeAs)
  if url = "" then throw (ParseFault.lacks head.keyword.text "a url")
  let headers : List (String × String) := match head.options.get? "headers" with
    | some (.map entries) => entries.map fun (k, v) => (k.plain, v.plain)
    | _ => []
  let auth ← readAuth (head.options.getD "auth" .null)
  let timeoutMs ← head.int? "timeout"
  return .fetch {
    url := Template.clean url
    method := upper (head.givenOr "method" "GET").plain
    body := head.given? "body"
    headers, auth, storeAs, timeoutMs }

mutual

def childTemplate (indent : Nat) : Outline.Item → ChildTemplate
  | ⟨text, children, _⟩ =>
    let text := match text.toList with
      | c :: rest => if Outline.isBullet c then .ofList (rest.dropWhile isBlank) else text
      | [] => text
    ⟨Template.clean text, indent, childTemplates (indent + 1) children⟩

def childTemplates (indent : Nat) : List Outline.Item → List ChildTemplate
  | [] => []
  | item :: rest => childTemplate indent item :: childTemplates indent rest

end

def nonEmpty? (s : String) : Option String := if s = "" then none else some s

def transformStep (head : Head) : Checked Step := do
  let (mode, children) ← match head.children with
    | first :: rest => match keyValue? first.text with
      | some ("mode", value) =>
        pure (← readChoice "mode" TransformMode.all TransformMode.text (.str value), rest)
      | _ => pure (.replace, first :: rest)
    | [] => pure (.replace, [])
  return .transform (nonEmpty? head.value) mode (childTemplates 0 children)

def queryStep (head : Head) : Step :=
  .query head.value (head.givenOr "as" "results") <|
    (head.options.erase "as").map fun (k, v) =>
      (k, match v with
        | .str s => parseLiteral s
        | v => v)

def taskStep (head : Head) : Checked Step := do
  let word := if head.value = "" then head.options.getD "op" (.str "") else .str head.value
  let op ← readChoice "op" TaskOp.all TaskOp.text word
  let keys : List Key := ["to", "toStatus", "status"]
  let status := keys.findSome? head.options.get?
  let toStatus := status.map fun v => if v.isSome then v else .str " "
  let indent ← head.int? "indent"
  let template := head.given? "template"
  if op = .status ∧ toStatus.isNone then throw (.reported "'task: status' needs a 'to' status")
  if op = .append ∧ template.isNone then throw (.reported "'task: append' needs a 'template'")
  return .task {
    op, toStatus, template
    bullets := head.givenOr "bullets" "*"
    indent := indent.getD 1
    bullet := head.givenOr "bullet" "+" }

/-- Reads an action other than a branch or a loop. -/
def stepOf (head : Head) : Checked Step :=
  match head.keyword with
  | .read => readStep head
  | .file => fileStep head
  | .fetch => fetchStep head
  | .shell => do
    let command ← head.required "a command"
    return .shell command (head.given? "as") (← head.int? "timeout")
  | .transform => transformStep head
  | .build => return .build (← head.required "a variable name") head.options
  | .query => return queryStep head
  | .set => do
    let name ← head.required "a variable name"
    return .set name (head.options.getD "value" (.str "")).plain (head.given? "pattern")
      (head.givenOr "in" lineTemplate)
  | .match => return .match head.value (head.givenOr "in" lineTemplate)
  | .extract => do
    let pattern ← head.required "a regular expression"
    return .extract pattern (head.givenOr "from" lineTemplate) (head.givenOr "as" "matches")
  | .return => return .return (nonEmpty? head.value)
  | .append => return .append head.value ((← head.int? "indent").getD 1)
  | .task => taskStep head
  | .validate => return .validate (← head.required "a condition") (head.given? "message")
  | .delay => return .delay (← head.required "a duration")
  | .filter =>
    match head.given? "where" with
    | some condition =>
      return .filter head.value condition (head.givenOr "as" "filtered")
        (head.givenOr "itemAs" "item")
    | none => throw (.lacks head.keyword.text "a 'where' condition")
  | .map =>
    match head.options.get? "template" with
    | some template =>
      return .map head.value template (head.givenOr "as" "mapped") (head.givenOr "itemAs" "item")
    | none => throw (.lacks head.keyword.text "a 'template'")
  | .date => do
    let word := if head.value = "" then "now" else head.value
    let mode ← readChoice "mode" DateMode.all DateMode.text (.str word)
    let format ← readChoice "format" DateFormat.all DateFormat.text (head.givenOr "format" "iso")
    return .date mode (head.given? "from") (head.givenOr "as" "date") format
  | .log => do
    let word := lower (head.givenOr "level" "info").plain
    return .log head.value (← readChoice "level" LogLevel.all LogLevel.text (.str word))
  | .notify => return .notify head.value ((← head.int? "duration").getD 4000)
  | .if | .foreach => throw (.reported (head.keyword.text ++ " holds other actions"))

end BulletScript.Script
