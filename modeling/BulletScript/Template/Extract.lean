import BulletScript.Template.Token
import BulletScript.Regex.Matcher
import BulletScript.Value.Basic

/-! Values taken out of a text by matching it against a pattern. -/
namespace BulletScript.Template

/-- The values found so far, and why the text does not match if it does not. -/
structure Extraction where
  values : Record
  error : Option String

def Extraction.success (e : Extraction) : Bool := e.error.isNone

/-- Literal text as a regular expression. -/
def literalNode (cs : List Char) : Regex.Node := .ofList (cs.map .char)

def anyChar : Regex.Node := .any true

/-- What a token matches: as little as the literal after it allows, or all that is left. -/
def captureNode (kind : TokenKind) (beforeLiteral : Bool) : Regex.Node :=
  let mode := if beforeLiteral then Regex.Mode.lazily else .greedy
  match kind with
  | .greedy | .list _ => .loop 1 none mode anyChar
  | .optional => .loop 0 none mode anyChar
  | .simple | .regex _ =>
    if beforeLiteral then .loop 1 none mode anyChar
    else .seq (.set ⟨false, [.category .space true], false, false⟩) (.loop 0 none .greedy anyChar)

/-- A validator read as the contents of a group. -/
def validatorNode (source : List Char) : Regex.Reader Regex.Node := do
  modify fun s => { s with rest := source, pos := 0 }
  let node ← Regex.readAlternatives (Regex.fuelFor source) { dotAll := true } false
  if (← Regex.peek).isSome then Regex.failAt "unbalanced parenthesis" 0 else return node

/-- The group of the `index`-th token. -/
def tokenNode (index : Nat) (token : Token) (beforeLiteral : Bool) :
    Regex.Reader Regex.Node := do
  let group ← Regex.openGroup (some ("t" ++ toString index))
  let inner ← match token.kind with
    | .regex validator => validatorNode validator.toList
    | kind => pure (captureNode kind beforeLiteral)
  Regex.closeGroup group inner
  return .group group inner

def startsWithLiteral : List Segment → Bool
  | .literal _ :: _ => true
  | _ => false

/-- The nodes of a pattern, given its tokens in order and the number of those before. -/
def patternNodes (index : Nat) : List Segment → List Token → Regex.Reader (List Regex.Node)
  | .literal text :: rest, tokens => do
    return literalNode text.toList :: (← patternNodes index rest tokens)
  | .placeholder .. :: rest, token :: tokens => do
    let node ← tokenNode index token (startsWithLiteral rest)
    return node :: (← patternNodes (index + 1) rest tokens)
  | _, _ => return []

def patternRegex (segments : List Segment) (tokens : List Token) :
    Except Regex.Fault Regex :=
  let read : Regex.Reader Regex := do
    Regex.finish (.ofList (← patternNodes 0 segments tokens))
  (read.run (.start {} [])).map (·.1)

/-- The items of a list value. -/
def listItems (delimiter captured : String) : List String :=
  ((Text.split delimiter captured).map Text.trim).filter (· ≠ "")

/-- Whether a validator matches the whole of a value. -/
def validates (validator captured : String) : Bool :=
  match Regex.read {} validator.toList with
  | .ok r => (Regex.fullMatch r captured.toList.toArray).isSome
  | .error _ => false

/-- The value of a token from its trimmed capture, `none` for an optional one that is empty. -/
def tokenValue (token : Token) (captured : String) : Except String (Option Value) :=
  if captured = "" then
    if token.isOptional then .ok none
    else .error ("Required value for '" ++ token.name ++ "' not found")
  else match token.kind with
    | .list delimiter => .ok (some (.list ((listItems delimiter captured).map .str)))
    | .regex validator =>
      if validates validator captured then .ok (some (.str captured))
      else .error ("Value '" ++ captured ++ "' for '" ++ token.name ++
        "' does not match required format")
    | _ => .ok (some (.str captured))

/-- The values of the tokens with their captures, in order. -/
def collect (values : Record) : List (Token × String) → Extraction
  | [] => ⟨values, none⟩
  | (token, captured) :: rest => match tokenValue token captured with
    | .error reason => ⟨values, some reason⟩
    | .ok none => collect values rest
    | .ok (some v) => collect (values.set (.str token.name) v) rest

/-- The groups of a match that hold the tokens, trimmed. -/
def captured (r : Regex) (text : Array Char) (m : Regex.Match) (index : Nat) : String :=
  match r.names.lookup ("t" ++ toString index) with
  | some group => Text.trim ((m.group? text group).getD "")
  | none => ""

/-- The values of the tokens of a pattern that the whole text matches. -/
def matchTokens (text pattern : String) (segments : List Segment) (tokens : List Token) :
    Result Extraction :=
  match patternRegex segments tokens with
  | .error .tooLarge => .error (.internal (.overflow (Regex.Fault.tooLarge.message [])))
  | .error fault => .ok ⟨[], some ("Failed to build extraction regex: " ++ fault.message [])⟩
  | .ok r =>
    let chars := text.toList.toArray
    match Regex.fullMatch r chars with
    | none =>
      if tokens.all Token.isOptional then .ok ⟨[], none⟩
      else .ok ⟨[], some ("Text does not match pattern. Expected format: " ++ pattern)⟩
    | some m =>
      .ok (collect [] (tokens.zipIdx.map fun (token, i) => (token, captured r chars m i)))

/-- Matches a text against a pattern. Faults of the pattern are reported in the result. -/
def extract (text pattern : String) : Result Extraction :=
  let parts : Result (List Segment × List Token) := do
    let segments ← segments pattern
    return (segments, ← tokensOf segments)
  match parts with
  | .error (.pattern fault) => .ok ⟨[], some fault.message⟩
  | .error failure => .error failure
  | .ok (segments, tokens) =>
    if tokens = [] then
      if Text.trim text = Text.trim pattern then .ok ⟨[], none⟩
      else .ok ⟨[], some "Text does not match pattern"⟩
    else matchTokens text pattern segments tokens

end BulletScript.Template
