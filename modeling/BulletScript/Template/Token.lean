import BulletScript.Template.Segment
import BulletScript.Regex.Reader

/-! Pattern tokens: the placeholders that name one value. -/
namespace BulletScript.Template

inductive TokenKind where
  | simple
  | list (delimiter : String)
  | greedy
  | regex (validator : String)
  | optional
  deriving Repr, DecidableEq

structure Token where
  name : String
  kind : TokenKind
  raw : String
  deriving Repr, DecidableEq

def TokenKind.name : TokenKind → String
  | .simple => "simple"
  | .list _ => "list"
  | .greedy => "greedy"
  | .regex _ => "regex"
  | .optional => "optional"

def Token.isOptional (t : Token) : Bool := t.kind == .optional

def isTokenStart (c : Char) : Bool := c.isAlpha || c == '_'

def isTokenRest (c : Char) : Bool := c.isAlphanum || c == '_' || c == '.'

/-- Brackets with a number in them, each followed by more of the name. -/
def cutIndexes (fuel : Nat) (cs : List Char) : List Char × List Char :=
  match fuel, cs with
  | fuel + 1, '[' :: rest => match rest.span Text.isDecimal with
    | (d :: ds, ']' :: after) =>
      let (more, after) := after.span isTokenRest
      let (tail, after) := cutIndexes fuel after
      ('[' :: d :: ds ++ ']' :: more ++ tail, after)
    | _ => ([], cs)
  | _, _ => ([], cs)

/-- The name at the start of a placeholder, and what follows it. -/
def cutName (cs : List Char) : Option (List Char × List Char) :=
  match cs with
  | c :: _ =>
    if isTokenStart c then
      let (head, after) := cs.span isTokenRest
      let (tail, after) := cutIndexes after.length after
      some (head ++ tail, after)
    else none
  | [] => none

/-- A regular expression as a validator, or the failure to read it. -/
def validatorKind (inner : String) (source : List Char) : Result TokenKind :=
  match Regex.read {} source with
  | .ok _ => .ok (.regex (.ofList source))
  | .error .tooLarge => .error (.internal (.overflow (Regex.Fault.tooLarge.message source)))
  | .error fault =>
    .error (.pattern (.invalidRegex (rawText inner) (fault.message source)))

/-- The kind that the marks after a name ask for. The delimiter of a list is kept with its
blanks. -/
def kindOf (inner : String) (marks : List Char) : Result (Option TokenKind) :=
  match marks with
  | [] => .ok (some .simple)
  | mark :: extra =>
    if marks.all Text.isBlank then .ok (some .simple)
    else if mark = '+' then
      match extra with
      | ':' :: delimiter => .ok (some (.list (if delimiter = [] then " " else .ofList delimiter)))
      | _ => .ok (if extra.all Text.isBlank then some (.list " ") else none)
    else if mark = ':' then
      let source := Text.trimChars extra
      if source = [] then .ok none else (validatorKind inner source).map some
    else if mark = '*' then .ok (if extra.all Text.isBlank then some .greedy else none)
    else if mark = '?' then .ok (if extra.all Text.isBlank then some .optional else none)
    else .ok none

/-- The token that a placeholder writes; `none` when it is an expression. -/
def tokenOf? (inner : String) : Result (Option Token) :=
  match cutName (Text.trimLeftChars inner.toList) with
  | none => .ok none
  | some (name, marks) => do
    let kind ← kindOf inner marks
    return kind.map fun kind => ⟨.ofList name, kind, rawText inner⟩

/-- The token of a placeholder in a pattern, where every placeholder must be one. -/
def requireToken (inner : String) : Result Token := do
  match ← tokenOf? inner with
  | some token => return token
  | none => .error (.pattern (.notAToken (rawText inner)))

def tokensOf : List Segment → Result (List Token)
  | [] => .ok []
  | .literal _ :: rest => tokensOf rest
  | .placeholder inner _ :: rest => do
    let token ← requireToken inner
    return token :: (← tokensOf rest)

/-- The tokens of a pattern from left to right. -/
def parsePattern (template : String) : Result (List Token) := do
  tokensOf (← segments template)

/-- Whether a text holds a placeholder that is not empty. -/
def hasTokens (text : String) : Bool :=
  match Text.cutChars openMark text.toList with
  | some (_, _ :: after) => (Text.cutChars closeMark after).isSome
  | _ => false

/-- The placeholder that marks where the cursor goes. -/
def cursorMarker : String := rawText "cursor"

def isCursor (inner : String) : Bool := Text.trim inner == "cursor"

/-- The names of the tokens, each once, in order. -/
def namesOf (known : List String) : List Segment → Result (List String)
  | [] => .ok known
  | .literal _ :: rest => namesOf known rest
  | .placeholder inner _ :: rest =>
    if isCursor inner then namesOf known rest
    else do
      match ← tokenOf? inner with
      | some token =>
        namesOf (if known.contains token.name then known else known ++ [token.name]) rest
      | none => namesOf known rest

def referencedNames (template : String) : Result (List String) := do
  namesOf [] (← segments template)

/-- An authored value without the blanks and the backticks around it. -/
def clean (text : String) : String :=
  let cs := Text.trimChars text.toList
  let cs := match cs with
    | '\x60' :: rest => rest
    | _ => cs
  let cs := if cs.getLast? = some '\x60' then cs.dropLast else cs
  .ofList (Text.trimChars cs)

/-- A text without its first cursor marker, and where that stood. -/
def stripCursor (text : String) : String × Option Nat :=
  match Text.cut? cursorMarker text with
  | some (before, after) => (before ++ after, some before.length)
  | none => (text, none)

end BulletScript.Template
