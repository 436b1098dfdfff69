import BulletScript.Failure
import BulletScript.Text.Blank
import BulletScript.Text.Word

/-! The tokens of expressions. -/
namespace BulletScript.Expr

inductive TokenKind where
  | number
  | string
  | name
  | op
  deriving Repr, DecidableEq

structure Token where
  kind : TokenKind
  text : String
  deriving Repr, DecidableEq

/-- Operator words and the operators they stand for. -/
def operatorWord? (s : String) : Option String :=
  if s = "and" then some "&&"
  else if s = "or" then some "||"
  else if s = "not" then some "!"
  else none

def isNameStart (c : Char) : Bool := c.isAlpha || c == '_'

def isNameRest (c : Char) : Bool := c.isAlphanum || c == '_'

/-- Digits with an optional fraction, which needs a digit after its point. -/
def cutNumber (cs : List Char) : List Char × List Char :=
  let (whole, rest) := cs.span Text.isDecimal
  match rest with
  | '.' :: after => match after.span Text.isDecimal with
    | ([], _) => (whole, rest)
    | (fraction, after) => (whole ++ '.' :: fraction, after)
  | _ => (whole, rest)

/-- The body of a quoted string up to and with its closing quote. A backslash takes the next
character with it, which may not be a newline. -/
def cutString (quote : Char) : List Char → Option (List Char × List Char)
  | [] => none
  | '\\' :: c :: rest =>
    if c = '\n' then none
    else (cutString quote rest).map fun (body, after) => ('\\' :: c :: body, after)
  | c :: rest =>
    if c = quote then some ([c], rest)
    else if c = '\\' then none
    else (cutString quote rest).map fun (body, after) => (c :: body, after)

/-- Operators of two characters; they win over those of one. -/
def pairOps : List (Char × Char) :=
  [('&', '&'), ('|', '|'), ('=', '='), ('!', '='), ('>', '='), ('<', '=')]

def singleOps : List Char :=
  ['-', '+', '*', '/', '%', '<', '>', '!', '(', ')', '.', '[', ']']

def cutOp : List Char → Option (List Char × List Char)
  | c :: d :: rest =>
    if pairOps.contains (c, d) then some ([c, d], rest)
    else if singleOps.contains c then some ([c], d :: rest)
    else none
  | [c] => if singleOps.contains c then some ([c], []) else none
  | [] => none

/-- The token at the start of a text, which does not start with a blank, and what follows it. -/
def cutToken (cs : List Char) : Option (Token × List Char) :=
  match cs with
  | [] => none
  | c :: rest =>
    if Text.isDecimal c then
      let (body, after) := cutNumber cs
      some (⟨.number, .ofList body⟩, after)
    else if c = '"' ∨ c = '\'' then
      (cutString c rest).map fun (body, after) => (⟨.string, .ofList (c :: body)⟩, after)
    else if isNameStart c then
      let (body, after) := cs.span isNameRest
      let text := String.ofList body
      some (match operatorWord? text with
        | some op => (⟨.op, op⟩, after)
        | none => (⟨.name, text⟩, after))
    else (cutOp cs).map fun (body, after) => (⟨.op, .ofList body⟩, after)

/-- The tokens of a text; every token takes a character, so its length is fuel enough. -/
def tokensFrom (source : String) (fuel : Nat) (cs : List Char) : Result (List Token) :=
  match fuel, cs with
  | 0, _ | _, [] => .ok []
  | fuel + 1, c :: rest =>
    if Text.isBlank c then tokensFrom source fuel rest
    else match cutToken (c :: rest) with
      | some (token, after) => do return token :: (← tokensFrom source fuel after)
      | none => .error (.pattern (.unexpectedCharacter c source))

def tokens (source : String) : Result (List Token) :=
  tokensFrom source source.length source.toList

end BulletScript.Expr
