import BulletScript.Expr.Token
import BulletScript.Value.Literal

/-! Expressions and their reader. Binding from loose to tight: `||`, `&&`, `!`, one comparison,
`+ -`, `* / %`, unary minus, access. A text that breaks the grammar still has an expression: its
fault stands where evaluation from left to right meets it. -/
namespace BulletScript

inductive ArithOp where
  | add | sub | mul | div | mod
  deriving Repr, DecidableEq

def ArithOp.text : ArithOp → String
  | .add => "+" | .sub => "-" | .mul => "*" | .div => "/" | .mod => "%"

inductive Expr where
  | number (text : String)
  | string (text : String)
  | name (text : String)
  | group (inner : Expr)
  | member (base : Expr) (name : String)
  | index (base place : Expr)
  | negate (operand : Expr)
  | not (operand : Expr)
  | arith (op : ArithOp) (left right : Expr)
  | compare (op : CompareOp) (left right : Expr)
  | both (left right : Expr)
  | either (left right : Expr)
  /-- A fault met before any value. -/
  | fault (f : PatternFault)
  /-- A fault met once the expression before it has its value. -/
  | faultAfter (before : Expr) (f : PatternFault)
  deriving Repr, DecidableEq

namespace Expr

/-- A read part: whole, with the tokens after it, or ended by a fault inside it. -/
inductive Part where
  | whole (e : Expr) (rest : List Token)
  | broken (e : Expr)
  deriving Repr, DecidableEq

def Part.map (f : Expr → Expr) : Part → Part
  | .whole e rest => .whole (f e) rest
  | .broken e => .broken (f e)

/-- Reads on after a whole part; a broken one stays as it is. -/
def Part.bind (p : Part) (next : Expr → List Token → Part) : Part :=
  match p with
  | .whole e rest => next e rest
  | .broken e => .broken e

/-- The operator at the head of the tokens, when it is one of those asked for. -/
def headOp? {α : Type} (ops : List (String × α)) : List Token → Option (α × List Token)
  | token :: rest => if token.kind = .op then (ops.lookup token.text).map (·, rest) else none
  | [] => none

/-- The tokens after a given operator at their head. -/
def afterOp? (op : String) (tokens : List Token) : Option (List Token) :=
  (headOp? [(op, ())] tokens).map (·.2)

def compareOps : List (String × CompareOp) :=
  [("==", .eq), ("!=", .ne), (">=", .ge), ("<=", .le), (">", .gt), ("<", .lt)]

def sumOps : List (String × ArithOp) := [("+", .add), ("-", .sub)]

def productOps : List (String × ArithOp) := [("*", .mul), ("/", .div), ("%", .mod)]

/-- Closes a bracket after a part; without one the part ends in a fault. -/
def closed (source op : String) (p : Part) (wrap : Expr → Expr)
    (next : Expr → List Token → Part) : Part :=
  match p with
  | .broken e => .broken (wrap e)
  | .whole e rest => match afterOp? op rest with
    | some rest => next (wrap e) rest
    | none => .broken (wrap (.faultAfter e (.expected op source)))

mutual

/-- Disjunctions. Every function here reads at one level and spends one unit of fuel a call. -/
def readOr (source : String) (fuel : Nat) (tokens : List Token) : Part :=
  match fuel with
  | 0 => .broken (.fault (.unexpectedEnd source))
  | fuel + 1 => (readAnd source fuel tokens).bind (readOrTail source fuel)

def readOrTail (source : String) (fuel : Nat) (left : Expr) (tokens : List Token) : Part :=
  match fuel with
  | 0 => .broken (.fault (.unexpectedEnd source))
  | fuel + 1 => match afterOp? "||" tokens with
    | none => .whole left tokens
    | some rest => ((readAnd source fuel rest).map (.either left)).bind (readOrTail source fuel)

def readAnd (source : String) (fuel : Nat) (tokens : List Token) : Part :=
  match fuel with
  | 0 => .broken (.fault (.unexpectedEnd source))
  | fuel + 1 => (readNot source fuel tokens).bind (readAndTail source fuel)

def readAndTail (source : String) (fuel : Nat) (left : Expr) (tokens : List Token) : Part :=
  match fuel with
  | 0 => .broken (.fault (.unexpectedEnd source))
  | fuel + 1 => match afterOp? "&&" tokens with
    | none => .whole left tokens
    | some rest => ((readNot source fuel rest).map (.both left)).bind (readAndTail source fuel)

def readNot (source : String) (fuel : Nat) (tokens : List Token) : Part :=
  match fuel with
  | 0 => .broken (.fault (.unexpectedEnd source))
  | fuel + 1 => match afterOp? "!" tokens with
    | some rest => (readNot source fuel rest).map .not
    | none => readComparison source fuel tokens

def readComparison (source : String) (fuel : Nat) (tokens : List Token) : Part :=
  match fuel with
  | 0 => .broken (.fault (.unexpectedEnd source))
  | fuel + 1 => (readSum source fuel tokens).bind fun left rest =>
    match headOp? compareOps rest with
    | none => .whole left rest
    | some (op, rest) => (readSum source fuel rest).map (.compare op left)

def readSum (source : String) (fuel : Nat) (tokens : List Token) : Part :=
  match fuel with
  | 0 => .broken (.fault (.unexpectedEnd source))
  | fuel + 1 => (readProduct source fuel tokens).bind (readSumTail source fuel)

def readSumTail (source : String) (fuel : Nat) (left : Expr) (tokens : List Token) : Part :=
  match fuel with
  | 0 => .broken (.fault (.unexpectedEnd source))
  | fuel + 1 => match headOp? sumOps tokens with
    | none => .whole left tokens
    | some (op, rest) =>
      ((readProduct source fuel rest).map (.arith op left)).bind (readSumTail source fuel)

def readProduct (source : String) (fuel : Nat) (tokens : List Token) : Part :=
  match fuel with
  | 0 => .broken (.fault (.unexpectedEnd source))
  | fuel + 1 => (readUnary source fuel tokens).bind (readProductTail source fuel)

def readProductTail (source : String) (fuel : Nat) (left : Expr) (tokens : List Token) : Part :=
  match fuel with
  | 0 => .broken (.fault (.unexpectedEnd source))
  | fuel + 1 => match headOp? productOps tokens with
    | none => .whole left tokens
    | some (op, rest) =>
      ((readUnary source fuel rest).map (.arith op left)).bind (readProductTail source fuel)

def readUnary (source : String) (fuel : Nat) (tokens : List Token) : Part :=
  match fuel with
  | 0 => .broken (.fault (.unexpectedEnd source))
  | fuel + 1 => match afterOp? "-" tokens with
    | some rest => (readUnary source fuel rest).map .negate
    | none => (readPrimary source fuel tokens).bind (readAccess source fuel)

/-- The `.name` and `[index]` steps after a value. -/
def readAccess (source : String) (fuel : Nat) (base : Expr) (tokens : List Token) : Part :=
  match fuel with
  | 0 => .broken (.fault (.unexpectedEnd source))
  | fuel + 1 =>
    match afterOp? "." tokens with
    | some rest => match rest with
      | token :: rest =>
        if token.kind = .name ∨ token.kind = .number then
          readAccess source fuel (.member base token.text) rest
        else .broken (.faultAfter base (.expectedProperty source))
      | [] => .broken (.faultAfter base (.expectedProperty source))
    | none => match afterOp? "[" tokens with
      | some rest =>
        closed source "]" (readOr source fuel rest) (.index base) (readAccess source fuel)
      | none => .whole base tokens

def readPrimary (source : String) (fuel : Nat) (tokens : List Token) : Part :=
  match fuel with
  | 0 => .broken (.fault (.unexpectedEnd source))
  | fuel + 1 => match tokens with
    | [] => .broken (.fault (.unexpectedEnd source))
    | token :: rest => match token.kind with
      | .number => .whole (.number token.text) rest
      | .string => .whole (.string token.text) rest
      | .name => .whole (.name token.text) rest
      | .op =>
        if token.text = "(" then closed source ")" (readOr source fuel rest) .group .whole
        else .broken (.fault (.unexpectedToken token.text source))

end

/-- The expression that the tokens of `source` write; every token costs at most ten calls. -/
def ofTokens (source : String) (tokens : List Token) : Expr :=
  match readOr source (12 * tokens.length + 12) tokens with
  | .broken e => e
  | .whole e [] => e
  | .whole e (token :: _) => .faultAfter e (.unexpectedToken token.text source)

end Expr
end BulletScript
