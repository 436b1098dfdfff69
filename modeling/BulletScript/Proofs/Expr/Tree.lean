import BulletScript.Expr.Eval

/-! Trees of expressions: their values, and the tokens that write them, with parentheses where the
order of the operators asks for them. -/
namespace BulletScript.Expr

open Text

/-- Digits, and a point with more digits or not. -/
inductive IsNumber : List Char → Prop
  | whole {ds : List Char} : ds ≠ [] → (∀ d ∈ ds, isDecimal d = true) → IsNumber ds
  | fraction {ds fs : List Char} : ds ≠ [] → (∀ d ∈ ds, isDecimal d = true) → fs ≠ [] →
      (∀ d ∈ fs, isDecimal d = true) → IsNumber (ds ++ '.' :: fs)

/-- Letters, digits and underlines, no digit first. -/
def IsName (cs : List Char) : Prop :=
  ∃ c rest, cs = c :: rest ∧ isNameStart c = true ∧ ∀ d ∈ rest, isNameRest d = true

@[ext]
structure NumberWord where
  text : String
  isNumber : IsNumber text.toList

/-- A name that stands for no operator. -/
@[ext]
structure Name where
  text : String
  isName : IsName text.toList
  notOperator : operatorWord? text = none

/-- A name that stands for no value either. -/
@[ext]
structure Variable extends Name where
  notConstant : constant? text = none

inductive Constant where
  | true
  | false
  | null
  | undefined
  deriving Repr, DecidableEq

inductive Property where
  | name (n : Name)
  | number (w : NumberWord)

/-- The operators between two operands. -/
inductive Binary where
  | arith (op : ArithOp)
  | compare (op : CompareOp)
  | both
  | either
  deriving Repr, DecidableEq

inductive Tree where
  | number (w : NumberWord)
  | text (s : String)
  | constant (c : Constant)
  | var (x : Variable)
  | member (base : Tree) (p : Property)
  | index (base place : Tree)
  | negate (operand : Tree)
  | not (operand : Tree)
  | binary (o : Binary) (left right : Tree)

section Values

variable {α β : Type}

/-- A result with nothing of a failure but its class. -/
def classed (r : Result α) : Except String α := r.mapError Failure.name

/-- The class of the failure to find a variable or a part of a value. -/
def missing : String := "MissingVariableError"

def Constant.value : Constant → Value
  | .true => .bool Bool.true
  | .false => .bool Bool.false
  | .null | .undefined => .null

/-- A part of a value that has to be there. -/
def reach (v : Value) (step : PathStep) : Except String Value := do
  match ← classed (v.step? step) with
  | some part => return part
  | none => throw missing

def Property.text : Property → String
  | .name n => n.text
  | .number w => w.text

def Binary.apply (o : Binary) (a b : Value) : Except String Value :=
  match o with
  | .arith op => classed (combine "" op a b)
  | .compare op => do return .bool (← classed (op.test a b))
  | .both => .ok (if a.truthy then b else a)
  | .either => .ok (if a.truthy then a else b)

/-- The value of a tree, or the class of its failure. All operands are evaluated, from left to
right. -/
def Tree.eval (vars : Record) : Tree → Except String Value
  | .number w => classed (numberValue w.text)
  | .text s => return .str s
  | .constant c => return c.value
  | .var x => match vars.get? (.str x.text) with
    | some v => return v
    | none => throw missing
  | .member base p => do
    let v ← base.eval vars
    reach v (.name p.text)
  | .index base place => do
    let v ← base.eval vars
    let i ← place.eval vars
    reach v (← classed (stepOf i))
  | .negate operand => do
    let v ← operand.eval vars
    classed (arithmetic "" .sub (.int 0) v)
  | .not operand => do
    let v ← operand.eval vars
    return .bool !v.truthy
  | .binary o left right => do
    let a ← left.eval vars
    let b ← right.eval vars
    o.apply a b

end Values

section Levels

/-- How tight the parts of an expression bind, from loose to tight. -/
inductive Level where
  | either
  | both
  | negation
  | comparison
  | sum
  | product
  | unary
  | access
  deriving Repr, DecidableEq

namespace Level

def rank : Level → Nat
  | .either => 0
  | .both => 1
  | .negation => 2
  | .comparison => 3
  | .sum => 4
  | .product => 5
  | .unary => 6
  | .access => 7

/-- The level that binds tighter; the tightest is its own next. -/
def next : Level → Level
  | .either => .both
  | .both => .negation
  | .negation => .comparison
  | .comparison => .sum
  | .sum => .product
  | .product => .unary
  | .unary | .access => .access

/-- The level of what may stand to the left of an operator of a level. Comparisons do not chain. -/
def left (level : Level) : Level := if level = .comparison then .sum else level

end Level

def arithLevel : ArithOp → Level
  | .add | .sub => .sum
  | .mul | .div | .mod => .product

namespace Binary

def level : Binary → Level
  | .arith op => arithLevel op
  | .compare _ => .comparison
  | .both => .both
  | .either => .either

def text : Binary → String
  | .arith op => op.text
  | .compare op => op.text
  | .both => "&&"
  | .either => "||"

end Binary

def Tree.level : Tree → Level
  | .number _ | .text _ | .constant _ | .var _ | .member .. | .index .. => .access
  | .negate _ => .unary
  | .not _ => .negation
  | .binary o .. => o.level

end Levels

section Tokens

/-- A token of an operator or a bracket. -/
def sign (text : String) : Token := ⟨.op, text⟩

def NumberWord.token (w : NumberWord) : Token := ⟨.number, w.text⟩

def Name.token (n : Name) : Token := ⟨.name, n.text⟩

def Constant.text : Constant → String
  | .true => "true"
  | .false => "false"
  | .null => "null"
  | .undefined => "undefined"

def Property.token : Property → Token
  | .name n => n.token
  | .number w => w.token

/-- A backslash before each quote and backslash. -/
def escape : List Char → List Char
  | [] => []
  | c :: rest => if c = '"' ∨ c = '\\' then '\\' :: c :: escape rest else c :: escape rest

/-- A text in quotes. -/
def quoted (s : String) : Token := ⟨.string, .ofList ('"' :: escape s.toList ++ ['"'])⟩

/-- Tokens at a place for a level, in parentheses if they bind less tightly. -/
def fit (place level : Level) (ts : List Token) : List Token :=
  if place.rank ≤ level.rank then ts else sign "(" :: ts ++ [sign ")"]

namespace Tree

/-- The tokens that write a tree. -/
def tokens : Tree → List Token
  | .number w => [w.token]
  | .text s => [quoted s]
  | .constant c => [⟨.name, c.text⟩]
  | .var x => [x.token]
  | .member base p => fit .access base.level base.tokens ++ [sign ".", p.token]
  | .index base place =>
    fit .access base.level base.tokens ++ sign "[" :: place.tokens ++ [sign "]"]
  | .negate operand => sign "-" :: fit .unary operand.level operand.tokens
  | .not operand => sign "!" :: fit .negation operand.level operand.tokens
  | .binary o left right =>
    fit o.level.left left.level left.tokens ++
      sign o.text :: fit o.level.next right.level right.tokens

/-- The tokens of a tree with a blank between them. -/
def written (t : Tree) : String := " ".intercalate (t.tokens.map (·.text))

example : (binary .both (binary .either (constant .true) (constant .null))
    (not (constant .false))).written = "( true || null ) && ! false" := by rfl

end Tree

end Tokens

end BulletScript.Expr
