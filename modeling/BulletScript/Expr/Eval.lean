import BulletScript.Expr.Syntax
import BulletScript.Value.Path

/-! Values of expressions, operands from left to right. -/
namespace BulletScript.Expr

/-- A value with the words that name it in a message. -/
structure Named where
  value : Value
  label : String

/-- The characters of a quoted string, each backslash giving way to what follows it. -/
def unescape : List Char → List Char
  | '\\' :: c :: rest => if c = '\n' then '\\' :: c :: unescape rest else c :: unescape rest
  | c :: rest => c :: unescape rest
  | [] => []

def stringValue (token : String) : String :=
  .ofList (unescape (token.toList.drop 1).dropLast)

/-- A number token is whole unless it has a point. -/
def numberValue (token : String) : Result Value :=
  if token.toList.contains '.' then .ok (.float ((Number.readFloat? token).getD 0))
  else do return .int (← digitsNumber token.toList)

/-- The names that are values. -/
def constant? (s : String) : Option Value :=
  if s = "undefined" then some .null else literalWord? s

/-- A number names an item by its whole part; any other value by its text. -/
def stepOf (v : Value) : Result PathStep := do
  v.checkWritable
  match v with
  | .int n => return .index n
  | .float x => return .index (← Result.ofNumber (Number.truncate (.float x)))
  | v => return .name v.plain

/-- One access; a missing part is named by the whole path to it. -/
def access (base : Named) (step : PathStep) (label : String) : Result Named := do
  match ← base.value.step? step with
  | some v => return ⟨v, label⟩
  | none => .error (.pattern (.missingVariable label))

def arithmetic (source : String) (op : ArithOp) (left right : Value) : Result Value :=
  match left.toNumber?, right.toNumber? with
  | some a, some b => do
    let n ← match op with
      | .add => Result.ofNumber (a.add b)
      | .sub => Result.ofNumber (a.sub b)
      | .mul => Result.ofNumber (a.mul b)
      | .div | .mod =>
        if b.isZero then .error (.pattern (.divisionByZero source))
        else Result.ofNumber (if op = .div then a.div b else a.mod b)
    return n.toValue
  | _, _ => .error (.pattern (.needsNumbers op.text source))

def isText : Value → Bool
  | .str _ => true
  | _ => false

/-- Adding to a text joins texts. -/
def combine (source : String) (op : ArithOp) (left right : Value) : Result Value :=
  if op = .add ∧ (isText left ∨ isText right) then do
    left.checkWritable
    right.checkWritable
    return .str (left.templateText ++ right.templateText)
  else arithmetic source op left right

/-- The value of an expression. Both sides of `&&` and `||` are always evaluated. -/
def eval (source : String) (vars : Record) : Expr → Result Named
  | .number text => do return ⟨← numberValue text, text⟩
  | .string text => .ok ⟨.str (stringValue text), text⟩
  | .name text => match constant? text with
    | some v => .ok ⟨v, text⟩
    | none => match Record.get? vars (.str text) with
      | some v => .ok ⟨v, text⟩
      | none => .error (.pattern (.missingVariable text))
  | .group inner => do return ⟨(← eval source vars inner).value, "(...)"⟩
  | .member base key => do
    let b ← eval source vars base
    access b (.name key) (b.label ++ "." ++ key)
  | .index base place => do
    let b ← eval source vars base
    let i ← eval source vars place
    access b (← stepOf i.value) (b.label ++ "[" ++ i.value.plain ++ "]")
  | .negate operand => do
    let v ← eval source vars operand
    return ⟨← arithmetic source .sub (.int 0) v.value, ""⟩
  | .not operand => do
    let v ← eval source vars operand
    return ⟨.bool !v.value.truthy, ""⟩
  | .arith op left right => do
    let a ← eval source vars left
    let b ← eval source vars right
    return ⟨← combine source op a.value b.value, ""⟩
  | .compare op left right => do
    let a ← eval source vars left
    let b ← eval source vars right
    return ⟨.bool (← op.test a.value b.value), ""⟩
  | .both left right => do
    let a ← eval source vars left
    let b ← eval source vars right
    return ⟨if a.value.truthy then b.value else a.value, ""⟩
  | .either left right => do
    let a ← eval source vars left
    let b ← eval source vars right
    return ⟨if a.value.truthy then a.value else b.value, ""⟩
  | .fault f => .error (.pattern f)
  | .faultAfter before f => do
    let _ ← eval source vars before
    .error (.pattern f)

end BulletScript.Expr

namespace BulletScript

/-- The value of an expression text. -/
def evaluate (source : String) (vars : Record) : Result Value := do
  let e := Expr.ofTokens source (← Expr.tokens source)
  return (← Expr.eval source vars e).value

end BulletScript
