import BulletScript.Text.Search
import BulletScript.Text.Word

/-! Words of a command line, read as options and values. An option can be written by any beginning
of its name that no other option shares; its value stands behind an equals sign or in the next
word. -/
namespace BulletScript.Command

/-- Why a command line is not carried out. -/
inductive Stop where
  | misuse | help | version
  deriving Repr, DecidableEq

inductive Effect where
  | stop (reason : Stop)
  | value (accepts : String → Bool)

/-- An option, by its name and what it does. -/
structure Rule where
  name : String
  effect : Effect

/-- What an option's word holds behind its name. -/
inductive Tail where
  | nothing
  | equals (s : String)
  | adjoined (s : String)

/-- One word of a command line. -/
inductive Word where
  | value (s : String)
  | divider
  | option (rule : Rule) (tail : Tail)
  | unknown

def isDigits (cs : List Char) : Bool := !cs.isEmpty && cs.all Text.isDecimal

/-- Whether a word is a number below zero, which is no option. -/
def isNegativeNumber (s : String) : Bool :=
  match s.toList with
  | '-' :: cs =>
    let cs := if cs.getLast? = some '\n' then cs.dropLast else cs
    let (whole, rest) := cs.span Text.isDecimal
    (rest.isEmpty && isDigits whole) || (rest.head? = some '.' && isDigits (rest.drop 1))
  | _ => false

/-- The options that a word can be short for. A single dash takes the rest of the word as value. -/
def shortened (rules : List Rule) (s : String) : List Word :=
  if Text.startsWith "--" s then
    let (name, tail) := match Text.cut? "=" s with
      | some (name, given) => (name, Tail.equals given)
      | none => (s, .nothing)
    (rules.filter fun rule => Text.startsWith name rule.name).map fun rule => .option rule tail
  else
    (rules.filter fun rule => rule.name = Text.take 2 s).map fun rule =>
      .option rule (.adjoined (Text.drop 2 s))

/-- What a word is, before the values of options are told apart. -/
def readWord (rules : List Rule) (s : String) : Except Stop Word :=
  let exact (name : String) : Option Rule := rules.find? (·.name = name)
  if !Text.startsWith "-" s then .ok (.value s)
  else match exact s with
    | some rule => .ok (.option rule .nothing)
    | none =>
      if s = "-" then .ok (.value s)
      else match (Text.cut? "=" s).bind fun (name, given) => (exact name).map (·, given) with
        | some (rule, given) => .ok (.option rule (.equals given))
        | none =>
          match shortened rules s with
          | [word] => .ok word
          | _ :: _ => .error .misuse
          | [] =>
            if isNegativeNumber s || Text.contains " " s then .ok (.value s) else .ok .unknown

/-- The words of a command line. All words behind a double dash are values. -/
def readWords (rules : List Rule) : List String → Except Stop (List Word)
  | [] => .ok []
  | "--" :: rest => .ok (.divider :: rest.map .value)
  | s :: rest => do
    let word ← readWord rules s
    return word :: (← readWords rules rest)

/-- What the words of a command line give. A stray word belongs to nothing. -/
structure Given where
  values : List (String × String) := []
  positional : Option String := none
  isStray : Bool := false
  deriving Repr

namespace Given

def option? (g : Given) (name : String) : Option String := g.values.lookup name

def addValue (g : Given) (rule : Rule) (accepts : String → Bool) (v : String) :
    Except Stop Given :=
  if accepts v then .ok { g with values := (rule.name, v) :: g.values } else .error .misuse

def addPositional (g : Given) (v : String) : Given :=
  match g.positional with
  | none => { g with positional := some v }
  | some _ => { g with isStray := true }

end Given

/-- An option that takes no value stops the reading. More letters behind a single dash would be
options after it. -/
def Tail.stop (reason : Stop) : Tail → Stop
  | .nothing => reason
  | .equals _ => .misuse
  | .adjoined more => if Text.startsWith "-" more then .misuse else reason

def Tail.value? : Tail → Option String
  | .nothing => none
  | .equals v | .adjoined v => some v

/-- Takes words one after the other. `opens` says whether the first value ends the reading. -/
def takeWords : List Word → Given → Except Stop Given
  | [], g => .ok g
  | .unknown :: rest, g => takeWords rest { g with isStray := true }
  | .divider :: .value v :: rest, g => takeWords rest (g.addPositional v)
  | .divider :: rest, g => takeWords rest { g with isStray := true }
  | .value v :: .divider :: rest, g =>
    match g.positional with
    | none => takeWords rest (g.addPositional v)
    | some _ => takeWords rest { g with isStray := true }
  | .value v :: rest, g => takeWords rest (g.addPositional v)
  | .option rule tail :: rest, g =>
    match rule.effect, tail.value?, rest with
    | .stop reason, _, _ => .error (tail.stop reason)
    | .value accepts, some v, rest => do takeWords rest (← g.addValue rule accepts v)
    | .value accepts, none, .value v :: rest => do takeWords rest (← g.addValue rule accepts v)
    | .value _, none, _ => .error .misuse

/-- The options before the name of a command, that name, and the number of words behind it. -/
def takeGlobal : List Word → Given → Except Stop (Given × String × Nat)
  | [], _ => .error .misuse
  | .unknown :: rest, g => takeGlobal rest { g with isStray := true }
  | .divider :: _, _ => .error .misuse
  | .value name :: rest, g => .ok (g, name, rest.length)
  | .option rule tail :: rest, g =>
    match rule.effect, tail.value?, rest with
    | .stop reason, _, _ => .error (tail.stop reason)
    | .value accepts, some v, rest => do takeGlobal rest (← g.addValue rule accepts v)
    | .value accepts, none, .value v :: rest => do takeGlobal rest (← g.addValue rule accepts v)
    | .value _, none, _ => .error .misuse

end BulletScript.Command
