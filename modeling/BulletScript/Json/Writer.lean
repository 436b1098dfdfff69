import BulletScript.Value.Shown

/-! Values written as JSON. -/
namespace BulletScript.Json

/-- What stands between items and after keys, and whether only ASCII is written. -/
structure Style where
  itemSep : String
  keySep : String
  asciiOnly : Bool

/-- No blanks, every character as it is. -/
def compact : Style := ⟨",", ":", false⟩

/-- A blank after each separator, characters beyond ASCII as escapes. -/
def spaced : Style := ⟨", ", ": ", true⟩

/-- Why a value has no JSON form: its type, as an item or as a key. -/
inductive Fault where
  | item (type : String)
  | key (type : String)
  deriving Repr, DecidableEq

def Fault.message : Fault → String
  | .item type => "Object of type " ++ type ++ " is not JSON serializable"
  | .key type => "keys must be str, int, float, bool or None, not " ++ type

def unitEscape (n : Nat) : List Char := '\\' :: 'u' :: Text.hexDigits 4 n

/-- A character inside a JSON string. -/
def charText (asciiOnly : Bool) (c : Char) : List Char :=
  let n := c.toNat
  if c = '"' ∨ c = '\\' then ['\\', c]
  else if c = '\n' then ['\\', 'n']
  else if c = '\r' then ['\\', 'r']
  else if c = '\t' then ['\\', 't']
  else if n = 8 then ['\\', 'b']
  else if n = 12 then ['\\', 'f']
  else if n < 32 then unitEscape n
  else if asciiOnly ∧ 127 ≤ n then
    if n = 127 then [c]
    else if n < 0x10000 then unitEscape n
    else unitEscape (0xD800 + (n - 0x10000) / 0x400) ++ unitEscape (0xDC00 + (n - 0x10000) % 0x400)
  else [c]

def stringText (asciiOnly : Bool) (s : String) : String :=
  .ofList ('"' :: s.toList.flatMap (charText asciiOnly) ++ ['"'])

def floatText (x : Float) : String :=
  match Number.decode x with
  | .nan => "NaN"
  | .infinite negative => if negative then "-Infinity" else "Infinity"
  | .finite _ => Number.floatText x

/-- Keys are written as strings; dates and bytes are no keys. -/
def keyText : Key → Except Fault String
  | .null => .ok "null"
  | .bool b => .ok (if b then "true" else "false")
  | .int n => .ok (Number.intText n)
  | .float x => .ok (floatText x)
  | .str s => .ok s
  | .bytes _ => .error (.key "bytes")
  | .stamp s => .error (.key (if s.time.isSome then "datetime" else "date"))

mutual

/-- The JSON form of a value; `other` writes what JSON has no form for. -/
def write (style : Style) (other : Value → Except Fault String) : Value → Except Fault String
  | .null => .ok "null"
  | .bool b => .ok (if b then "true" else "false")
  | .int n => .ok (Number.intText n)
  | .float x => .ok (floatText x)
  | .str s => .ok (stringText style.asciiOnly s)
  | .bytes data => other (.bytes data)
  | .stamp s => other (.stamp s)
  | .list items => do
    return "[" ++ style.itemSep.intercalate (← writeItems style other items) ++ "]"
  | .map entries => do
    return "\x7b" ++ style.itemSep.intercalate (← writeEntries style other entries) ++ "\x7d"

def writeItems (style : Style) (other : Value → Except Fault String) :
    List Value → Except Fault (List String)
  | [] => .ok []
  | x :: xs => do
    let text ← write style other x
    return text :: (← writeItems style other xs)

def writeEntries (style : Style) (other : Value → Except Fault String) :
    List (Key × Value) → Except Fault (List String)
  | [] => .ok []
  | (k, v) :: rest => do
    let key ← keyText k
    let text ← write style other v
    return (stringText style.asciiOnly key ++ style.keySep ++ text) ::
      (← writeEntries style other rest)

end

/-- The plain text of a value as a JSON string. -/
def plainString (v : Value) : Except Fault String := .ok (stringText false v.plain)

/-- Only what JSON has a form for is written. -/
def refuse (v : Value) : Except Fault String :=
  .error <| .item <| match v with
    | .bytes _ => "bytes"
    | .stamp s => if s.time.isSome then "datetime" else "date"
    | _ => "object"

end BulletScript.Json
