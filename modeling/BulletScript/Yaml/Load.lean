import BulletScript.Bytes.Base64
import BulletScript.Value.Whole
import BulletScript.Yaml.Node

/-! The value of a YAML text. -/
namespace BulletScript.Yaml

def wrongValue {α : Type} (context : Option (String × Mark)) (text : String) (mark : Mark) :
    Read α :=
  .error (.problem ⟨.values, context.map (·.1), context.map (·.2), text, mark⟩)

def ofResult {α : Type} : Result α → Read α
  | .ok a => .ok a
  | .error failure => .error (.noValue failure)

def noValue {α : Type} (fault : InternalFault) : Read α := .error (.noValue (.internal fault))

namespace Node

/-- The text of a scalar; a mapping may have one under its equals sign. -/
def scalarText (fuel : Nat) (node : Node) : Read String :=
  match fuel, node with
  | _, .scalar _ text _ => .ok text
  | fuel + 1, .mapping _ entries start =>
    match entries.find? fun (key, _) => key.tag = baseTag "value" with
    | some (_, value) => scalarText fuel value
    | none => wrongValue none "expected a scalar node, but found mapping" start
  | _, node => wrongValue none ("expected a scalar node, but found " ++ node.shape) node.start

/-- The entries of a mapping with those that it merges in front; those merged last come first. -/
def merged (fuel : Nat) (start : Mark) (entries : List (Node × Node)) :
    Read (List (Node × Node)) :=
  match fuel with
  | 0 => .ok entries
  | fuel + 1 => do
    let context := some ("while constructing a mapping", start)
    let isMerge (entry : Node × Node) : Bool := entry.1.tag = baseTag "merge"
    let added ← (entries.filter isMerge).mapM fun (_, value) => do
      match value with
      | .mapping _ inner start => merged fuel start inner
      | .sequence _ items _ =>
        let lists ← items.mapM fun item =>
          match item with
          | .mapping _ inner start => merged fuel start inner
          | item =>
            wrongValue context ("expected a mapping for merging, but found " ++ item.shape)
              item.start
        return lists.reverse.flatten
      | value =>
        wrongValue context
          ("expected a mapping or list of mappings for merging, but found " ++ value.shape)
          value.start
    return added.flatten ++ entries.filter (!isMerge ·)

end Node

def withoutLines (s : String) : List Char := s.toList.filter (· ≠ '_')

/-- Digits to a base that is a power of two. -/
def readBase (base : Nat) (digits : List Char) : Read Int :=
  if digits ≠ [] ∧ digits.all (fun c => isHexDigit c && Text.hexValue c < base) then
    .ok (digits.foldl (fun n c => base * n + Text.hexValue c) 0 : Nat)
  else
    noValue (.badValue ("invalid literal for int() with base " ++ toString base ++ ": " ++
      Text.shown (.ofList digits)))

def wholeNumber (s : String) : Read Int := do
  let (negative, digits) := Number.cutSign (withoutLines s)
  let n ← match digits with
    | [] => noValue (.outOfRange "string index out of range")
    | ['0'] => pure 0
    | '0' :: 'b' :: rest => readBase 2 rest
    | '0' :: 'x' :: rest => readBase 16 rest
    | '0' :: _ => readBase 8 digits
    | _ =>
      let parts ← (Text.fields ':' digits).mapM fun part => ofResult (wholeText (.ofList part))
      pure (parts.foldl (fun n part => 60 * n + part) 0)
  return if negative then -n else n

def decimal (s : String) : Read Float := do
  let (negative, chars) := Number.cutSign (Text.lower (.ofList (withoutLines s))).toList
  let text : String := .ofList chars
  let x ←
    if text = ".inf" then pure (Number.infinity false)
    else if text = ".nan" then pure Number.notANumber
    else if chars.contains ':' then
      let parts ← (Text.fields ':' chars).mapM fun part =>
        ofResult (Value.str (.ofList part)).toFloat
      let bases := (List.range parts.length).map fun n => Number.ofDecimal false (Nat.pow 60 n) 0
      pure ((parts.reverse.zip bases).foldl (fun sum (digit, base) => sum + digit * base) 0)
    else ofResult (Value.str text).toFloat
  return if negative then -x else x

/-- The first six digits of a fraction of a second, as microseconds. -/
def microseconds (fraction : List Char) : Nat :=
  Number.decimalNumber ((fraction ++ List.replicate 6 '0').take 6)

def checkDate (d : Calendar.Date) : Read Unit :=
  if d.year < 1 ∨ 9999 < d.year then
    noValue (.badValue ("year " ++ toString d.year ++ " is out of range"))
  else if d.month < 1 ∨ 12 < d.month then noValue (.badValue "month must be in 1..12")
  else if d.day < 1 ∨ Calendar.monthLength d.year d.month < d.day then
    noValue (.badValue "day is out of range for month")
  else .ok ()

def checkTime (t : Calendar.Time) : Read Unit :=
  if 24 ≤ t.hour then noValue (.badValue "hour must be in 0..23")
  else if 60 ≤ t.minute then noValue (.badValue "minute must be in 0..59")
  else if 60 ≤ t.second then noValue (.badValue "second must be in 0..59")
  else .ok ()

def moment (s : String) : Read Calendar.Stamp :=
  match readMoment? s.toList with
  | none => noValue (.noAttribute "NoneType" "groupdict")
  | some m => do
    match m.clock with
    | none =>
      checkDate m.date
      return ⟨m.date, none, none⟩
    | some (hour, minute, second) =>
      let offset := m.zone.map fun (negative, hours, minutes) =>
        let n : Int := (hours * 60 + minutes) * 60
        if negative then -n else n
      if offset.any fun n => 86400 ≤ n.natAbs then
        let n := offset.getD 0
        let days := n.fdiv 86400
        let rest := n - 86400 * days
        noValue (.badValue ("offset must be a timedelta strictly between " ++
          "-timedelta(hours=24) and timedelta(hours=24), not datetime.timedelta(days=" ++
          Number.intText days ++ (if rest = 0 then "" else ", seconds=" ++ Number.intText rest) ++
          ")."))
      else
        let time : Calendar.Time := ⟨hour, minute, second, microseconds m.fraction⟩
        checkDate m.date
        checkTime time
        return ⟨m.date, some time, offset.map (· * 1000000)⟩

def truthWords : List (String × Bool) :=
  [("yes", true), ("no", false), ("true", true), ("false", false), ("on", true), ("off", false)]

/-- The bytes that a text writes to the base of 64. -/
def binary (start : Mark) (s : String) : Read (List UInt8) :=
  match s.toList.findIdx? (fun c => 128 ≤ c.toNat) with
  | some n =>
    wrongValue none ("failed to convert base64 data into ascii: 'ascii' codec can't encode " ++
      "character at position " ++ toString n ++ ": ordinal not in range(128)") start
  | none =>
    match Bytes.ofBase64 s with
    | .ok bytes => .ok bytes
    | .error reason => wrongValue none ("failed to decode base64 data: " ++ reason) start

namespace Node

/-- Pairs are kept in a list of mappings with one entry each. -/
def pairOf (context : String) (start : Mark) : Node → Read (Node × Node)
  | .mapping _ [entry] _ => .ok entry
  | .mapping _ entries inner =>
    wrongValue (some (context, start)) ("expected a single mapping item, but found " ++
      toString entries.length ++ " items") inner
  | node =>
    wrongValue (some (context, start)) ("expected a mapping of length 1, but found " ++ node.shape)
      node.start

/-- The value of a node; its depth bounds the recursion. -/
def toValue (fuel : Nat) (node : Node) : Read Value :=
  match fuel with
  | 0 => .ok .null
  | fuel + 1 =>
    let text := node.scalarText (fuel + 1)
    let pairs (context : String) : Read Value := do
      match node with
      | .sequence _ items start =>
        return .list (← items.mapM fun item => do
          let (key, value) ← pairOf context start item
          return .list [← toValue fuel key, ← toValue fuel value])
      | node =>
        wrongValue (some (context, node.start)) ("expected a sequence, but found " ++ node.shape)
          node.start
    let entries : Read Record := do
      match node with
      | .mapping _ entries start =>
        (← merged (fuel + 1) start entries).foldlM (fun (record : Record) (keyNode, valueNode) => do
          let isEquals := keyNode.tag = baseTag "value"
          let key ← if isEquals then pure (Value.str "=") else toValue fuel keyNode
          match key.toKey? with
          | none =>
            wrongValue (some ("while constructing a mapping", start)) "found unhashable key"
              keyNode.start
          | some key => return record.set key (← toValue fuel valueNode)) []
      | node => wrongValue none ("expected a mapping node, but found " ++ node.shape) node.start
    let kind := if Text.startsWith (baseTag "") node.tag
      then Text.drop (baseTag "").length node.tag else "?"
    match kind with
    | "null" => do
      let _ ← text
      return .null
    | "bool" => do
      let word ← text
      match truthWords.lookup (Text.lower word) with
      | some b => return .bool b
      | none => noValue (.noEntry (Text.lower word))
    | "int" => do return .int (← wholeNumber (← text))
    | "float" => do return .float (← decimal (← text))
    | "binary" => do return .bytes (← binary node.start (← text))
    | "timestamp" => do return .stamp (← moment (← text))
    | "str" => do return .str (← text)
    | "omap" => pairs "while constructing an ordered map"
    | "pairs" => pairs "while constructing pairs"
    | "set" => do return .list ((← entries).map fun (key, _) => key.toValue)
    | "seq" =>
      match node with
      | .sequence _ items _ => do return .list (← items.mapM (toValue fuel))
      | node => wrongValue none ("expected a sequence node, but found " ++ node.shape) node.start
    | "map" => do return .map (← entries)
    | _ =>
      wrongValue none ("could not determine a constructor for the tag " ++ Text.shown node.tag)
        node.start

end Node

/-- The value of the one document in a text; an empty text has the value null. -/
def load (s : String) : Read Value := do
  checkCharacters s.toList
  let tokens := tokensOf s.toList
  match ← Node.ofTokens? tokens with
  | none => return .null
  | some node => node.toValue (tokens.tokens.length + 1)

end BulletScript.Yaml
