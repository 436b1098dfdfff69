import BulletScript.Failure
import BulletScript.Number.Reader
import BulletScript.Value.Basic

/-! Values read from JSON text. The words `NaN`, `Infinity` and `-Infinity` are numbers, a repeated
key keeps its first place and its last value, and an unpaired surrogate escape becomes the
replacement character. -/
namespace BulletScript.Json

/-- Why a text is not JSON. -/
inductive Flaw where
  | noValue | noName | noColon | noComma | openString | controlCharacter | badEscape | badUnicode
  | extraData | byteOrderMark
  deriving Repr, DecidableEq

def Flaw.text : Flaw → String
  | .noValue => "Expecting value"
  | .noName => "Expecting property name enclosed in double quotes"
  | .noColon => "Expecting ':' delimiter"
  | .noComma => "Expecting ',' delimiter"
  | .openString => "Unterminated string starting at"
  | .controlCharacter => "Invalid control character at"
  | .badEscape => "Invalid \\escape"
  | .badUnicode => "Invalid \\uXXXX escape"
  | .extraData => "Extra data"
  | .byteOrderMark => "Unexpected UTF-8 BOM (decode using utf-8-sig)"

/-- A flaw, with the number of characters left where it shows, or an integer too long to read. -/
inductive Misread where
  | place (flaw : Flaw) (left : Nat)
  | tooManyDigits (count : Nat)
  deriving Repr, DecidableEq

abbrev Reading (α : Type) := Except Misread α

def misread {α : Type} (flaw : Flaw) (left : List Char) : Reading α :=
  .error (.place flaw left.length)

def isSpace (c : Char) : Bool := c == ' ' || c == '\t' || c == '\n' || c == '\r'

def skipSpace (cs : List Char) : List Char := cs.dropWhile isSpace

/-- The number of four hexadecimal digits behind an escape's letter, and what follows them. A string
does not end right behind its escape. -/
def readUnit (cs : List Char) : Reading (Nat × List Char) :=
  match cs with
  | a :: b :: c :: d :: rest =>
    let isHex (x : Char) : Bool := x.isDigit || ('a' ≤ x && x ≤ 'f') || ('A' ≤ x && x ≤ 'F')
    if isHex a && isHex b && isHex c && isHex d && !rest.isEmpty then
      let value (x : Char) : Nat :=
        if x.isDigit then x.toNat - 48 else if 'a' ≤ x then x.toNat - 87 else x.toNat - 55
      .ok (((value a * 16 + value b) * 16 + value c) * 16 + value d, rest)
    else misread .badUnicode ('u' :: cs)
  | _ => misread .badUnicode ('u' :: cs)

def escapeChar? : Char → Option Char
  | '"' => some '"'
  | '\\' => some '\\'
  | '/' => some '/'
  | 'b' => some '\x08'
  | 'f' => some '\x0c'
  | 'n' => some '\n'
  | 'r' => some '\r'
  | 't' => some '\t'
  | _ => none

/-- The character of a unit, taken together with the one after it if they are a pair. -/
def joinUnits (n : Nat) (rest : List Char) : Reading (Char × List Char) :=
  if 0xD800 ≤ n ∧ n < 0xDC00 then
    match rest with
    | '\\' :: 'u' :: more => do
      let (m, after) ← readUnit more
      if 0xDC00 ≤ m ∧ m < 0xE000 then
        return (Char.ofNat (0x10000 + (n - 0xD800) * 0x400 + (m - 0xDC00)), after)
      return ('\uFFFD', rest)
    | _ => return ('\uFFFD', rest)
  else if 0xDC00 ≤ n ∧ n < 0xE000 then return ('\uFFFD', rest)
  else return (Char.ofNat n, rest)

/-- The rest of a string after its opening quote, with the characters read so far in reverse;
`start` counts the characters from the quote on. -/
def readString (start fuel : Nat) (read : List Char) (cs : List Char) :
    Reading (String × List Char) :=
  match fuel with
  | 0 => .error (.place .openString start)
  | fuel + 1 =>
    match cs with
    | '"' :: rest => .ok (.ofList read.reverse, rest)
    | '\\' :: 'u' :: rest => do
      let (n, rest) ← readUnit rest
      let (c, rest) ← joinUnits n rest
      readString start fuel (c :: read) rest
    | '\\' :: c :: rest =>
      match escapeChar? c with
      | some c => readString start fuel (c :: read) rest
      | none => misread .badEscape cs
    | ['\\'] | [] => .error (.place .openString start)
    | c :: rest =>
      if c.toNat < 32 then misread .controlCharacter cs else readString start fuel (c :: read) rest

/-- A string that begins with its opening quote. -/
def readQuoted (cs : List Char) : Reading (String × List Char) :=
  readString cs.length cs.length [] (cs.drop 1)

/-- A number without leading zeros; with a fraction or an exponent it is a float. -/
def readNumber (start : List Char) : Reading (Value × List Char) :=
  let (negative, cs) := match start with
    | '-' :: rest => (true, rest)
    | _ => (false, start)
  let (digits, rest) := Number.spanDigits cs
  let (digits, rest) := match digits with
    | '0' :: more => (['0'], more ++ rest)
    | _ => (digits, rest)
  if digits = [] then misread .noValue start
  else
    let (fraction, afterFraction) := match rest with
      | '.' :: more => match Number.spanDigits more with
        | ([], _) => ([], rest)
        | found => found
      | _ => ([], rest)
    let (exponent, after) := Number.readExponent afterFraction
    if fraction = [] ∧ after.length = rest.length then
      if Number.digitLimit < digits.length then .error (.tooManyDigits digits.length)
      else
        let n := (Number.decimalNumber digits : Int)
        .ok (.int (if negative then -n else n), rest)
    else
      let x := Number.ofDecimal negative (Number.decimalNumber (digits ++ fraction))
        (exponent - fraction.length)
      .ok (.float x, after)

/-- The values that are words. -/
def words : List (List Char × Value) :=
  [("null".toList, .null), ("true".toList, .bool true), ("false".toList, .bool false),
    ("NaN".toList, .float Number.notANumber), ("Infinity".toList, .float (Number.infinity false)),
    ("-Infinity".toList, .float (Number.infinity true))]

def readWord? (cs : List Char) : Option (Value × List Char) :=
  (words.find? fun (w, _) => w.isPrefixOf cs).map fun (w, v) => (v, cs.drop w.length)

mutual

/-- A value and what follows it. Every step reads a character, so the length of the text is fuel
enough. -/
def readValue (fuel : Nat) (cs : List Char) : Reading (Value × List Char) :=
  match fuel with
  | 0 => misread .noValue cs
  | fuel + 1 =>
    match cs with
    | '"' :: _ => (readQuoted cs).map fun (s, rest) => (.str s, rest)
    | '[' :: rest =>
      match skipSpace rest with
      | ']' :: rest => .ok (.list [], rest)
      | rest => readItems fuel [] rest
    | '\x7b' :: rest =>
      match skipSpace rest with
      | '\x7d' :: rest => .ok (.map [], rest)
      | rest => readEntries fuel [] rest
    | _ =>
      match readWord? cs with
      | some found => .ok found
      | none => readNumber cs

/-- The items of a list up to its bracket, the ones already read in reverse. -/
def readItems (fuel : Nat) (items : List Value) (cs : List Char) : Reading (Value × List Char) :=
  match fuel with
  | 0 => misread .noValue cs
  | fuel + 1 => do
    let (item, rest) ← readValue fuel cs
    match skipSpace rest with
    | ',' :: rest => readItems fuel (item :: items) (skipSpace rest)
    | ']' :: rest => .ok (.list (item :: items).reverse, rest)
    | rest => misread .noComma rest

/-- The entries of a mapping up to its brace. -/
def readEntries (fuel : Nat) (entries : Record) (cs : List Char) : Reading (Value × List Char) :=
  match fuel with
  | 0 => misread .noName cs
  | fuel + 1 =>
    match cs with
    | '"' :: _ => do
      let (key, rest) ← readQuoted cs
      match skipSpace rest with
      | ':' :: rest =>
        let (item, rest) ← readValue fuel (skipSpace rest)
        let entries := entries.set (.str key) item
        match skipSpace rest with
        | ',' :: rest => readEntries fuel entries (skipSpace rest)
        | '\x7d' :: rest => .ok (.map entries, rest)
        | rest => misread .noComma rest
      | rest => misread .noColon rest
    | _ => misread .noName cs

end

/-- The value of a JSON text with blanks around it. -/
def readChars (s : List Char) : Reading Value := do
  if s.head? = some '\ufeff' then misread .byteOrderMark s
  else
    let (v, rest) ← readValue (2 * s.length + 2) (skipSpace s)
    match skipSpace rest with
    | [] => return v
    | rest => misread .extraData rest

def read? (s : String) : Option Value := (readChars s.toList).toOption

/-- A flaw at a place of a text, with its line and column. -/
def flawText (s : List Char) (flaw : Flaw) (position : Nat) : String :=
  let before := s.take position
  let line := before.count '\n' + 1
  let column := (before.reverse.takeWhile (· ≠ '\n')).length + 1
  flaw.text ++ ": line " ++ toString line ++ " column " ++ toString column ++ " (char " ++
    toString position ++ ")"

/-- The value of a JSON text, or where it goes wrong. -/
def read (s : String) : Result Value :=
  let cs := s.toList
  match readChars cs with
  | .ok v => .ok v
  | .error (.place flaw left) =>
    .error (.internal (.badValue (flawText cs flaw (cs.length - left))))
  | .error (.tooManyDigits count) => .error (.internal (.tooManyDigits count))

end BulletScript.Json
