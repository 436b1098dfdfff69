import BulletScript.Yaml.Token

/-! The tokens of a whole text. Blocks open and close with the indentation, and a key is known for
one only when its colon comes. -/
namespace BulletScript.Yaml

/-- A token that a colon would make a key. In a block it must become one where a key is due. -/
structure PossibleKey where
  token : Nat
  required : Bool
  mark : Mark
  index : Nat

/-- The state of reading tokens: those read, the indentations of the open blocks, how many flow
collections are open, and for each of these the key that may be waiting. -/
structure Scan where
  input : Input
  tokens : Array Token := #[]
  indent : Int := -1
  indents : List Int := []
  flow : Int := 0
  keyAllowed : Bool := true
  keys : List (Int × PossibleKey) := []
  done : Bool := false

namespace Scan

def inFlow (s : Scan) : Bool := s.flow ≠ 0

def column (s : Scan) : Int := s.input.mark.column

def missingColon {α : Type} (s : Scan) (key : PossibleKey) : Read α :=
  unexpected "while scanning a simple key" key.mark "could not find expected ':'" s.input

/-- A key stands on one line and within 1024 characters of its colon. -/
def dropStaleKeys (s : Scan) : Read Scan := do
  let stale (key : PossibleKey) : Bool :=
    key.mark.line ≠ s.input.mark.line || key.index + 1024 < s.input.index
  match s.keys.find? fun (_, key) => stale key && key.required with
  | some (_, key) => s.missingColon key
  | none => return { s with keys := s.keys.filter fun (_, key) => !stale key }

/-- Gives up the key that waits in the collection at hand. -/
def dropKey (s : Scan) : Read Scan :=
  match s.keys.lookup s.flow with
  | none => .ok s
  | some key =>
    if key.required then s.missingColon key
    else .ok { s with keys := s.keys.filter (·.1 ≠ s.flow) }

/-- Remembers that the next token may be a key. -/
def saveKey (s : Scan) : Read Scan :=
  if s.keyAllowed then do
    let s ← s.dropKey
    let required := !s.inFlow && s.indent == s.column
    let key : PossibleKey := ⟨s.tokens.size, required, s.input.mark, s.input.index⟩
    return { s with keys := s.keys ++ [(s.flow, key)] }
  else .ok s

def push (kind : TokenKind) (s : Scan) : Scan :=
  { s with tokens := s.tokens.push ⟨kind, s.input.mark, s.input.mark⟩ }

/-- Closes the blocks that stand further in than a column. -/
def closeBlocks (column : Int) (s : Scan) : Scan :=
  if s.inFlow then s else close s.indents s
where
  close (outer : List Int) (s : Scan) : Scan :=
    match outer with
    | [] => s
    | indent :: outer =>
      if column < s.indent then
        close outer ({ s with indent, indents := outer } |>.push .blockEnd)
      else s

/-- Opens a block at a column that is further in than the last one. -/
def openBlock (kind : TokenKind) (s : Scan) : Scan :=
  if s.indent < s.column then
    { s with indent := s.column, indents := s.indent :: s.indents }.push kind
  else s

/-- Takes a sign of one or more characters as a token. -/
def take (kind : TokenKind) (count : Nat) (s : Scan) : Scan :=
  let input := s.input.skip count
  { s with tokens := s.tokens.push ⟨kind, s.input.mark, input.mark⟩, input }

def allow (keyAllowed : Bool) (s : Scan) : Scan := { s with keyAllowed }

def notAllowedHere {α : Type} (what : String) (s : Scan) : Read α :=
  .error (.problem ⟨.tokens, none, none, what ++ " are not allowed here", s.input.mark⟩)

/-- Ends all blocks before a token that concerns the whole document. -/
def leaveBlocks (s : Scan) : Read Scan := do return (← (s.closeBlocks (-1)).dropKey).allow false

/-- The end of the text. -/
def finish (s : Scan) : Read Scan := do
  let s ← s.leaveBlocks
  return { (s.push .streamEnd) with keys := [], done := true }

def takeOpening (kind : TokenKind) (s : Scan) : Read Scan := do
  let s ← s.saveKey
  return ({ s with flow := s.flow + 1, keyAllowed := true }).take kind 1

def takeClosing (kind : TokenKind) (s : Scan) : Read Scan := do
  let s ← s.dropKey
  return ({ s with flow := s.flow - 1, keyAllowed := false }).take kind 1

def takeComma (s : Scan) : Read Scan := do return (← (s.allow true).dropKey).take .flowEntry 1

def takeDash (s : Scan) : Read Scan := do
  if !s.inFlow && !s.keyAllowed then s.notAllowedHere "sequence entries"
  else
    let s := if s.inFlow then s else s.openBlock .blockSequence
    return (← (s.allow true).dropKey).take .blockEntry 1

def takeQuestionMark (s : Scan) : Read Scan := do
  if !s.inFlow && !s.keyAllowed then s.notAllowedHere "mapping keys"
  else
    let s := if s.inFlow then s else s.openBlock .blockMapping
    return (← (s.allow !s.inFlow).dropKey).take .key 1

/-- Makes the waiting token a key, and opens the block of its mapping if it is the first. -/
def makeKey (key : PossibleKey) (s : Scan) : Scan :=
  let opens := !s.inFlow && s.indent < (key.mark.column : Int)
  let added : Array Token :=
    (if opens then #[⟨.blockMapping, key.mark, key.mark⟩] else #[]) ++ #[⟨.key, key.mark, key.mark⟩]
  { s with
    tokens := s.tokens.extract 0 key.token ++ added ++ s.tokens.extract key.token s.tokens.size
    indent := if opens then key.mark.column else s.indent
    indents := if opens then s.indent :: s.indents else s.indents
    keys := s.keys.filter (·.1 ≠ s.flow)
    keyAllowed := false }

def takeColon (s : Scan) : Read Scan := do
  match s.keys.lookup s.flow with
  | some key => return (s.makeKey key).take .value 1
  | none =>
    if !s.inFlow && !s.keyAllowed then s.notAllowedHere "mapping values"
    else
      let s := if s.inFlow then s else s.openBlock .blockMapping
      return (← (s.allow !s.inFlow).dropKey).take .value 1

/-- A token that may be a key and that allows none behind it. -/
def takeNode (read : Input → Read (Token × Input)) (s : Scan) : Read Scan := do
  let s := (← s.saveKey).allow false
  let (token, input) ← read s.input
  return { s with tokens := s.tokens.push token, input }

def takeQuoted (quote : Char) (s : Scan) : Read Scan :=
  s.takeNode fun i => do
    let (text, after) ← quotedText quote i.mark (i.rest.length + 1) i.next
    return (⟨.scalar (.ofList text) false, i.mark, after.mark⟩, after)

def takeBlock (folded : Bool) (s : Scan) : Read Scan := do
  let s ← (s.allow true).dropKey
  let (text, input) ← readBlock folded s.indent s.input
  return { s with
    tokens := s.tokens.push ⟨.scalar (.ofList text) false, s.input.mark, input.mark⟩, input }

def takePlain (s : Scan) : Read Scan := do
  let s ← s.saveKey
  let i := s.input
  let plain := readPlain s.inFlow (s.indent + 1) (i.rest.length + 1) ⟨[], i.mark, false, i⟩ []
  return { s with
    tokens := s.tokens.push ⟨.scalar (.ofList plain.text) true, i.mark, plain.stop⟩
    keyAllowed := plain.keyAllowed
    input := plain.input }

/-- Goes to the next token, over blanks, comments and line breaks. -/
def toToken (fuel : Nat) (s : Scan) : Scan :=
  match fuel with
  | 0 => s
  | fuel + 1 =>
    let i := s.input.skipBlanks
    let i := if i.head == '#' then i.toLineEnd else i
    if isBreak i.head then
      toToken fuel { s with input := i.lineBreak.2, keyAllowed := s.keyAllowed || !s.inFlow }
    else { s with input := i }

/-- Whether a plain scalar may start here. -/
def startsPlain (s : Scan) : Bool :=
  let c := s.input.head
  !(isGap c || "-?:,[]\x7b\x7d#&*!|>'\"%@\x60".toList.contains c) ||
    (!isGap (s.input.look 1) && (c == '-' || (!s.inFlow && (c == '?' || c == ':'))))

/-- The token that begins at the character at hand. -/
def takeToken (s : Scan) : Read Scan := do
  let i := s.input
  let c := i.head
  let gapNext := isGap (i.look 1)
  if c == endOfText then s.finish
  else if c == '%' && i.mark.column == 0 then
    let s ← s.leaveBlocks
    let (token, input) ← readDirective s.input
    return { s with tokens := s.tokens.push token, input }
  else if c == '-' && i.atMarker '-' then return (← s.leaveBlocks).take .documentStart 3
  else if c == '.' && i.atMarker '.' then return (← s.leaveBlocks).take .documentEnd 3
  else if c == '[' then s.takeOpening .openSequence
  else if c == '\x7b' then s.takeOpening .openMapping
  else if c == ']' then s.takeClosing .closeSequence
  else if c == '\x7d' then s.takeClosing .closeMapping
  else if c == ',' then s.takeComma
  else if c == '-' && gapNext then s.takeDash
  else if c == '?' && (s.inFlow || gapNext) then s.takeQuestionMark
  else if c == ':' && (s.inFlow || gapNext) then s.takeColon
  else if c == '*' || c == '&' then s.takeNode readAnchor
  else if c == '!' then s.takeNode readTag
  else if c == '|' && !s.inFlow then s.takeBlock false
  else if c == '>' && !s.inFlow then s.takeBlock true
  else if c == '\'' || c == '"' then s.takeQuoted c
  else if s.startsPlain then s.takePlain
  else
    .error (.problem ⟨.tokens, some "while scanning for the next token", none,
      "found character " ++ shownChar c ++ " that cannot start any token", i.mark⟩)

/-- One more token. -/
def step (s : Scan) : Read Scan := do
  let s ← (s.toToken (s.input.rest.length + 1)).dropStaleKeys
  let s ← (s.closeBlocks s.column).takeToken
  if s.done then return s else s.dropStaleKeys

/-- The number of tokens that can be given away: none from a key that waits for its colon on. -/
def settled (s : Scan) : Nat :=
  s.keys.foldl (fun n (_, key) => min n key.token) s.tokens.size

end Scan

/-- Tokens, and the fault that comes behind them if the text has one. -/
structure Tokens where
  tokens : List Token
  fault : Option Fault

/-- The tokens of a text; every step takes a character. -/
def tokensFrom (fuel : Nat) (s : Scan) : Tokens :=
  match fuel with
  | 0 => ⟨s.tokens.toList, none⟩
  | fuel + 1 =>
    if s.done then ⟨s.tokens.toList, none⟩
    else match s.step with
      | .ok next => tokensFrom fuel next
      | .error fault => ⟨s.tokens.toList.take s.settled, some fault⟩

def tokensOf (text : List Char) : Tokens :=
  let i : Input := ⟨text, {}, 0⟩
  tokensFrom (text.length + 2) { input := if i.head == '\ufeff' then i.next else i }

end BulletScript.Yaml
