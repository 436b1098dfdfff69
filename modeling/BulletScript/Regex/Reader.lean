import BulletScript.Regex.Syntax
import BulletScript.Number.Reader
import BulletScript.Text.Quoted

/-! The reader of regular expressions. -/
namespace BulletScript.Regex

/-- Why a text is no regular expression. -/
inductive Fault where
  | place (message : String) (position : Nat)
  | whole (message : String)
  | tooLarge
  deriving Repr, DecidableEq

/-- The words for a fault; the line and column are added when the source has several lines. -/
def Fault.message (source : List Char) : Fault → String
  | .place message position =>
    let before := source.take position
    let line := before.count '\n' + 1
    let column := position - (before.length - (before.reverse.takeWhile (· ≠ '\n')).length) + 1
    message ++ " at position " ++ toString position ++
      (if source.contains '\n' then
        " (line " ++ toString line ++ ", column " ++ toString column ++ ")" else "")
  | .whole message => message
  | .tooLarge => "the repetition number is too large"

/-- What is left to read, where that is, and what is known of the groups so far. -/
structure State where
  rest : List Char
  pos : Nat
  flags : Flags
  groups : Nat
  widths : List (Nat × Width)
  names : List (String × Nat)
  behindGroups : Option Nat
  conditions : List (Nat × Nat)
  unevenBehind : Bool

def State.start (flags : Flags) (source : List Char) : State :=
  ⟨source, 0, flags, 1, [], [], none, [], false⟩

abbrev Reader := StateT State (Except Fault)

/-- Fails at the place of the next token, less an offset. -/
def failAt {α : Type} (message : String) (offset : Nat) : Reader α := do
  throw (.place message ((← get).pos - offset))

/-- The next token: a character, or a backslash with the character after it. -/
def tokenOf : List Char → Option (List Char)
  | [] => none
  | '\\' :: c :: _ => some ['\\', c]
  | c :: _ => some [c]

def peek : Reader (Option (List Char)) := do return tokenOf (← get).rest

/-- A backslash may not be the last character. -/
def checkEnd : Reader Unit := do
  let s ← get
  if s.rest = ['\\'] then throw (.place "bad escape (end of pattern)" s.pos)

/-- Takes the next token. -/
def next : Reader (Option (List Char)) := do
  let s ← get
  match tokenOf s.rest with
  | none => return none
  | some token =>
    set { s with rest := s.rest.drop token.length, pos := s.pos + token.length }
    checkEnd
    return some token

/-- Takes the next token if it is the given character. -/
def accept (c : Char) : Reader Bool := do
  if (← peek) = some [c] then
    let _ ← next
    return true
  else return false

/-- Takes up to `n` tokens that are characters of a class. -/
def takeWhileUpTo (n : Nat) (test : Char → Bool) : Reader (List Char) :=
  match n with
  | 0 => return []
  | n + 1 => do
    match ← peek with
    | some [c] =>
      if test c then
        let _ ← next
        return c :: (← takeWhileUpTo n test)
      else return []
    | _ => return []

def isOctal (c : Char) : Bool := '0' ≤ c && c ≤ '7'

def isHex (c : Char) : Bool := c.isDigit || ('a' ≤ c && c ≤ 'f') || ('A' ≤ c && c ≤ 'F')

def numberIn (base : Nat) (digits : List Char) : Nat :=
  digits.foldl (fun n c => base * n + (if c.isDigit then c.toNat - 48
    else if 'a' ≤ c then c.toNat - 87 else c.toNat - 55)) 0

def textOf (cs : List Char) : String := .ofList cs

/-- The name up to a terminator, which is taken. -/
def takeName (terminator : Char) (what : String) (fuel : Nat) (name : List Char) :
    Reader (List Char) :=
  match fuel with
  | 0 => failAt ("missing " ++ what) 0
  | fuel + 1 => do
    match ← next with
    | none =>
      if name = [] then failAt ("missing " ++ what) 0
      else failAt ("missing " ++ terminator.toString ++ ", unterminated name") name.length
    | some token =>
      if token = [terminator] then
        if name = [] then failAt ("missing " ++ what) 1 else return name
      else takeName terminator what fuel (name ++ token)

def nameUntil (terminator : Char) : Reader (List Char) := do
  takeName terminator "group name" ((← get).rest.length + 1) []

def isIdentifier (cs : List Char) : Bool :=
  match cs with
  | [] => false
  | c :: rest => Text.isWord c && !Text.isDigitLike c && rest.all Text.isWord

def checkName (name : List Char) : Reader Unit := do
  if !isIdentifier name then
    failAt ("bad character in group name " ++ Text.shown (textOf name)) (name.length + 1)

/-- What an escape stands for. -/
inductive Escape where
  | code (n : Nat)
  | category (kind : Category) (negated : Bool)
  | anchor (a : Anchor)
  | group (index : Nat)

def categoryEscape? (c : Char) : Option Escape :=
  if c = 'd' then some (.category .digit false)
  else if c = 'D' then some (.category .digit true)
  else if c = 's' then some (.category .space false)
  else if c = 'S' then some (.category .space true)
  else if c = 'w' then some (.category .word false)
  else if c = 'W' then some (.category .word true)
  else none

def anchorEscape? (ascii : Bool) (c : Char) : Option Escape :=
  if c = 'A' then some (.anchor .textStart)
  else if c = 'Z' then some (.anchor .textEnd)
  else if c = 'b' then some (.anchor (.boundary ascii false))
  else if c = 'B' then some (.anchor (.boundary ascii true))
  else none

def controlEscape? (c : Char) : Option Nat :=
  if c = 'a' then some 7
  else if c = 'b' then some 8
  else if c = 'f' then some 12
  else if c = 'n' then some 10
  else if c = 'r' then some 13
  else if c = 't' then some 9
  else if c = 'v' then some 11
  else if c = '\\' then some 92
  else none

/-- A character given by exactly `count` hexadecimal digits. -/
def hexEscape (c : Char) (count : Nat) : Reader Escape := do
  let digits ← takeWhileUpTo count isHex
  let escape := '\\' :: c :: digits
  if digits.length ≠ count then
    failAt ("incomplete escape " ++ textOf escape) escape.length
  else
    let n := numberIn 16 digits
    if 0x110000 ≤ n then failAt ("bad escape " ++ textOf escape) escape.length
    else return .code n

/-- Names of characters are not known. -/
def namedEscape : Reader Escape := do
  if !(← accept '\x7b') then failAt "missing \x7b" 0
  else
    let name ← takeName '\x7d' "character name" ((← get).rest.length + 1) []
    failAt ("undefined character name " ++ Text.shown (textOf name)) (name.length + 4)

def badEscape (escape : List Char) : Reader Escape :=
  failAt ("bad escape " ++ textOf escape) escape.length

/-- The escapes that are the same inside and outside a set. -/
def commonEscape (c : Char) : Reader Escape :=
  if c = 'x' then hexEscape c 2
  else if c = 'u' then hexEscape c 4
  else if c = 'U' then hexEscape c 8
  else if c = 'N' then namedEscape
  else if c.isAlpha then badEscape ['\\', c]
  else return .code c.toNat

def octalEscape (digits : List Char) : Reader Escape := do
  let n := numberIn 8 digits
  if 0o377 < n then
    failAt ("octal escape value \\" ++ textOf digits ++ " outside of range 0-0o377")
      (digits.length + 1)
  else return .code n

def setEscape (c : Char) : Reader Escape :=
  match controlEscape? c with
  | some n => return .code n
  | none => match categoryEscape? c with
    | some e => return e
    | none =>
      if isOctal c then do octalEscape (c :: (← takeWhileUpTo 2 isOctal))
      else if c.isDigit then badEscape ['\\', c]
      else commonEscape c

def isClosed (s : State) (index : Nat) : Bool := (s.widths.lookup index).isSome

def checkBehind (index : Nat) : Reader Unit := do
  let s ← get
  match s.behindGroups with
  | none => return
  | some limit =>
    if !isClosed s index then failAt "cannot refer to an open group" 0
    else if limit ≤ index then
      failAt "cannot refer to group defined in the same lookbehind subpattern" 0

def groupEscape (digits : List Char) : Reader Escape := do
  let s ← get
  let index := numberIn 10 digits
  if index < s.groups then
    if !isClosed s index then failAt "cannot refer to an open group" (digits.length + 1)
    else
      checkBehind index
      return .group index
  else failAt ("invalid group reference " ++ toString index) digits.length

/-- A group number of one or two digits, or an octal escape of three. -/
def digitEscape (c : Char) : Reader Escape := do
  match ← takeWhileUpTo 1 Char.isDigit with
  | [d] =>
    if isOctal c && isOctal d then
      match ← takeWhileUpTo 1 isOctal with
      | [e] => octalEscape [c, d, e]
      | _ => groupEscape [c, d]
    else groupEscape [c, d]
  | _ => groupEscape [c]

def plainEscape (flags : Flags) (c : Char) : Reader Escape :=
  match categoryEscape? c with
  | some e => return e
  | none => match anchorEscape? flags.ascii c with
    | some e => return e
    | none => match controlEscape? c with
      | some n => return .code n
      | none =>
        if c = '0' then do
          return .code (numberIn 8 (c :: (← takeWhileUpTo 2 isOctal)))
        else if c.isDigit then digitEscape c
        else commonEscape c

def codeNode (flags : Flags) (n : Nat) : Node :=
  if flags.ignoreCase then .set ⟨false, [.code n], true, flags.ascii⟩
  else if n.isValidChar then .char (Char.ofNat n)
  else .never

/-- An item of a sequence, and whether a repetition may follow it. -/
inductive Item where
  | plain (node : Node)
  | anchor (node : Node)
  | repeated (node : Node)

def Item.node : Item → Node
  | .plain n | .anchor n | .repeated n => n

def Escape.item (flags : Flags) : Escape → Item
  | .code n => .plain (codeNode flags n)
  | .category kind negated =>
    .plain (.set ⟨false, [.category kind negated], flags.ignoreCase, flags.ascii⟩)
  | .anchor a => .anchor (.anchor a)
  | .group index => .plain (.backref index flags.ignoreCase flags.ascii)

/-- One end of a possible range, with the text that wrote it. -/
def setEnd (token : List Char) : Reader SetItem := do
  match token with
  | ['\\', c] => match ← setEscape c with
    | .category kind negated => return .category kind negated
    | .code n => return .code n
    | _ => return .code c.toNat
  | c :: _ => return .code c.toNat
  | [] => return .code 0

/-- The items of a set up to its bracket; a bracket that comes first is an item. -/
def readSet (start fuel : Nat) (items : List SetItem) : Reader (List SetItem) :=
  match fuel with
  | 0 => failAt "unterminated character set" 0
  | fuel + 1 => do
    let unterminated : Reader (List SetItem) := do
      failAt "unterminated character set" ((← get).pos - start)
    match ← next with
    | none => unterminated
    | some this =>
      if this = [']'] ∧ items ≠ [] then return items
      else
        let low ← setEnd this
        if ← accept '-' then
          match ← next with
          | none => unterminated
          | some that =>
            if that = [']'] then return items ++ [low, .code 45]
            else
              let high ← setEnd that
              let bad := "bad character range " ++ textOf this ++ "-" ++ textOf that
              let width := this.length + 1 + that.length
              match low, high with
              | .code lo, .code hi =>
                if hi < lo then failAt bad width
                else readSet start fuel (items ++ [.range lo hi])
              | _, _ => failAt bad width
        else readSet start fuel (items ++ [low])

/-- The bounds of a repetition in braces, after the opening one; `none` when it is none. -/
def readBounds : Reader (Option (List Char × List Char)) := do
  let n := (← get).rest.length
  let lo ← takeWhileUpTo n Char.isDigit
  let hi ← if ← accept ',' then takeWhileUpTo n Char.isDigit else pure lo
  if ← accept '\x7d' then return some (lo, hi) else return none

/-- The mark after a repetition. -/
def readMode : Reader Mode := do
  if ← accept '?' then return .lazily
  if ← accept '+' then return .possessive
  return .greedy

/-- The item that a repetition with these bounds makes of the last one. -/
def repeatItem (start min : Nat) (max : Option Nat) (items : List Item) : Reader (List Item) := do
  let offset := (← get).pos - start + 1
  match items with
  | [] | .anchor _ :: _ => failAt "nothing to repeat" offset
  | .repeated _ :: _ => failAt "multiple repeat" offset
  | .plain node :: before =>
    let mode ← readMode
    return .repeated (.loop min max mode node) :: before

def boundOf (digits : List Char) : Reader (Option Nat) := do
  if digits = [] then return none
  let n := numberIn 10 digits
  if bound ≤ n then throw .tooLarge else return some n

def isFlag (c : Char) : Bool := "iLmsxatu".toList.contains c

def setFlag (on : Bool) (c : Char) (flags : Flags) : Flags :=
  if c = 'i' then { flags with ignoreCase := on }
  else if c = 'm' then { flags with multiline := on }
  else if c = 's' then { flags with dotAll := on }
  else if c = 'x' then { flags with verbose := on }
  else if c = 'a' then { flags with ascii := on }
  else if c = 'u' then { flags with ascii := false }
  else flags

def unknownFlag {α : Type} (c : List Char) (otherwise : String) : Reader α :=
  failAt (if (c.head?.map Char.isAlpha).getD false then "unknown flag" else otherwise) c.length

/-- The flags to turn on, from the first letter to the mark that ends them. -/
def readOn (fuel : Nat) (c : Char) (on : List Char) : Reader (List Char × Char) :=
  match fuel with
  | 0 => failAt "missing -, : or )" 0
  | fuel + 1 => do
    if c = 'L' then failAt "bad inline flags: cannot use 'L' flag with a str pattern" 0
    else
      let on := on ++ [c]
      if (c = 'a' ∨ c = 'u') ∧ on.contains 'a' ∧ on.contains 'u' then
        failAt "bad inline flags: flags 'a', 'u' and 'L' are incompatible" 0
      else match ← next with
        | none => failAt "missing -, : or )" 0
        | some token => match token with
          | [d] =>
            if d = ')' ∨ d = '-' ∨ d = ':' then return (on, d)
            else if isFlag d then readOn fuel d on
            else unknownFlag token "missing -, : or )"
          | _ => unknownFlag token "missing -, : or )"

def readOff (fuel : Nat) (off : List Char) : Reader (List Char) :=
  match fuel with
  | 0 => failAt "missing flag" 0
  | fuel + 1 => do
    match ← next with
    | none => failAt (if off = [] then "missing flag" else "missing :") 0
    | some token => match token with
      | [d] =>
        if d = ':' ∧ off ≠ [] then return off
        else if isFlag d then
          if d = 'a' ∨ d = 'u' ∨ d = 'L' then
            failAt "bad inline flags: cannot turn off flags 'a', 'u' and 'L'" 0
          else readOff fuel (off ++ [d])
        else unknownFlag token (if off = [] then "missing flag" else "missing :")
      | _ => unknownFlag token (if off = [] then "missing flag" else "missing :")

/-- Inline flags from their first letter: `none` when they hold for the whole expression. -/
def readFlags (c : Char) : Reader (Option (List Char × List Char)) := do
  let fuel := (← get).rest.length + 2
  let (on, mark) ← if c = '-' then pure ([], '-') else readOn fuel c []
  if mark = ')' then
    modify fun s => { s with flags := on.foldl (fun f c => setFlag true c f) s.flags }
    return none
  else if on.contains 't' then failAt "bad inline flags: cannot turn on global flag" 1
  else
    let off ← if mark = '-' then readOff fuel [] else pure []
    if off.contains 't' then failAt "bad inline flags: cannot turn off global flag" 1
    else if on.any off.contains then failAt "bad inline flags: flag turned on and off" 1
    else return some (on, off)

/-- Opens a group and gives its number. -/
def openGroup (name : Option String) : Reader Nat := do
  let s ← get
  let index := s.groups
  match name with
  | none => set { s with groups := index + 1 }
  | some name => match s.names.lookup name with
    | some earlier => failAt ("redefinition of group name " ++ Text.shown name ++ " as group " ++
        toString index ++ "; was group " ++ toString earlier) (name.length + 1)
    | none => set { s with groups := index + 1, names := s.names ++ [(name, index)] }
  return index

/-- A closed group may be referred to. -/
def closeGroup (index : Nat) (inner : Node) : Reader Unit :=
  modify fun s => { s with widths := (index, inner.width s.widths) :: s.widths }

def nameIndex (name : List Char) : Reader Nat := do
  match (← get).names.lookup (textOf name) with
  | some index => return index
  | none => failAt ("unknown group name " ++ Text.shown (textOf name)) (name.length + 1)

/-- The group that a condition asks for, by name or by number. -/
def conditionGroup (name : List Char) : Reader Nat := do
  if isIdentifier name then nameIndex name
  else match Number.readInt? (textOf name) with
    | some (.ofNat index) =>
      if index = 0 then failAt "bad group number" (name.length + 1)
      else if 1073741823 ≤ index then
        failAt ("invalid group reference " ++ toString index) (name.length + 1)
      else
        modify fun s => if (s.conditions.lookup index).isSome then s
          else { s with conditions := s.conditions ++ [(index, s.pos - name.length - 1)] }
        return index
    | _ => failAt ("bad character in group name " ++ Text.shown (textOf name)) (name.length + 1)

/-- Skips a comment group up to its bracket. -/
def skipComment (start fuel : Nat) : Reader Unit :=
  match fuel with
  | 0 => return
  | fuel + 1 => do
    match ← peek with
    | none => failAt "missing ), unterminated comment" ((← get).pos - start)
    | some _ =>
      if (← next) = some [')'] then return else skipComment start fuel

/-- Skips a comment of the verbose form up to the end of its line. -/
def skipLine (fuel : Nat) : Reader Unit :=
  match fuel with
  | 0 => return
  | fuel + 1 => do
    match ← next with
    | none => return
    | some token => if token = ['\n'] then return else skipLine fuel

def isPatternSpace (c : Char) : Bool := " \t\n\r\x0b\x0c".toList.contains c

/-- The bracket that closes what was opened at `start`. -/
def closing (start : Nat) : Reader Unit := do
  if !(← accept ')') then
    failAt "missing ), unterminated subpattern" ((← get).pos - start)

def endOfPattern {α : Type} : Reader α := failAt "unexpected end of pattern" 0

/-- What the marks after an opening bracket ask for. -/
inductive Opening where
  | capture (name : Option String)
  | flagged (on off : List Char)
  | atomic
  | look (behind negated : Bool)
  | condition (name : List Char)
  | done (item : Option Item)

/-- Reads the marks after an opening bracket at `start`. -/
def readOpening (flags : Flags) (start : Nat) (maySetFlags : Bool) : Reader Opening := do
  if !(← accept '?') then return .capture none
  match ← next with
  | none => endOfPattern
  | some token => match token with
    | ['P'] =>
      if ← accept '<' then
        let name ← nameUntil '>'
        checkName name
        return .capture (some (textOf name))
      else if ← accept '=' then
        let name ← nameUntil ')'
        checkName name
        let index ← nameIndex name
        if !isClosed (← get) index then
          failAt "cannot refer to an open group" (name.length + 1)
        else
          checkBehind index
          return .done (some (.plain (.backref index flags.ignoreCase flags.ascii)))
      else match ← next with
        | none => endOfPattern
        | some other => failAt ("unknown extension ?P" ++ textOf other) (other.length + 2)
    | [':'] => return .flagged [] []
    | ['#'] =>
      skipComment start ((← get).rest.length + 1)
      return .done none
    | ['='] => return .look false false
    | ['!'] => return .look false true
    | ['<'] => match ← next with
      | none => endOfPattern
      | some ['='] => return .look true false
      | some ['!'] => return .look true true
      | some other => failAt ("unknown extension ?<" ++ textOf other) (other.length + 2)
    | ['('] => return .condition (← nameUntil ')')
    | ['>'] => return .atomic
    | [c] =>
      if isFlag c ∨ c = '-' then
        match ← readFlags c with
        | some (on, off) => return .flagged on off
        | none =>
          if maySetFlags then return .done none
          else failAt "global flags not at the start of the expression" ((← get).pos - start)
      else failAt ("unknown extension ?" ++ textOf token) (token.length + 1)
    | _ => failAt ("unknown extension ?" ++ textOf token) (token.length + 1)

mutual

/-- Alternatives. At the top, flags set inside hold for the rest. -/
def readAlternatives (fuel : Nat) (flags : Flags) (top : Bool) : Reader Node :=
  match fuel with
  | 0 => endOfPattern
  | fuel + 1 => do
    let first ← readSequence fuel flags top top []
    readMoreAlternatives fuel flags top first

def readMoreAlternatives (fuel : Nat) (flags : Flags) (top : Bool) (left : Node) : Reader Node :=
  match fuel with
  | 0 => endOfPattern
  | fuel + 1 => do
    if ← accept '|' then
      let s ← get
      let flags := if top then s.flags else flags
      let right ← readSequence fuel flags top false []
      return .alt left (← readMoreAlternatives fuel flags top right)
    else return left

/-- A sequence, the items already read in reverse. -/
def readSequence (fuel : Nat) (flags : Flags) (top first : Bool) (items : List Item) :
    Reader Node :=
  match fuel with
  | 0 => endOfPattern
  | fuel + 1 => do
    match ← peek with
    | none => return Node.ofList (items.reverse.map Item.node)
    | some this =>
      if this = ['|'] ∨ this = [')'] then return Node.ofList (items.reverse.map Item.node)
      else
        let _ ← next
        let go (items : List Item) : Reader Node := readSequence fuel flags top first items
        let here := (← get).pos
        match this with
        | ['\\', c] => do go ((← plainEscape flags c).item flags :: items)
        | [c] =>
          if flags.verbose ∧ isPatternSpace c then go items
          else if flags.verbose ∧ c = '#' then
            skipLine ((← get).rest.length + 1)
            go items
          else if c = '[' then
            let negated ← accept '^'
            let set ← readSet (here - 1) ((← get).rest.length + 1) []
            go (.plain (.set ⟨negated, set, flags.ignoreCase, flags.ascii⟩) :: items)
          else if c = '*' then do go (← repeatItem here 0 none items)
          else if c = '+' then do go (← repeatItem here 1 none items)
          else if c = '?' then do go (← repeatItem here 0 (some 1) items)
          else if c = '\x7b' then
            if (← peek) = some ['\x7d'] then go (.plain (codeNode flags c.toNat) :: items)
            else
              let before ← get
              match ← readBounds with
              | none =>
                set before
                go (.plain (codeNode flags c.toNat) :: items)
              | some (lo, hi) =>
                let min ← boundOf lo
                let max ← boundOf hi
                if max.any (· < min.getD 0) then
                  failAt "min repeat greater than max repeat" ((← get).pos - here)
                else go (← repeatItem here (min.getD 0) max items)
          else if c = '.' then go (.plain (.any flags.dotAll) :: items)
          else if c = '^' then
            go (.anchor (.anchor (if flags.multiline then .lineStart else .textStart)) :: items)
          else if c = '$' then
            go (.anchor (.anchor (if flags.multiline then .lineEnd else .lastLineEnd)) :: items)
          else if c = '(' then
            match ← readOpening flags (here - 1) (first && items.isEmpty) with
            | .done none =>
              let s ← get
              let flags := if top then s.flags else flags
              readSequence fuel flags top first items
            | .done (some item) => go (item :: items)
            | opening => do go ((← readGroup fuel flags (here - 1) opening) :: items)
          else go (.plain (codeNode flags c.toNat) :: items)
        | _ => go items

/-- The contents of a group opened at `start`, up to its bracket. -/
def readGroup (fuel : Nat) (flags : Flags) (start : Nat) (opening : Opening) : Reader Item :=
  match fuel with
  | 0 => endOfPattern
  | fuel + 1 => do
    match opening with
    | .capture name =>
      let index ← openGroup name
      let inner ← readAlternatives fuel flags false
      closing start
      closeGroup index inner
      return .plain (.group index inner)
    | .flagged on off =>
      let changed := off.foldl (fun f c => setFlag false c f)
        (on.foldl (fun f c => setFlag true c f) flags)
      let inner ← readAlternatives fuel changed false
      closing start
      return .plain inner
    | .atomic =>
      let inner ← readAlternatives fuel flags false
      closing start
      return .plain (.atomic inner)
    | .look behind negated =>
      let outer := (← get).behindGroups
      if behind ∧ outer.isNone then
        modify fun s => { s with behindGroups := some s.groups }
      let inner ← readAlternatives fuel flags false
      if behind ∧ outer.isNone then modify fun s => { s with behindGroups := none }
      closing start
      if behind then
        let width := inner.width (← get).widths
        if width.least ≠ width.greatest then modify fun s => { s with unevenBehind := true }
        return .plain (.behind negated width.least inner)
      else return .plain (.ahead negated inner)
    | .condition name =>
      let index ← conditionGroup name
      checkBehind index
      let yes ← readSequence fuel flags false false []
      let no ← if ← accept '|' then
          let no ← readSequence fuel flags false false []
          if (← peek) = some ['|'] then
            failAt "conditional backref with more than two branches" 0
          else pure no
        else pure Node.empty
      closing start
      return .plain (.ifGroup index yes no)
    | .done _ => return .plain .empty

end

/-- Fuel for reading a source: no token costs more than four calls. -/
def fuelFor (source : List Char) : Nat := 4 * source.length + 8

/-- The checks once all is read: conditions name groups that exist, and what is looked behind has
one width. -/
def finish (node : Node) : Reader Regex := do
  let s ← get
  match s.conditions.find? fun (index, _) => s.groups ≤ index with
  | some (index, place) => throw (.place ("invalid group reference " ++ toString index) place)
  | none =>
    if s.unevenBehind then throw (.whole "look-behind requires fixed-width pattern")
    else return ⟨node, s.groups - 1, s.names⟩

def readWhole : Reader Regex := do
  checkEnd
  let s ← get
  let node ← readAlternatives (fuelFor s.rest) s.flags true
  if (← peek).isSome then failAt "unbalanced parenthesis" 0 else finish node

/-- The regular expression that a source writes. -/
def read (flags : Flags) (source : List Char) : Except Fault Regex :=
  (readWhole.run (.start flags source)).map (·.1)

end BulletScript.Regex
