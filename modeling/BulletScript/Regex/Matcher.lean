import BulletScript.Regex.Syntax

/-! Matching by backtracking: alternatives from left to right, loops as long or as short as their
mode asks, and groups that remember what they matched last. -/
namespace BulletScript.Regex

/-- Where each group last matched, the latest first. -/
abbrev Captures := List (Nat × Nat × Nat)

/-- Where a match ends, with its groups. -/
abbrev Found := Option (Nat × Captures)

/-- What has to match after a node. -/
abbrev Rest := Nat → Captures → Found

def boundaryAt (ascii : Bool) (text : Array Char) (pos : Nat) : Bool :=
  let wordAt (i : Nat) : Bool := (text[i]?.map (Category.word.contains ascii)).getD false
  let before := if pos = 0 then false else wordAt (pos - 1)
  before != wordAt pos

/-- An empty text has no place that is a boundary and none that is not. -/
def Anchor.holds (a : Anchor) (text : Array Char) (pos : Nat) : Bool :=
  match a with
  | .textStart => pos == 0
  | .textEnd => pos == text.size
  | .lineStart => pos == 0 || text[pos - 1]? == some '\n'
  | .lineEnd => pos == text.size || text[pos]? == some '\n'
  | .lastLineEnd => pos == text.size || (pos + 1 == text.size && text[pos]? == some '\n')
  | .boundary ascii negated => text.size != 0 && boundaryAt ascii text pos != negated

/-- One character that passes a test. -/
def matchChar (text : Array Char) (test : Char → Bool) (pos : Nat) (caps : Captures)
    (rest : Rest) : Found :=
  match text[pos]? with
  | some c => if test c then rest (pos + 1) caps else none
  | none => none

/-- The text of an earlier group again. -/
def matchAgain (text : Array Char) (ignoreCase ascii : Bool) (start stop pos : Nat)
    (caps : Captures) (rest : Rest) : Found :=
  let same (i : Nat) : Bool := match text[start + i]?, text[pos + i]? with
    | some a, some b => if ignoreCase then lowerCode ascii a == lowerCode ascii b else a == b
    | _, _ => false
  let width := stop - start
  if (List.range width).all same then rest (pos + width) caps else none

/-- A loop body with its position, groups and what follows. -/
abbrev Body := Nat → Captures → Rest → Found

/-- Repeats a body between `min` and `max` times, the last start being known once the minimum is
reached. A round that would start where the last one did is not tried, so every round past the
minimum moves on or is the last: the fuel bounds the rounds. -/
def repeatFrom (body : Body) (min : Nat) (max : Option Nat) (lazily : Bool) (fuel count : Nat)
    (last : Option Nat) (pos : Nat) (caps : Captures) (rest : Rest) : Found :=
  match fuel with
  | 0 => rest pos caps
  | fuel + 1 =>
    if count < min then
      body pos caps fun p c => repeatFrom body min max lazily fuel (count + 1) last p c rest
    else
      let again (_ : Unit) : Found :=
        if max.all (count < ·) ∧ last ≠ some pos then
          body pos caps fun p c =>
            repeatFrom body min max lazily fuel (count + 1) (some pos) p c rest
        else none
      if lazily then (rest pos caps).or (again ()) else (again ()).or (rest pos caps)

/-- Repeats a body as often as it goes, keeping the first way it matches each time. -/
def repeatFirm (body : Body) (min : Nat) (max : Option Nat) (fuel count : Nat)
    (last : Option Nat) (pos : Nat) (caps : Captures) : Found :=
  match fuel with
  | 0 => some (pos, caps)
  | fuel + 1 =>
    if count < min then
      match body pos caps fun p c => some (p, c) with
      | some (p, c) => repeatFirm body min max fuel (count + 1) last p c
      | none => none
    else if max.all (count < ·) ∧ last ≠ some pos then
      match body pos caps fun p c => some (p, c) with
      | some (p, c) => repeatFirm body min max fuel (count + 1) (some pos) p c
      | none => some (pos, caps)
    else some (pos, caps)

/-- The first way in which a node matches at a position and the rest after it. -/
def run (text : Array Char) : Node → Nat → Captures → Rest → Found
  | .empty, pos, caps, rest => rest pos caps
  | .never, _, _, _ => none
  | .char c, pos, caps, rest => matchChar text (· == c) pos caps rest
  | .any dotAll, pos, caps, rest => matchChar text (fun c => dotAll || c != '\n') pos caps rest
  | .set s, pos, caps, rest => matchChar text s.contains pos caps rest
  | .anchor a, pos, caps, rest => if a.holds text pos then rest pos caps else none
  | .seq a b, pos, caps, rest => run text a pos caps fun p c => run text b p c rest
  | .alt a b, pos, caps, rest => (run text a pos caps rest).or (run text b pos caps rest)
  | .group index inner, pos, caps, rest =>
    run text inner pos caps fun p c => rest p ((index, pos, p) :: c)
  | .loop min max mode inner, pos, caps, rest =>
    let fuel := min + (text.size - pos) + 2
    match mode with
    | .greedy => repeatFrom (run text inner) min max false fuel 0 none pos caps rest
    | .lazily => repeatFrom (run text inner) min max true fuel 0 none pos caps rest
    | .possessive => match repeatFirm (run text inner) min max fuel 0 none pos caps with
      | some (p, c) => rest p c
      | none => none
  | .ahead negated inner, pos, caps, rest =>
    match run text inner pos caps fun p c => some (p, c) with
    | some (_, c) => if negated then none else rest pos c
    | none => if negated then rest pos caps else none
  | .behind negated width inner, pos, caps, rest =>
    let found := if pos < width then none
      else run text inner (pos - width) caps fun p c => some (p, c)
    match found with
    | some (_, c) => if negated then none else rest pos c
    | none => if negated then rest pos caps else none
  | .atomic inner, pos, caps, rest =>
    match run text inner pos caps fun p c => some (p, c) with
    | some (p, c) => rest p c
    | none => none
  | .backref index ignoreCase ascii, pos, caps, rest =>
    match caps.lookup index with
    | some (start, stop) => matchAgain text ignoreCase ascii start stop pos caps rest
    | none => none
  | .ifGroup index yes no, pos, caps, rest =>
    if (caps.lookup index).isSome then run text yes pos caps rest else run text no pos caps rest

/-- A match: its start, its end and its groups. -/
structure Match where
  start : Nat
  stop : Nat
  captures : Captures
  deriving Repr, DecidableEq

/-- The characters between two positions. -/
def slice (text : Array Char) (start stop : Nat) : String :=
  .ofList (text.extract start stop).toList

def Match.whole (text : Array Char) (m : Match) : String := slice text m.start m.stop

/-- What a group matched, if it took part. -/
def Match.group? (text : Array Char) (m : Match) (index : Nat) : Option String :=
  (m.captures.lookup index).map fun (start, stop) => slice text start stop

/-- A match that starts at `pos`; an empty one only if that is allowed. -/
def matchAt (r : Regex) (text : Array Char) (pos : Nat) (mayBeEmpty : Bool) : Option Match :=
  (run text r.node pos [] fun p c => if p = pos ∧ !mayBeEmpty then none else some (p, c)).map
    fun (p, c) => ⟨pos, p, c⟩

/-- A match of the whole text. -/
def fullMatch (r : Regex) (text : Array Char) : Option Match :=
  (run text r.node 0 [] fun p c => if p = text.size then some (p, c) else none).map
    fun (p, c) => ⟨0, p, c⟩

/-- The first match that starts at one of the next `count` positions; an empty one is not allowed
at the first of them if `mayBeEmpty` is false. -/
def searchFrom (r : Regex) (text : Array Char) (mayBeEmpty : Bool) :
    (count pos : Nat) → Option Match
  | 0, _ => none
  | count + 1, pos => match matchAt r text pos mayBeEmpty with
    | some m => some m
    | none => searchFrom r text true count (pos + 1)

/-- The first match in a text. -/
def search (r : Regex) (text : Array Char) : Option Match :=
  searchFrom r text true (text.size + 1) 0

/-- All matches from left to right. Two of them never overlap, and an empty one never stands where
the one before it was empty. -/
def allFrom (r : Regex) (text : Array Char) (fuel pos : Nat) (mayBeEmpty : Bool) : List Match :=
  match fuel with
  | 0 => []
  | fuel + 1 =>
    if text.size < pos then []
    else match searchFrom r text mayBeEmpty (text.size + 1 - pos) pos with
      | none => []
      | some m => m :: allFrom r text fuel m.stop (m.stop ≠ m.start)

def all (r : Regex) (text : Array Char) : List Match :=
  allFrom r text (2 * text.size + 2) 0 true

end BulletScript.Regex
