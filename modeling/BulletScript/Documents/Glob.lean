import BulletScript.Text.Search

/-! File name patterns: `*` stands for any characters, `?` for one, and brackets for a set. -/
namespace BulletScript.Documents

/-- A part of a pattern; a set holds ranges by their ends. -/
inductive GlobPart where
  | char (c : Char)
  | one
  | any
  | set (negated : Bool) (ranges : List (Char × Char))
  deriving Repr, DecidableEq

/-- The inside of brackets cut at its hyphens. The first `keep` characters are no cuts, nor are
the two after a cut; a hyphen at the end belongs to the piece before it. -/
def setPieces (keep : Nat) (piece : List Char) : List Char → List (List Char)
  | [] => [piece.reverse]
  | c :: rest =>
    if 0 < keep then setPieces (keep - 1) (c :: piece) rest
    else if c = '-' then
      if rest.isEmpty then [('-' :: piece).reverse] else piece.reverse :: setPieces 2 [] rest
    else setPieces 0 (c :: piece) rest

/-- Neighbouring pieces make a range of the characters at their border; where that range is empty
both characters are dropped and the pieces are one. -/
def joinEmpty : List (List Char) → List (List Char)
  | [] => []
  | piece :: rest =>
    match joinEmpty rest with
    | [] => [piece]
    | next :: more =>
      match piece.getLast?, next.head? with
      | some last, some first =>
        if first < last then (piece.dropLast ++ next.drop 1) :: more else piece :: next :: more
      | _, _ => piece :: next :: more

def setRanges : List (List Char) → List (Char × Char)
  | [] => []
  | piece :: rest =>
    let border := match piece.getLast?, rest.head?.bind List.head? with
      | some last, some first => [(last, first)]
      | _, _ => []
    piece.map (fun c => (c, c)) ++ border ++ setRanges rest

/-- The set that the inside of brackets describes. -/
def setOf (inside : List Char) : GlobPart :=
  let pieces := joinEmpty (setPieces (if inside.head? = some '!' then 2 else 1) [] inside)
  match pieces with
  | ('!' :: piece) :: rest => .set true (setRanges (piece :: rest))
  | pieces => .set false (setRanges pieces)

/-- The inside of brackets that open before a text, and what follows them; a bracket right at the
start, or behind an exclamation mark there, closes nothing. -/
def cutSet? (cs : List Char) : Option (List Char × List Char) :=
  let head := match cs with
    | '!' :: ']' :: _ => 2
    | '!' :: _ => 1
    | ']' :: _ => 1
    | _ => 0
  let inside := cs.take head ++ (cs.drop head).takeWhile (· ≠ ']')
  if inside.length < cs.length then some (inside, cs.drop (inside.length + 1)) else none

def globParts (fuel : Nat) : List Char → List GlobPart
  | [] => []
  | c :: rest =>
    match fuel with
    | 0 => []
    | fuel + 1 =>
      if c = '*' then .any :: globParts fuel rest
      else if c = '?' then .one :: globParts fuel rest
      else if c = '[' then
        match cutSet? rest with
        | some (inside, after) => setOf inside :: globParts fuel after
        | none => .char '[' :: globParts fuel rest
      else .char c :: globParts fuel rest

def GlobPart.accepts : GlobPart → Char → Bool
  | .char d, c => c = d
  | .one, _ => true
  | .any, _ => true
  | .set negated ranges, c => negated != ranges.any fun (lo, hi) => lo ≤ c && c ≤ hi

def tails : List Char → List (List Char)
  | [] => [[]]
  | c :: rest => (c :: rest) :: tails rest

def globAccepts : List GlobPart → List Char → Bool
  | [], cs => cs.isEmpty
  | .any :: parts, cs => (tails cs).any (globAccepts parts)
  | part :: parts, c :: cs => part.accepts c && globAccepts parts cs
  | _ :: _, [] => false

/-- Whether a pattern stands for the whole of a name. -/
def globMatches (pattern name : String) : Bool :=
  globAccepts (globParts (pattern.toList.length + 1) pattern.toList) name.toList

end BulletScript.Documents
