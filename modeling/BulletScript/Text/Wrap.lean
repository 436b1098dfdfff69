import BulletScript.Text.Blank
import BulletScript.Text.Lines
import BulletScript.Text.Word

/-! Lines filled with words up to a width. -/
namespace BulletScript.Text

def isLetter (c : Char) : Bool := isWord c && !isDecimal c

/-- A character of a word that a dash may follow. -/
def endsPhrase (c : Char) : Bool := isWord c || "!\"'&.,?".toList.contains c

/-- A dash of two hyphens or more in front of a word, behind another; `back` is what stands before
it, the nearest first. -/
def dashLength (back cs : List Char) : Nat :=
  let dash := cs.takeWhile (· = '-')
  if back.head?.any endsPhrase && 2 ≤ dash.length && (cs.drop dash.length).head?.any isWord then
    dash.length
  else 0

/-- Whether a word may be broken behind a hyphen: letters stand on both sides, two of them or one
beside another hyphen. -/
def breaksAtHyphen (back rest : List Char) : Bool :=
  (match back with
    | a :: '-' :: b :: _ => isLetter a && isLetter b
    | a :: b :: _ => isLetter a && isLetter b
    | _ => false) &&
  match rest with
    | a :: '-' :: b :: _ => isLetter a && isLetter b
    | a :: b :: _ => isLetter a && isLetter b
    | _ => false

/-- The number of characters up to the end of a word, or up to a place where it may be broken. -/
def wordLength (back : List Char) : List Char → Nat
  | [] => 0
  | c :: rest =>
    if c = ' ' then 0
    else if c = '-' && breaksAtHyphen back rest then 1
    else if dashLength back (c :: rest) ≠ 0 then 0
    else 1 + wordLength (c :: back) rest

/-- The length of the first chunk of a text behind its first character. -/
def chunkTail (back : List Char) (c : Char) (rest : List Char) : Nat :=
  if c = ' ' then (rest.takeWhile (· = ' ')).length
  else
    let dash := dashLength back (c :: rest)
    if dash ≠ 0 then dash - 1 else wordLength (c :: back) rest

/-- A text cut into runs of blanks and the pieces of words between which a line may end. -/
def wrapChunks (back : List Char) : List Char → List (List Char)
  | [] => []
  | c :: rest =>
    let n := chunkTail back c rest
    let chunk := c :: rest.take n
    chunk :: wrapChunks (chunk.reverse ++ back) (rest.drop n)
termination_by cs => cs.length
decreasing_by simp only [List.length_drop, List.length_cons]; omega

/-- Chunks put on a line as long as they fit. -/
def fillLine (width length : Nat) : List (List Char) → List (List Char) × List (List Char)
  | [] => ([], [])
  | chunk :: rest =>
    if length + chunk.length ≤ width then
      let (line, more) := fillLine width (length + chunk.length) rest
      (chunk :: line, more)
    else ([], chunk :: rest)

/-- Where a chunk too long for any line is broken: behind its last hyphen that fits, if it is not
all hyphens up to there. -/
def breakPoint (room : Nat) (chunk : List Char) : Nat :=
  let head := (chunk.take room).reverse.dropWhile (· ≠ '-')
  if room < chunk.length && 1 < head.length && head.any (· ≠ '-') then head.length else room

def isBlankChunk (chunk : List Char) : Bool := chunk.all isBlank

/-- One line and what is left after it. -/
def cutLine (width : Nat) (chunks : List (List Char)) : List Char × List (List Char) :=
  let (line, rest) := fillLine width 0 chunks
  let (line, rest) := match rest with
    | chunk :: more =>
      if width < chunk.length then
        let n := breakPoint (width - line.flatten.length) chunk
        (line ++ [chunk.take n], chunk.drop n :: more)
      else (line, rest)
    | [] => (line, rest)
  ((if line.getLast?.any isBlankChunk then line.dropLast else line).flatten, rest)

/-- The lines of some chunks; blanks at the start of a line are dropped, but for the first. -/
def wrapLines (width : Nat) : Nat → Bool → List (List Char) → List (List Char)
  | 0, _, _ => []
  | _, _, [] => []
  | fuel + 1, first, chunk :: rest =>
    let chunks := if !first && isBlankChunk chunk then rest else chunk :: rest
    let (line, rest) := cutLine width chunks
    let more := wrapLines width fuel (first && line.isEmpty) rest
    if line.isEmpty then more else line :: more

/-- A line broken into lines of at most some width, its tabs filled and its blanks made plain. -/
def wrap (width : Nat) (s : String) : List String :=
  let plain := (expandTabsFrom 8 0 s.toList).map fun c =>
    if "\t\n\x0b\x0c\r".toList.contains c then ' ' else c
  (wrapLines width (2 * plain.length + 2) true (wrapChunks [] plain)).map .ofList

end BulletScript.Text
