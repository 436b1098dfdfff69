import BulletScript.Text.Blank
import BulletScript.Text.Search

/-! How alike two names are, from 0 to 100, whether whole, in part, or as sets of words. -/
namespace BulletScript.Documents

open Text

/-- One row of the table of longest common subsequences: `above` holds the row before it, from the
second column on, `corner` and `left` the entries beside the first. -/
def commonRow (c : Char) (corner left : Nat) : List Char → List Nat → List Nat
  | d :: ds, up :: above =>
    let entry := if c = d then corner + 1 else max up left
    entry :: commonRow c up entry ds above
  | _, _ => []

/-- The length of the longest common subsequence. -/
def commonLength (a b : List Char) : Nat :=
  (a.foldl (fun row c => commonRow c 0 0 b row) (b.map fun _ => 0)).getLast?.getD 0

example : commonLength ['a', 'b', 'c', 'd'] ['b', 'x', 'd'] = 2 := by decide

/-- How many characters stand outside the longest common subsequence. -/
def editDistance (a b : List Char) : Nat := a.length + b.length - 2 * commonLength a b

/-- A score below a cutoff counts as nothing. -/
def cutOff (cutoff score : Float) : Float := if cutoff ≤ score then score else 0

/-- The share of characters in the longest common subsequence. -/
def ratio (a b : List Char) (cutoff : Float) : Float :=
  let total := a.length + b.length
  let distance := if total = 0 then 0 else (editDistance a b).toFloat / total.toFloat
  cutOff (cutoff / 100) (1 - distance) * 100

/-- The score of a distance between texts of some length together. -/
def distanceScore (distance total : Nat) (cutoff : Float) : Float :=
  cutOff cutoff (if total = 0 then 100 else 100 - 100 * distance.toFloat / total.toFloat)

/-- The parts of a text that a shorter one is held against: as long as it, or cut short at either
end. -/
def windows (size : Nat) (cs : List Char) : List (List Char) :=
  (List.range (size - 1)).map (fun n => cs.take (n + 1)) ++
    (List.range cs.length).map fun n => (cs.drop n).take size

def bestWindow (short long : List Char) (cutoff : Float) : Float :=
  (windows short.length long).foldl (fun best window => max best (ratio short window cutoff)) 0

/-- The best score of the shorter text against a part of the longer one. -/
def partialRatio (a b : List Char) (cutoff : Float) : Float :=
  let (short, long) := if b.length < a.length then (b, a) else (a, b)
  if cutoff > 100 then 0
  else if short.isEmpty then (if long.isEmpty then 100 else 0)
  else
    let score := bestWindow short long cutoff
    if score < 100 ∧ short.length = long.length then
      max score (bestWindow long short (max cutoff score))
    else score

def splitWords : List Char → List Char → List (List Char)
  | word, [] => if word.isEmpty then [] else [word.reverse]
  | word, c :: rest =>
    if isBlank c then (if word.isEmpty then [] else [word.reverse]) ++ splitWords [] rest
    else splitWords (c :: word) rest

/-- The words of a text in order. -/
def sortedWords (cs : List Char) : List (List Char) :=
  (splitWords [] cs).mergeSort fun a b => !decide (b < a)

def joinWords (ws : List (List Char)) : List Char := joinChars [' '] ws

/-- The words of two texts: those in both, only in the first, only in the second. -/
structure WordSets where
  common : List (List Char)
  first : List (List Char)
  second : List (List Char)

def wordSets (a b : List (List Char)) : WordSets where
  common := a.eraseDups.filter b.contains
  first := a.eraseDups.filter (!b.contains ·)
  second := b.eraseDups.filter (!a.contains ·)

/-- The best score of the words of two texts, in order or as sets. -/
def wordRatio (a b : List Char) (cutoff : Float) : Float :=
  if cutoff > 100 then 0
  else
    let wordsA := sortedWords a
    let wordsB := sortedWords b
    let sets := wordSets wordsA wordsB
    if !sets.common.isEmpty && (sets.first.isEmpty || sets.second.isEmpty) then 100
    else
      let onlyA := joinWords sets.first
      let onlyB := joinWords sets.second
      let common := (joinWords sets.common).length
      let gap := if common = 0 then 0 else 1
      let lengthA := common + gap + onlyA.length
      let lengthB := common + gap + onlyB.length
      let score := max (ratio (joinWords wordsA) (joinWords wordsB) cutoff)
        (distanceScore (editDistance onlyA onlyB) (lengthA + lengthB) cutoff)
      if common = 0 then score
      else max score (max (distanceScore (gap + onlyA.length) (common + lengthA) cutoff)
        (distanceScore (gap + onlyB.length) (common + lengthB) cutoff))

/-- The best score of the words of the shorter text against a part of the longer one. -/
def partialWordRatio (a b : List Char) (cutoff : Float) : Float :=
  if cutoff > 100 then 0
  else
    let wordsA := sortedWords a
    let wordsB := sortedWords b
    let sets := wordSets wordsA wordsB
    if !sets.common.isEmpty then 100
    else
      let score := partialRatio (joinWords wordsA) (joinWords wordsB) cutoff
      if wordsA.length = sets.first.length ∧ wordsB.length = sets.second.length then score
      else
        let firsts := joinWords sets.first
        max score (partialRatio firsts (joinWords sets.second) (max cutoff score))

/-- The likeness of two names: whole, by words, and in part where one is much longer, each way
weighed by how much it tells. -/
def similarity (a b : List Char) (cutoff : Float) : Float :=
  if a.isEmpty || b.isEmpty then 0
  else
    let lengthA := a.length.toFloat
    let lengthB := b.length.toFloat
    let lengths := if lengthA > lengthB then lengthA / lengthB else lengthB / lengthA
    let whole := ratio a b cutoff
    if lengths < 1.5 then max whole (wordRatio a b (max cutoff whole / 0.95) * 0.95)
    else
      let scale : Float := if lengths ≤ 8 then 0.9 else 0.6
      let best := max whole (partialRatio a b (max cutoff whole / scale) * scale)
      max best (partialWordRatio a b (max cutoff best / 0.95) * 0.95 * scale)

/-- The first of the most alike names, if its score reaches the cutoff. -/
def mostSimilar (wanted : String) (names : List String) (cutoff : Float) : Option String :=
  let scored := names.map fun name => (name, similarity wanted.toList name.toList cutoff)
  (scored.foldl (fun best (name, score) =>
    if score < cutoff then best
    else match best with
      | some (_, top) => if top < score then some (name, score) else best
      | none => some (name, score)) none).map (·.1)

end BulletScript.Documents
