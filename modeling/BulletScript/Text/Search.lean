/-! Finding, cutting, splitting and replacing parts of a text. -/
namespace BulletScript.Text

/-- The text before and after the first occurrence of `needle`. -/
def cutChars (needle : List Char) : List Char → Option (List Char × List Char)
  | [] => if needle = [] then some ([], []) else none
  | c :: rest =>
    if needle.isPrefixOf (c :: rest) then some ([], (c :: rest).drop needle.length)
    else (cutChars needle rest).map fun (before, after) => (c :: before, after)

example : cutChars ['{', '{'] ['a', '{', '{', '{'] = some (['a'], ['{']) := by decide

theorem cutChars_eq {needle cs before after : List Char}
    (h : cutChars needle cs = some (before, after)) : cs = before ++ needle ++ after := by
  induction cs generalizing before with
  | nil =>
    simp only [cutChars] at h
    split at h <;> simp_all
  | cons c rest ih =>
    simp only [cutChars] at h
    split at h
    · rename_i hp
      simp only [Option.some.injEq, Prod.mk.injEq] at h
      obtain ⟨t, ht⟩ := List.isPrefixOf_iff_prefix.1 hp
      rw [← h.1, ← h.2, ← ht]
      simp
    · cases hr : cutChars needle rest with
      | none => simp [hr] at h
      | some p =>
        obtain ⟨b, a⟩ := p
        simp only [hr, Option.map_some, Option.some.injEq, Prod.mk.injEq] at h
        rw [← h.1, ih (hr.trans (by rw [h.2]))]
        simp

theorem cutChars_length_lt {needle cs before after : List Char} (hn : needle ≠ [])
    (h : cutChars needle cs = some (before, after)) : after.length < cs.length := by
  have := cutChars_eq h
  have : 0 < needle.length := List.length_pos_iff.2 hn
  grind

/-- The pieces of a text between the occurrences of a non-empty `needle`, left to right. -/
def splitChars (needle : List Char) (cs : List Char) : List (List Char) :=
  if hn : needle = [] then [cs]
  else match h : cutChars needle cs with
    | none => [cs]
    | some (before, after) =>
      have := cutChars_length_lt hn h
      before :: splitChars needle after
  termination_by cs.length

def joinChars (sep : List Char) (pieces : List (List Char)) : List Char :=
  sep.intercalate pieces

/-- The text with every occurrence of `needle` replaced. -/
def replaceChars (needle image : List Char) (cs : List Char) : List Char :=
  joinChars image (splitChars needle cs)

/-- The text before and after the first occurrence of `needle`. -/
def cut? (needle s : String) : Option (String × String) :=
  (cutChars needle.toList s.toList).map fun (a, b) => (.ofList a, .ofList b)

/-- The number of characters before the first occurrence of `needle`. -/
def indexOf? (needle s : String) : Option Nat :=
  (cutChars needle.toList s.toList).map (·.1.length)

def contains (needle s : String) : Bool := (cutChars needle.toList s.toList).isSome

/-- The pieces between the occurrences of a non-empty separator. -/
def split (sep s : String) : List String := (splitChars sep.toList s.toList).map .ofList

def join (sep : String) (pieces : List String) : String :=
  .ofList (joinChars sep.toList (pieces.map (·.toList)))

def replace (needle image s : String) : String :=
  .ofList (replaceChars needle.toList image.toList s.toList)

def startsWith (head s : String) : Bool := head.toList.isPrefixOf s.toList

def endsWith (tail s : String) : Bool := tail.toList.isSuffixOf s.toList

/-- The first `n` characters. -/
def take (n : Nat) (s : String) : String := .ofList (s.toList.take n)

/-- All but the first `n` characters. -/
def drop (n : Nat) (s : String) : String := .ofList (s.toList.drop n)

/-- All but the last `n` characters. -/
def dropEnd (n : Nat) (s : String) : String := .ofList (s.toList.take (s.toList.length - n))

/-- The last piece of a split, and all before its separator. -/
def cutLast? (sep s : String) : Option (String × String) :=
  match (split sep s).reverse with
  | [] | [_] => none
  | last :: before => some (join sep before.reverse, last)

/-- `n` copies of a text, one after the other. -/
def repeated (s : String) (n : Nat) : String := .ofList (List.replicate n s.toList).flatten

/-- A text widened with blanks at its end to at least `width` characters. -/
def padRight (width : Nat) (s : String) : String :=
  s ++ repeated " " (width - s.length)

end BulletScript.Text
