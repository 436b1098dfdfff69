import BulletScript.Outline.Item
import BulletScript.Template.Token

/-! Keys and their values as authored: one pair on a line, several on one line, or a block of
lines below a key. -/
namespace BulletScript.Script

open Text

def startsKey (c : Char) : Bool := c.isAlpha || c = '_'

def isKeyChar (c : Char) : Bool := c.isAlphanum || c = '_'

/-- A key at the start of a text, and what follows the colon after it. -/
def cutKey? : List Char → Option (List Char × List Char)
  | [] => none
  | c :: cs =>
    if startsKey c then
      match (cs.dropWhile isKeyChar).dropWhile isBlank with
      | ':' :: rest => some (c :: cs.takeWhile isKeyChar, rest)
      | _ => none
    else none

theorem cutKey?_length_lt {cs key rest : List Char} (h : cutKey? cs = some (key, rest)) :
    rest.length < cs.length := by
  cases cs with
  | nil => simp [cutKey?] at h
  | cons c cs =>
    simp only [cutKey?] at h
    split at h
    · split at h
      next r hr =>
        have h1 := (List.dropWhile_sublist isBlank (l := cs.dropWhile isKeyChar)).length_le
        have h2 := (List.dropWhile_sublist isKeyChar (l := cs)).length_le
        rw [hr] at h1
        simp only [Option.some.injEq, Prod.mk.injEq] at h
        obtain ⟨-, rfl⟩ := h
        simp only [List.length_cons] at h1 ⊢
        omega
      · simp at h
    · simp at h

/-- The key and the value of a line; backticks around the value are dropped. -/
def keyValue? (line : String) : Option (String × String) := do
  let (key, rest) ← cutKey? (trimChars line.toList)
  return (.ofList key, Template.clean (.ofList rest))

/-- Keys that may follow the main value on the line of an action. -/
def inlineKeys : List String :=
  ["as", "asFile", "bullet", "bullets", "duration", "format", "from", "in", "index", "indent",
    "itemAs", "level", "message", "method", "pattern", "source", "template", "timeout", "to",
    "value", "where"]

/-- A key behind blanks whose colon is followed by a blank or the end: the key, and what follows
the blanks after the colon. -/
def cutInnerKey? (cs : List Char) : Option (List Char × List Char) :=
  if !(cs.head?.any isBlank) then none
  else match cutKey? (cs.dropWhile isBlank) with
    | some (key, rest) =>
      if rest.head?.all isBlank then some (key, rest.dropWhile isBlank) else none
    | none => none

theorem cutInnerKey?_length_lt {cs key rest : List Char}
    (h : cutInnerKey? cs = some (key, rest)) : rest.length < cs.length := by
  simp only [cutInnerKey?] at h
  split at h
  · simp at h
  · split at h
    next k r hk =>
      split at h
      · simp only [Option.some.injEq, Prod.mk.injEq] at h
        have h1 := cutKey?_length_lt hk
        have h2 := (List.dropWhile_sublist isBlank (l := cs)).length_le
        have h3 := (List.dropWhile_sublist isBlank (l := r)).length_le
        have h4 := congrArg List.length h.2
        omega
      · simp at h
    · simp at h

/-- Whether a key is one of the known ones; every key is when none are given. -/
def isKnown (known : Option (List String)) (key : List Char) : Bool :=
  known.all (·.contains (.ofList key))

/-- A bare value: the text up to the next known key, and the text from that key on. Another key
is passed over with the blanks after it. -/
def cutAtKey (known : Option (List String)) : List Char → List Char × List Char
  | [] => ([], [])
  | c :: cs =>
    match _hkey : cutInnerKey? (c :: cs) with
    | some (key, rest) =>
      if isKnown known key then ([], c :: cs)
      else
        let (before, after) := cutAtKey known rest
        ((c :: cs).take (cs.length + 1 - rest.length) ++ before, after)
    | none =>
      let (before, after) := cutAtKey known cs
      (c :: before, after)
termination_by cs => cs.length
decreasing_by
  · exact cutInnerKey?_length_lt _hkey
  · simp

theorem cutAtKey_length_le (known : Option (List String)) (cs : List Char) :
    (cutAtKey known cs).2.length ≤ cs.length := by
  fun_induction cutAtKey known cs with
  | case1 => simp
  | case2 => simp
  | case3 c cs key rest h _ before after hcut ih =>
    have := cutInnerKey?_length_lt h
    simp only [hcut] at ih
    simp only
    omega
  | case4 c cs h before after hcut ih =>
    simp only [hcut] at ih
    simp only [List.length_cons]
    omega

/-- The pairs of a line in order. A value in backticks ends at the next backtick, a bare one
before the next known key. -/
def scanPairs (known : Option (List String)) (cs : List Char) : List (String × String) :=
  match _h : cutKey? (cs.dropWhile isBlank) with
  | none => []
  | some (key, rest) =>
    match hrest : rest.dropWhile isBlank with
    | '\x60' :: quoted =>
      let value := quoted.takeWhile (· ≠ '\x60')
      (.ofList key, .ofList value) :: scanPairs known (quoted.drop (value.length + 1))
    | bare =>
      let parts := cutAtKey known bare
      (.ofList key, .ofList (trimChars parts.1)) :: scanPairs known parts.2
termination_by cs.length
decreasing_by
  all_goals
    have h1 := cutKey?_length_lt _h
    have h2 := (List.dropWhile_sublist isBlank (l := cs)).length_le
    have h3 := (List.dropWhile_sublist isBlank (l := rest)).length_le
    rw [hrest] at h3
  · simp only [List.length_cons, List.length_drop] at h3 ⊢
    omega
  · have h4 := cutAtKey_length_le known bare
    omega

/-- The pairs of a line as a record. -/
def inlineRecord (known : Option (List String)) (line : String) : Record :=
  Record.ofEntries ((scanPairs known line.toList).map fun (k, v) => (.str k, .str v))

mutual

/-- The value that an item with a key stands for: a record of its children if it has any. -/
def itemValue (value : String) : Outline.Item → Value
  | ⟨_, children, _⟩ => if children.isEmpty then .str value else .map (blockRecord [] children)

/-- The items with a key, as a record added to another. -/
def blockRecord (record : Record) : List Outline.Item → Record
  | [] => record
  | item :: rest =>
    match keyValue? item.text with
    | some (key, value) => blockRecord (record.set (.str key) (itemValue value item)) rest
    | none => blockRecord record rest

end

end BulletScript.Script
