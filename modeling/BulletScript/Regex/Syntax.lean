import BulletScript.Text.Blank
import BulletScript.Text.Case
import BulletScript.Text.Word

/-! Regular expressions as trees, with the sets of characters in them, and the widths of what they
match. -/
namespace BulletScript.Regex

/-- What changes the meaning of the parts of a regular expression. -/
structure Flags where
  ignoreCase : Bool := false
  multiline : Bool := false
  dotAll : Bool := false
  verbose : Bool := false
  ascii : Bool := false
  deriving Repr, DecidableEq

inductive Category where
  | digit | space | word
  deriving Repr, DecidableEq

def Category.contains (ascii : Bool) (category : Category) (c : Char) : Bool :=
  match category with
  | .digit => if ascii then c.isDigit else Text.isDecimal c
  | .space =>
    if ascii then c == ' ' || (9 ≤ c.toNat && c.toNat ≤ 13) else Text.isBlank c
  | .word => if ascii then c.isAlphanum || c == '_' else Text.isWord c

/-- Lower-case letters that match each other although none is the other's upper case. -/
def lowerCaseKin : List (List Nat) :=
  [[0x69, 0x131], [0x73, 0x17F], [0xB5, 0x3BC], [0x345, 0x3B9, 0x1FBE], [0x390, 0x1FD3],
    [0x3B0, 0x1FE3], [0x3B2, 0x3D0], [0x3B5, 0x3F5], [0x3B8, 0x3D1], [0x3BA, 0x3F0],
    [0x3C0, 0x3D6], [0x3C1, 0x3F1], [0x3C2, 0x3C3], [0x3C6, 0x3D5], [0x432, 0x1C80],
    [0x434, 0x1C81], [0x43E, 0x1C82], [0x441, 0x1C83], [0x442, 0x1C84, 0x1C85],
    [0x44A, 0x1C86], [0x463, 0x1C87], [0x1C88, 0xA64B], [0x1E61, 0x1E9B], [0xFB05, 0xFB06]]

/-- The letters that a lower-case letter matches when case is ignored, itself among them. -/
def kin (ascii : Bool) (n : Nat) : List Nat :=
  if ascii then [n] else (lowerCaseKin.find? (·.contains n)).getD [n]

def lowerCode (ascii : Bool) (c : Char) : Nat :=
  if ascii then c.toLower.toNat else (Text.lowerChar c).toNat

/-- The characters whose lower case is `n`. -/
def withLower (ascii : Bool) (n : Nat) : List Nat :=
  if ascii then if 97 ≤ n ∧ n ≤ 122 then [n, n - 32] else [n]
  else
    let beyond := Text.lowerTable.toList.filterMap fun row => match row with
      | [first, last, step, image] =>
        if image ≤ n ∧ n ≤ image + (last - first) ∧ (n - image) % step = 0 then
          some (first + (n - image)) else none
      | _ => none
    let plain := if 97 ≤ n ∧ n ≤ 122 then [n - 32] else []
    let dotted := if n = 0x69 then [0x130] else []
    n :: plain ++ dotted ++ beyond

inductive SetItem where
  | code (n : Nat)
  | range (lo hi : Nat)
  | category (kind : Category) (negated : Bool)
  deriving Repr, DecidableEq

structure CharSet where
  negated : Bool
  items : List SetItem
  ignoreCase : Bool
  ascii : Bool
  deriving Repr, DecidableEq

def SetItem.contains (ascii : Bool) (c : Char) : SetItem → Bool
  | .code n => c.toNat == n
  | .range lo hi => lo ≤ c.toNat && c.toNat ≤ hi
  | .category kind negated => kind.contains ascii c != negated

/-- Whether a character belongs to an item up to case: one of its letters does. -/
def SetItem.containsFolded (ascii : Bool) (c : Char) (item : SetItem) : Bool :=
  let lower := lowerCode ascii c
  match item with
  | .category kind negated => kind.contains ascii (Char.ofNat lower) != negated
  | .code n => ((kin ascii lower).flatMap (withLower ascii)).contains n
  | .range lo hi => ((kin ascii lower).flatMap (withLower ascii)).any fun n => lo ≤ n && n ≤ hi

def CharSet.contains (s : CharSet) (c : Char) : Bool :=
  let inside := if s.ignoreCase then s.items.any (·.containsFolded s.ascii c)
    else s.items.any (·.contains s.ascii c)
  inside != s.negated

inductive Anchor where
  | textStart
  | textEnd
  | lineStart
  | lineEnd
  | lastLineEnd
  | boundary (ascii negated : Bool)
  deriving Repr, DecidableEq

inductive Mode where
  | greedy | lazily | possessive
  deriving Repr, DecidableEq

inductive Node where
  | empty
  | never
  | char (c : Char)
  | any (dotAll : Bool)
  | set (s : CharSet)
  | anchor (a : Anchor)
  | seq (first second : Node)
  | alt (left right : Node)
  | group (index : Nat) (inner : Node)
  | loop (min : Nat) (max : Option Nat) (mode : Mode) (inner : Node)
  | ahead (negated : Bool) (inner : Node)
  | behind (negated : Bool) (width : Nat) (inner : Node)
  | atomic (inner : Node)
  | backref (index : Nat) (ignoreCase ascii : Bool)
  | ifGroup (index : Nat) (yes no : Node)
  deriving Repr, DecidableEq

/-- The nodes one after the other. -/
def Node.ofList : List Node → Node
  | [] => .empty
  | [n] => n
  | n :: rest => .seq n (ofList rest)

/-- Widths and repetitions are counted up to this bound, which stands for unbounded. -/
def bound : Nat := 4294967295

/-- The least and the greatest number of characters. -/
structure Width where
  least : Nat
  greatest : Nat
  deriving Repr, DecidableEq

def Width.capped (w : Width) : Width := ⟨min w.least (bound - 1), min w.greatest bound⟩

/-- The width of a node, given those of the groups that are closed. -/
def Node.width (groups : List (Nat × Width)) : Node → Width
  | .empty | .never | .anchor _ | .ahead .. | .behind .. => ⟨0, 0⟩
  | .char _ | .any _ | .set _ => ⟨1, 1⟩
  | .seq a b =>
    let w := a.width groups
    let v := b.width groups
    Width.capped ⟨w.least + v.least, w.greatest + v.greatest⟩
  | .alt a b =>
    let w := a.width groups
    let v := b.width groups
    ⟨min w.least v.least, max w.greatest v.greatest⟩
  | .group _ inner | .atomic inner => inner.width groups
  | .loop lo hi _ inner =>
    let w := inner.width groups
    Width.capped ⟨w.least * lo, w.greatest * hi.getD bound⟩
  | .backref index _ _ => (groups.lookup index).getD ⟨0, 0⟩
  | .ifGroup _ yes no =>
    let w := yes.width groups
    let v := no.width groups
    ⟨min w.least v.least, max w.greatest v.greatest⟩

end BulletScript.Regex

namespace BulletScript

/-- A regular expression with the number of its groups and the names of some of them. -/
structure Regex where
  node : Regex.Node
  groups : Nat
  names : List (String × Nat)
  deriving Repr, DecidableEq

end BulletScript
