import BulletScript.Outline.Item
import BulletScript.Proofs.Outline.Line
import BulletScript.Proofs.Text.Lines
import BulletScript.Proofs.Text.Search

/-! A forest that is written as an indented list is read back with its texts and its shape. The rows
below an item are those indented further, since every depth is wider than the one before. -/
namespace BulletScript.Outline

open Text

mutual

/-- An item and all items below it, in the order in which their lines are written. -/
def Item.preorder : Item → List Item
  | ⟨text, children, line⟩ => ⟨text, children, line⟩ :: preorder children

def preorder : List Item → List Item
  | [] => []
  | item :: rest => item.preorder ++ preorder rest

end

mutual

/-- An item without the numbers of lines in it. -/
def Item.bare : Item → Item
  | ⟨text, children, _⟩ => { text, children := bare children }

def bare : List Item → List Item
  | [] => []
  | item :: rest => item.bare :: bare rest

end

mutual

/-- An item on the line `n`, with those below it on the lines that follow. -/
def Item.numbered (n : Nat) : Item → Item
  | ⟨text, children, _⟩ => ⟨text, numbered (n + 1) children, some n⟩

def numbered (n : Nat) : List Item → List Item
  | [] => []
  | item :: rest => item.numbered n :: numbered (n + item.preorder.length) rest

end

mutual

theorem Item.bare_numbered (n : Nat) : ∀ item : Item, (item.numbered n).bare = item.bare
  | ⟨text, children, _⟩ => by
    rw [Item.numbered, Item.bare, Item.bare, Outline.bare_numbered (n + 1) children]

theorem bare_numbered (n : Nat) : ∀ items : List Item, bare (numbered n items) = bare items
  | [] => rfl
  | item :: rest => by
    rw [numbered, bare, bare, Item.bare_numbered n item, bare_numbered _ rest]

end

mutual

theorem Item.lines_preorder_numbered (n : Nat) : ∀ item : Item,
    (item.numbered n).preorder.map (·.line) = (List.range' n item.preorder.length).map some
  | ⟨text, children, _⟩ => by
    rw [Item.numbered, Item.preorder, Item.preorder, List.map_cons, List.length_cons,
      List.range'_succ, List.map_cons, Outline.lines_preorder_numbered (n + 1) children]

theorem lines_preorder_numbered (n : Nat) : ∀ items : List Item,
    (preorder (numbered n items)).map (·.line) = (List.range' n (preorder items).length).map some
  | [] => rfl
  | item :: rest => by
    rw [numbered, preorder, preorder, List.map_append, List.length_append,
      ← List.range'_append_1, List.map_append, Item.lines_preorder_numbered n item,
      lines_preorder_numbered _ rest]

end

/-- How outlines are written that can be read back: blanks and tabs for the indentation, and one of
the bullets. -/
structure Layout.Regular (layout : Layout) : Prop where
  nonempty : layout.indentUnit ≠ ""
  blank : ∀ c ∈ layout.indentUnit.toList, c = ' ' ∨ c = '\t'
  bullet : layout.bullet ∈ ["-", "*", "+"]

/-- A text of one line without blanks around it. -/
structure PlainText (s : String) : Prop where
  trimmed : trim s = s
  unbroken : ∀ c ∈ s.toList, isLineBoundary c = false

/-- The line of a text at a depth. -/
def Layout.line (layout : Layout) (depth : Nat) (text : String) : String :=
  repeated layout.indentUnit depth ++ layout.bullet ++ " " ++ text

/-- The rows of some lines that follow `n` others. -/
def rowsFrom (n : Nat) (ls : List String) : List Row :=
  (ls.zipIdx n).filterMap fun (line, number) =>
    if isBlankText line then none else some ⟨indentWidth line, itemText line, number⟩

variable {layout : Layout} {items : List Item} {text : String}

theorem rowsFrom_append (n : Nat) (xs ys : List String) :
    rowsFrom n (xs ++ ys) = rowsFrom n xs ++ rowsFrom (n + xs.length) ys := by
  rw [rowsFrom, List.zipIdx_append, List.filterMap_append]
  rfl

theorem rowsFrom_cons {line : String} (h : isBlankText line = false) (n : Nat)
    (ls : List String) :
    rowsFrom n (line :: ls) = ⟨indentWidth line, itemText line, n⟩ :: rowsFrom (n + 1) ls := by
  simp [rowsFrom, h]

theorem takeWhile_eq_nil {α : Type} {p : α → Bool} {xs : List α}
    (h : ∀ x ∈ xs.head?, p x = false) : xs.takeWhile p = [] := by
  cases xs with
  | nil => rfl
  | cons x xs => simp [h x (by simp)]

theorem dropWhile_eq_self {α : Type} {p : α → Bool} {xs : List α}
    (h : ∀ x ∈ xs.head?, p x = false) : xs.dropWhile p = xs := by
  cases xs with
  | nil => rfl
  | cons x xs => simp [h x (by simp)]

theorem linesOf_cons (layout : Layout) (depth : Nat) (text : String) (children rest : List Item)
    (line : Option Nat) : linesOf layout depth (⟨text, children, line⟩ :: rest) =
      layout.line depth text ::
        (linesOf layout (depth + 1 : Nat) children ++ linesOf layout depth rest) := by
  rw [linesOf, Item.lines]
  rfl

theorem exists_line_of_mem_rowsFrom {row : Row} {n : Nat} {ls : List String}
    (h : row ∈ rowsFrom n ls) : ∃ line ∈ ls, row.width = indentWidth line := by
  obtain ⟨⟨line, number⟩, hmem, hrow⟩ := List.mem_filterMap.1 h
  refine ⟨line, List.fst_mem_of_mem_zipIdx hmem, ?_⟩
  dsimp only at hrow
  split at hrow
  · cases hrow
  · cases hrow
    rfl

mutual

theorem Item.length_lines (layout : Layout) (depth : Nat) : ∀ item : Item,
    (item.lines layout depth).length = item.preorder.length
  | ⟨text, children, _⟩ => by
    rw [Item.lines, Item.preorder, List.length_cons, List.length_cons,
      ← length_linesOf layout (depth + 1) children]
    rfl

theorem length_linesOf (layout : Layout) (depth : Nat) : ∀ items : List Item,
    (linesOf layout depth items).length = (preorder items).length
  | [] => rfl
  | item :: rest => by
    rw [linesOf, preorder, List.length_append, List.length_append,
      Item.length_lines layout depth item, length_linesOf layout depth rest]

end

mutual

theorem Item.mem_lines {line : String} (depth : Nat) : ∀ item : Item,
    line ∈ item.lines layout depth →
      ∃ deeper ≥ depth, ∃ i ∈ item.preorder, line = layout.line deeper i.text
  | ⟨text, children, _⟩, h => by
    rw [Item.lines] at h
    rcases List.mem_cons.1 h with rfl | h
    · exact ⟨depth, Nat.le_refl _, _, List.mem_cons_self, rfl⟩
    · obtain ⟨deeper, hle, i, hi, rfl⟩ := mem_linesOf (depth + 1) children h
      exact ⟨deeper, Nat.le_of_succ_le hle, i, List.mem_cons_of_mem _ hi, rfl⟩

/-- Every line of a written forest is that of an item, at the depth of the forest or deeper. -/
theorem mem_linesOf {line : String} (depth : Nat) : ∀ items : List Item,
    line ∈ linesOf layout depth items →
      ∃ deeper ≥ depth, ∃ i ∈ preorder items, line = layout.line deeper i.text
  | item :: rest, h => by
    rw [linesOf] at h
    rcases List.mem_append.1 h with h | h
    · obtain ⟨deeper, hle, i, hi, rfl⟩ := Item.mem_lines depth item h
      exact ⟨deeper, hle, i, List.mem_append_left _ hi, rfl⟩
    · obtain ⟨deeper, hle, i, hi, rfl⟩ := mem_linesOf depth rest h
      exact ⟨deeper, hle, i, List.mem_append_right _ hi, rfl⟩

end

namespace Layout.Regular

variable (hlayout : layout.Regular)
include hlayout

theorem exists_bullet : ∃ b, isBullet b = true ∧ layout.bullet.toList = [b] := by
  have hmem := hlayout.bullet
  simp only [List.mem_cons, List.not_mem_nil, or_false] at hmem
  rcases hmem with h | h | h
  · exact ⟨'-', by decide, by rw [h]; rfl⟩
  · exact ⟨'*', by decide, by rw [h]; rfl⟩
  · exact ⟨'+', by decide, by rw [h]; rfl⟩

theorem of_mem_indent {depth : Nat} {c : Char}
    (hc : c ∈ (repeated layout.indentUnit depth).toList) :
    isBlank c = true ∧ isLineBoundary c = false := by
  simp only [repeated, String.toList_ofList, List.mem_flatten, List.mem_replicate] at hc
  obtain ⟨_, ⟨-, rfl⟩, hc⟩ := hc
  rcases hlayout.blank c hc with rfl | rfl <;> decide

/-- A written line is its indentation, its bullet, a blank and its text. -/
theorem toList_line (depth : Nat) (text : String) :
    ∃ b, isBullet b = true ∧ (layout.line depth text).toList =
      (repeated layout.indentUnit depth).toList ++ b :: ' ' :: text.toList := by
  obtain ⟨b, hb, hbullet⟩ := hlayout.exists_bullet
  exact ⟨b, hb, by simp [line, hbullet]⟩

theorem not_isBlankText_line (depth : Nat) (text : String) :
    isBlankText (layout.line depth text) = false := by
  obtain ⟨b, hb, heq⟩ := hlayout.toList_line depth text
  exact not_isBlankText_of_mem (heq ▸ List.mem_append_right _ List.mem_cons_self)
    (not_isBlank_of_isBullet hb)

theorem line_unbroken (htext : PlainText text) (depth : Nat) :
    layout.line depth text ≠ "" ∧
      ∀ c ∈ (layout.line depth text).toList, isLineBoundary c = false := by
  refine ⟨fun hempty => ?_, fun c hc => ?_⟩
  · have hblank := hlayout.not_isBlankText_line depth text
    rw [hempty] at hblank
    exact absurd hblank (by decide)
  · obtain ⟨b, hb, heq⟩ := hlayout.toList_line depth text
    rw [heq] at hc
    rcases List.mem_append.1 hc with hc | hc
    · exact (hlayout.of_mem_indent hc).2
    · rcases List.mem_cons.1 hc with rfl | hc
      · simp only [isBullet, Bool.or_eq_true, decide_eq_true_eq] at hb
        rcases hb with (rfl | rfl) | rfl <;> decide
      · rcases List.mem_cons.1 hc with rfl | hc
        · decide
        · exact htext.unbroken c hc

theorem itemText_line (htext : PlainText text) (depth : Nat) :
    itemText (layout.line depth text) = text := by
  obtain ⟨b, hb, heq⟩ := hlayout.toList_line depth text
  have htrim : trimChars text.toList = text.toList := by
    simpa [trim] using congrArg String.toList htext.trimmed
  have hfirst : text.toList.dropWhile isBlank = text.toList := by
    rw [List.dropWhile_eq_self_iff]
    intro hpos
    rw [(trimChars_eq_self_iff.1 htrim).1 _ (by simp [List.head?_eq_getElem?, hpos])]
    simp
  have hindent : ∀ c ∈ (repeated layout.indentUnit depth).toList, isBlank c = true :=
    fun c hc => (hlayout.of_mem_indent hc).1
  have hblank : isBlank ' ' = true := by decide
  have hnewline : '\n' ∉ text.toList := fun hc => absurd (htext.unbroken _ hc) (by decide)
  rw [itemText, itemContent?, heq, cutBullet?_append hindent hb hblank, hfirst]
  simp [oneLine?_of_no_newline hnewline, htext.trimmed]

theorem leadingBlanks_line (depth : Nat) (text : String) :
    leadingBlanks (layout.line depth text) = repeated layout.indentUnit depth := by
  obtain ⟨b, hb, heq⟩ := hlayout.toList_line depth text
  rw [leadingBlanks_of_eq heq (fun c hc => (hlayout.of_mem_indent hc).1)
    (not_isBlank_of_isBullet hb), String.ofList_toList]

/-- The width of a line is that of its depth, whatever its text. -/
theorem indentWidth_line (depth : Nat) (text other : String) :
    indentWidth (layout.line depth text) = indentWidth (layout.line depth other) := by
  rw [indentWidth, indentWidth, hlayout.leadingBlanks_line, hlayout.leadingBlanks_line]

theorem indentWidth_lt {upper deeper : Nat} (h : upper < deeper) (text other : String) :
    indentWidth (layout.line upper text) < indentWidth (layout.line deeper other) := by
  obtain ⟨more, rfl⟩ := Nat.exists_eq_add_of_lt h
  have hblanks : (leadingBlanks (layout.line (upper + more + 1 : Nat) other)).toList =
      (leadingBlanks (layout.line upper text)).toList ++
        (repeated layout.indentUnit (more + 1)).toList := by
    rw [hlayout.leadingBlanks_line, hlayout.leadingBlanks_line]
    simp [repeated, Nat.add_assoc, ← List.replicate_append_replicate]
  exact Outline.indentWidth_lt hblanks (by simp [repeated, List.replicate_succ, hlayout.nonempty])

/-- Below an item are its children's lines, which are indented further, and then those of the
items after it, of which the first is not. -/
theorem forest_linesOf (depth n : Nat) :
    ∀ items : List Item, (∀ i ∈ preorder items, PlainText i.text) →
      forest (rowsFrom n (linesOf layout depth items)) = numbered n items
  | [], _ => by
    rw [linesOf, numbered]
    exact forest.eq_1
  | ⟨text, children, line⟩ :: rest, h => by
    rw [preorder, Item.preorder, List.cons_append, List.forall_mem_cons] at h
    obtain ⟨htext, hbelow⟩ := h
    have hchildren : ∀ i ∈ preorder children, PlainText i.text :=
      fun i hi => hbelow i (List.mem_append_left _ hi)
    have hrest : ∀ i ∈ preorder rest, PlainText i.text :=
      fun i hi => hbelow i (List.mem_append_right _ hi)
    have hdeeper : ∀ row ∈ rowsFrom (n + 1) (linesOf layout (depth + 1 : Nat) children),
        decide (indentWidth (layout.line depth text) < row.width) = true := by
      intro row hrow
      obtain ⟨line, hline, hwidth⟩ := exists_line_of_mem_rowsFrom hrow
      obtain ⟨deeper, hle, i, -, rfl⟩ := mem_linesOf (depth + 1) children hline
      rw [hwidth]
      exact decide_eq_true (hlayout.indentWidth_lt (Nat.lt_of_succ_le hle) _ _)
    have hends (m : Nat) : ∀ row ∈ (rowsFrom m (linesOf layout depth rest)).head?,
        decide (indentWidth (layout.line depth text) < row.width) = false := by
      intro row hrow
      cases rest with
      | nil => cases hrow
      | cons next others =>
        obtain ⟨other, more, _⟩ := next
        rw [linesOf_cons, rowsFrom_cons (hlayout.not_isBlankText_line depth other),
          List.head?_cons, Option.mem_some_iff] at hrow
        simp [← hrow, hlayout.indentWidth_line depth text other]
    have hbelow := forest_linesOf (depth + 1) (n + 1) children hchildren
    have hbehind := forest_linesOf depth (n + (preorder children).length + 1) rest hrest
    rw [linesOf_cons, rowsFrom_cons (hlayout.not_isBlankText_line depth text), rowsFrom_append,
      length_linesOf, hlayout.itemText_line htext, forest, List.takeWhile_append_of_pos hdeeper,
      List.dropWhile_append_of_pos hdeeper, takeWhile_eq_nil (hends _), dropWhile_eq_self (hends _),
      List.append_nil, hbelow, Nat.add_right_comm, hbehind, numbered, Item.numbered, Item.preorder,
      List.length_cons, Nat.add_assoc]

/-- A forest of plain texts that is written as a list is read back as it was, with the numbers of
the lines on which its items stand. -/
theorem ofText_linesOf {items : List Item} (h : ∀ i ∈ preorder items, PlainText i.text)
    (depth : Nat) : ofText (unlines (linesOf layout depth items)) = numbered 0 items := by
  have hlines : ∀ l ∈ linesOf layout depth items,
      l ≠ "" ∧ ∀ c ∈ l.toList, isLineBoundary c = false := by
    intro l hl
    obtain ⟨deeper, -, i, hi, rfl⟩ := mem_linesOf depth items hl
    exact hlayout.line_unbroken (h i hi) deeper
  rw [ofText, boundaryLines_unlines hlines]
  exact hlayout.forest_linesOf depth 0 items h

end Layout.Regular

/-- Reading an outline undoes writing it: whatever the unit of indentation, the bullet and the depth
it starts at, the forest has its texts and its shape again, and its items carry the numbers of their
lines, from 0 on in preorder. -/
theorem outline_read_back (hlayout : layout.Regular) (depth : Nat)
    (h : ∀ i ∈ preorder items, PlainText i.text) :
    let found := ofText (unlines (linesOf layout depth items))
    bare found = bare items ∧
      (preorder found).map (·.line) = (List.range (preorder items).length).map some := by
  intro found
  have hfound : found = numbered 0 items := hlayout.ofText_linesOf h depth
  rw [hfound, List.range_eq_range']
  exact ⟨bare_numbered 0 items, lines_preorder_numbered 0 items⟩

/-- A unit that fills a tab stop and goes one column beyond it. -/
def tabLayout : Layout := { indentUnit := "\t ", bullet := "+" }

/-- A forest with an empty text, and a text that looks like a list line. -/
def nestedForest : List Item :=
  [{ text := "a", children := [{ text := "", children := [{ text := "- c" }] }, { text := "d" }] },
    { text := "e" }]

theorem outline_read_back_nested :
    let found := ofText (unlines (linesOf tabLayout (2 : Nat) nestedForest))
    bare found = bare nestedForest ∧
      (preorder found).map (·.line) = [some 0, some 1, some 2, some 3, some 4] := by
  have hlayout : tabLayout.Regular :=
    ⟨by decide, by simp [tabLayout], by decide⟩
  have htexts : ∀ i ∈ preorder nestedForest, PlainText i.text := by
    have hall : ∀ i ∈ preorder nestedForest,
        trim i.text = i.text ∧ (i.text.toList.any isLineBoundary) = false := by
      decide +kernel
    exact fun i hi => ⟨(hall i hi).1, by simpa using (hall i hi).2⟩
  exact outline_read_back hlayout 2 htexts

end BulletScript.Outline
