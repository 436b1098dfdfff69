import BulletScript.Proofs.Outline.Block
import BulletScript.Proofs.Outline.Forest
import Mathlib.Data.List.Nodup

/-! The items of an outline by the numbers of their lines: no two have the same one, and the items
below an item are the lines with text in the block below its line. -/
namespace BulletScript.Outline

open Text

theorem preorder_eq_flatMap (items : List Item) : preorder items = items.flatMap Item.preorder := by
  induction items with
  | nil => rfl
  | cons item rest ih => rw [preorder, ih, List.flatMap_cons]

/-- The rows of a forest are its items in preorder. -/
theorem lines_forest (rows : List Row) :
    (preorder (forest rows)).map (·.line) = rows.map (some ·.line) := by
  induction rows using forest.induct with
  | case1 => rw [forest]; rfl
  | case2 row rest ihBelow ihBehind =>
    rw [forest, preorder, Item.preorder, List.cons_append, List.map_cons, List.map_append, ihBelow,
      ihBehind, ← List.map_append, List.takeWhile_append_dropWhile, List.map_cons]

theorem filterMap_line_forest (rows : List Row) :
    (preorder (forest rows)).filterMap (·.line) = rows.map (·.line) := by
  have hlines := congrArg (List.filterMap id) (lines_forest rows)
  rw [List.filterMap_map, List.filterMap_map] at hlines
  exact hlines.trans (List.filterMap_eq_map ▸ rfl)

theorem nodup_rows (ls : List String) : (rows ls).Pairwise (·.line ≠ ·.line) := by
  have hnumbers : (ls.zipIdx.map (·.2)).Nodup := by simp [List.nodup_range']
  refine (List.pairwise_map.1 hnumbers).filterMap _ ?_
  rintro ⟨line, n⟩ ⟨line', n'⟩ hne row hrow row' hrow'
  simp only [Option.ite_none_left_eq_some, Option.some.injEq] at hrow hrow'
  rw [← hrow.2, ← hrow'.2]
  exact hne

/-- No two items of an outline have the same line. -/
theorem nodup_lines_ofText (s : String) : ((preorder (ofText s)).map (·.line)).Nodup := by
  rw [ofText, lines_forest]
  exact List.pairwise_map.2 ((nodup_rows _).imp fun hne heq => hne (Option.some.inj heq))

/-- The numbers of the lines of all items below the one on a line, in their order. -/
def descendants (items : List Item) (line : Nat) : List Nat :=
  match (preorder items).find? (·.line == some line) with
  | some item => (preorder item.children).filterMap (·.line)
  | none => []

/-- The items of some rows, one for each, with the deeper rows right after it below it. -/
def itemsOf : List Row → List Item
  | [] => []
  | row :: rest =>
    ⟨row.text, forest (rest.takeWhile (row.width < ·.width)), some row.line⟩ :: itemsOf rest

section Rows

variable {rows front back : List Row} {row : Row}

/-- Rows that are no deeper than any before them change nothing for these. -/
theorem itemsOf_append (h : ∀ row ∈ front, ∀ next ∈ back.head?, next.width ≤ row.width) :
    itemsOf (front ++ back) = itemsOf front ++ itemsOf back := by
  induction front with
  | nil => rfl
  | cons row front ih =>
    rw [List.forall_mem_cons] at h
    have hrow : (front ++ back).takeWhile (fun r => decide (row.width < r.width)) =
        front.takeWhile fun r => decide (row.width < r.width) := by
      rw [List.takeWhile_append]
      split
      · next hall =>
        rw [takeWhile_eq_nil fun r hr => decide_eq_false (Nat.not_lt.2 (h.1 r hr)), List.append_nil]
        exact ((List.takeWhile_prefix _).eq_of_length hall).symm
      · rfl
    rw [List.cons_append, itemsOf, itemsOf, hrow, ih h.2, List.cons_append]

/-- In preorder, a forest has one item for each row. -/
theorem preorder_forest (rows : List Row) : preorder (forest rows) = itemsOf rows := by
  induction rows using forest.induct with
  | case1 => rw [forest]; rfl
  | case2 row rest ihBelow ihBehind =>
    have hapart : ∀ r ∈ rest.takeWhile (row.width < ·.width),
        ∀ next ∈ (rest.dropWhile (row.width < ·.width)).head?, next.width ≤ r.width := by
      intro r hr next hnext
      have hdeeper : decide (row.width < r.width) = true :=
        List.all_eq_true.1 List.all_takeWhile r hr
      have hends := List.head?_dropWhile_not (fun r : Row => decide (row.width < r.width)) rest
      rw [Option.mem_def.1 hnext] at hends
      simp only [decide_eq_true_eq, decide_eq_false_iff_not] at hdeeper hends
      omega
    rw [forest, preorder, Item.preorder, ihBelow, ihBehind, List.cons_append,
      ← itemsOf_append hapart, List.takeWhile_append_dropWhile, itemsOf]

theorem find?_itemsOf (h : ∀ other ∈ front, other.line ≠ row.line) :
    (itemsOf (front ++ row :: back)).find? (·.line == some row.line) =
      some ⟨row.text, forest (back.takeWhile (row.width < ·.width)), some row.line⟩ := by
  induction front with
  | nil => simp [itemsOf]
  | cons other front ih =>
    rw [List.forall_mem_cons] at h
    rw [List.cons_append, itemsOf, List.find?_cons_of_neg (by simpa using h.1), ih h.2]

/-- The descendants of a row are the deeper rows right after it. -/
theorem descendants_forest (h : ∀ other ∈ front, other.line ≠ row.line) :
    descendants (forest (front ++ row :: back)) row.line =
      (back.takeWhile (row.width < ·.width)).map (·.line) := by
  rw [descendants, preorder_forest, find?_itemsOf h]
  exact filterMap_line_forest (back.takeWhile (row.width < ·.width))

end Rows

section Lines

variable {s : String} {line : String} {base n : Nat} {ls below : List String}

theorem rowsFrom_cons_blank (h : isBlankText line = true) (n : Nat) (ls : List String) :
    rowsFrom n (line :: ls) = rowsFrom (n + 1) ls := by
  simp [rowsFrom, h]

/-- The rows of the lines that stay below a line are those that are deeper. -/
theorem takeWhile_rowsFrom (base n : Nat) (ls : List String) :
    (rowsFrom n ls).takeWhile (base < ·.width) = rowsFrom n (ls.takeWhile (staysBelow base)) := by
  induction ls generalizing n with
  | nil => rfl
  | cons line ls ih =>
    cases hblank : isBlankText line with
    | true =>
      rw [rowsFrom_cons_blank hblank, List.takeWhile_cons_of_pos (staysBelow_of_blank hblank),
        rowsFrom_cons_blank hblank, ih]
    | false =>
      rw [rowsFrom_cons hblank]
      by_cases hdeeper : base < indentWidth line
      · have hstays : staysBelow base line = true := staysBelow_of_lt hdeeper
        simp only [List.takeWhile_cons, hdeeper, hstays, decide_true, if_true, rowsFrom_cons hblank,
          ih]
      · have hends : ¬staysBelow base line = true := fun h => hdeeper (lt_of_staysBelow h hblank)
        simp only [List.takeWhile_cons, hdeeper, hends, decide_false, Bool.false_eq_true, if_false]
        rfl

theorem line_lt_of_mem_rowsFrom {row : Row} (h : row ∈ rowsFrom n ls) :
    row.line < n + ls.length := by
  obtain ⟨entry, hentry, hrow⟩ := List.mem_filterMap.1 h
  simp only [Option.ite_none_left_eq_some, Option.some.injEq] at hrow
  rw [← hrow.2]
  exact (List.mem_zipIdx hentry).2.1

/-- Rows know which lines they were made of. -/
theorem map_getD_rowsFrom (before ls after : List String) :
    (rowsFrom before.length ls).map (fun row => (before ++ ls ++ after).getD row.line "") =
      ls.filter (!isBlankText ·) := by
  induction ls generalizing before with
  | nil => rfl
  | cons line ls ih =>
    have hrest := ih (before ++ [line])
    rw [List.append_assoc before, List.singleton_append, List.length_append] at hrest
    cases hblank : isBlankText line with
    | true =>
      rw [rowsFrom_cons_blank hblank, List.filter_cons_of_neg (by simp [hblank])]
      exact hrest
    | false =>
      rw [rowsFrom_cons hblank, List.map_cons, List.filter_cons_of_pos (by simp [hblank])]
      refine congrArg₂ _ ?_ hrest
      simp

theorem filter_dropWhile_isBlankText (ls : List String) :
    (ls.dropWhile isBlankText).filter (!isBlankText ·) = ls.filter (!isBlankText ·) := by
  induction ls with
  | nil => rfl
  | cons line ls ih => cases hblank : isBlankText line <;> simp [hblank, ih]

/-- The lines that stay below another are those of its block, and blank lines. -/
theorem filter_take_bodyLength (base : Nat) (below : List String) :
    (below.take (bodyLength base below)).filter (!isBlankText ·) =
      (below.takeWhile (staysBelow base)).filter (!isBlankText ·) := by
  rw [take_bodyLength, List.filter_reverse, filter_dropWhile_isBlankText, ← List.filter_reverse,
    List.reverse_reverse]

theorem boundaryLinesFrom_splitOn {cs : List Char} (h : ∀ c ∈ cs, isLineBoundary c = true → c = '\n')
    (line : List Char) : ∃ blanks : List (List Char), (∀ l ∈ blanks, l = []) ∧
      (cs.splitOn '\n').modifyHead (line.reverse ++ ·) = boundaryLinesFrom line cs ++ blanks := by
  induction cs generalizing line with
  | nil =>
    rw [List.splitOn_nil, boundaryLinesFrom]
    split
    · next hline => exact ⟨[[]], by simp, by simp [hline]⟩
    · exact ⟨[], by simp, by simp⟩
  | cons c cs ih =>
    rw [List.forall_mem_cons] at h
    obtain ⟨first, others, hsplit⟩ := List.exists_cons_of_ne_nil (List.splitOn_ne_nil '\n' cs)
    have hreturn : ∀ rest, c = '\r' → cs = '\n' :: rest → False := by
      rintro _ rfl -
      exact absurd (h.1 (by decide)) (by decide)
    rw [List.splitOn_cons_eq_if_modifyHead, boundaryLinesFrom]
    · by_cases hc : c = '\n'
      · subst hc
        obtain ⟨blanks, hblanks, heq⟩ := ih h.2 []
        rw [hsplit] at heq ⊢
        exact ⟨blanks, hblanks, by simpa [show isLineBoundary '\n' = true by decide] using heq⟩
      · obtain ⟨blanks, hblanks, heq⟩ := ih h.2 (c :: line)
        have hboundary : ¬isLineBoundary c = true := fun hboundary => hc (h.1 hboundary)
        rw [hsplit] at heq ⊢
        exact ⟨blanks, hblanks, by simpa [hc, hboundary] using heq⟩
    · exact hreturn

theorem rowsFrom_of_blank (h : ∀ l ∈ ls, isBlankText l = true) (n : Nat) : rowsFrom n ls = [] := by
  induction ls generalizing n with
  | nil => rfl
  | cons line ls ih =>
    rw [List.forall_mem_cons] at h
    rw [rowsFrom_cons_blank h.1, ih h.2]

/-- Where only newlines end lines, an outline is read from the lines of a document. -/
theorem ofText_of_newlines (h : ∀ c ∈ s.toList, isLineBoundary c = true → c = '\n') :
    ofText s = forest (rowsFrom 0 (lines s)) := by
  obtain ⟨blanks, hblanks, heq⟩ := boundaryLinesFrom_splitOn h []
  have hlines : lines s = boundaryLines s ++ blanks.map String.ofList := by
    obtain ⟨first, others, hsplit⟩ :=
      List.exists_cons_of_ne_nil (List.splitOn_ne_nil '\n' s.toList)
    rw [lines_eq, boundaryLines, ← List.map_append, ← heq, hsplit]
    rfl
  have hrows : rowsFrom (0 + (boundaryLines s).length) (blanks.map String.ofList) = [] := by
    refine rowsFrom_of_blank (fun l hl => ?_) _
    obtain ⟨cs, hcs, rfl⟩ := List.mem_map.1 hl
    rw [hblanks cs hcs]
    rfl
  rw [hlines, rowsFrom_append, hrows, List.append_nil]
  rfl

/-- The lines with text in the block below a line are those of its descendants. -/
theorem map_descendants (h : ∀ c ∈ s.toList, isLineBoundary c = true → c = '\n') {index : Nat}
    (hline : isBlankText ((lines s).getD index "") = false) :
    (descendants (ofText s) index).map (fun n => (lines s).getD n "") =
      (blockBelow (lines s) index).filter (!isBlankText ·) := by
  have hindex : index < (lines s).length := by
    by_contra hle
    simp [List.getElem?_eq_none (Nat.not_lt.1 hle), isBlankText] at hline
  obtain ⟨before, line, after, hsplit, rfl⟩ : ∃ before line after,
      lines s = before ++ line :: after ∧ before.length = index :=
    ⟨(lines s).take index, (lines s)[index], (lines s).drop (index + 1), by simp,
      List.length_take_of_le hindex.le⟩
  rw [hsplit, getD_length_append] at hline
  have hapart : ∀ row ∈ rowsFrom 0 before, row.line ≠ before.length :=
    fun row hrow => (Nat.ne_of_lt (line_lt_of_mem_rowsFrom hrow)).trans_eq (Nat.zero_add _)
  have hbelow : descendants (forest (rowsFrom 0 before ++
      ⟨indentWidth line, itemText line, before.length⟩ :: rowsFrom (before.length + 1) after))
        before.length =
      ((rowsFrom (before.length + 1) after).takeWhile (indentWidth line < ·.width)).map (·.line) :=
    descendants_forest hapart
  have hcontents := map_getD_rowsFrom (before ++ [line])
    (after.takeWhile (staysBelow (indentWidth line)))
    (after.dropWhile (staysBelow (indentWidth line)))
  rw [List.append_assoc, List.takeWhile_append_dropWhile, List.append_assoc, List.singleton_append,
    List.length_append] at hcontents
  rw [ofText_of_newlines h, hsplit, rowsFrom_append, Nat.zero_add, rowsFrom_cons hline,
    blockBelow, drop_length_append, getD_length_append, filter_take_bodyLength, hbelow,
    takeWhile_rowsFrom, List.map_map]
  exact hcontents

end Lines

end BulletScript.Outline
