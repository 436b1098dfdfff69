import BulletScript.Proofs.Outline.Descendants
import Mathlib.Data.List.GetD

/-! Where the lines of an outline stand in its tree. The parent of a line is the nearest line before
it that is indented less, and the last line below it in the tree is the one its block ends with. -/
namespace BulletScript.Outline

open Text

mutual

/-- An item and all items below it in preorder, each by its line and the line of its parent. -/
def Item.places (parent : Option Nat) : Item → List (Option Nat × Option Nat)
  | ⟨_, children, line⟩ => (line, parent) :: places line children

/-- All items of a forest in preorder, each by its line and the line of its parent. -/
def places (parent : Option Nat) : List Item → List (Option Nat × Option Nat)
  | [] => []
  | item :: rest => item.places parent ++ places parent rest

end

/-- The numbers of the lines with text. -/
def textLines (ls : List String) : List Nat :=
  (List.range ls.length).filter fun i => !isBlankText (ls.getD i "")

/-- The number of the nearest line with text before a line that is indented less than it. -/
def parentLine? (ls : List String) (i : Nat) : Option Nat :=
  ((List.range i).filter fun j =>
    !isBlankText (ls.getD j "") && indentWidth (ls.getD j "") < indentWidth (ls.getD i "")).getLast?

/-- The number of the nearest line with text before a line. -/
def lastText? (ls : List String) (i : Nat) : Option Nat :=
  ((List.range i).filter fun j => !isBlankText (ls.getD j "")).getLast?

/-- A line is above another one in their outline if it is the other's parent, or above the parent. -/
def IsAbove (ls : List String) : Nat → Nat → Prop :=
  Relation.TransGen fun j i => parentLine? ls i = some j

/-- The line of the last of some rows that is narrower than a width. -/
def lastNarrower? (rows : List Row) (width : Nat) : Option Nat :=
  ((rows.filter (·.width < width)).getLast?).map (·.line)

/-- The lines of some rows, each with that of the last narrower row before it. -/
def rowPlaces (before : List Row) : List Row → List (Option Nat × Option Nat)
  | [] => []
  | row :: rest =>
    (some row.line, lastNarrower? before row.width) :: rowPlaces (before ++ [row]) rest

section Rows

variable {before front back rows : List Row} {row : Row} {width : Nat}

theorem rowPlaces_append (before front back : List Row) :
    rowPlaces before (front ++ back) = rowPlaces before front ++ rowPlaces (before ++ front) back := by
  induction front generalizing before with
  | nil => simp [rowPlaces]
  | cons row front ih => simp [rowPlaces, ih]

theorem lastNarrower?_concat (h : row.width < width) (before : List Row) :
    lastNarrower? (before ++ [row]) width = some row.line := by
  simp [lastNarrower?, h]

theorem lastNarrower?_append (h : ∀ row ∈ back, width ≤ row.width) (before : List Row) :
    lastNarrower? (before ++ back) width = lastNarrower? before width := by
  have hnone : back.filter (·.width < width) = [] := by
    rw [List.filter_eq_nil_iff]
    intro row hrow
    simpa using h row hrow
  rw [lastNarrower?, List.filter_append, hnone, List.append_nil, lastNarrower?]

/-- In the tree, the parent of a row is the last narrower row before it. What is known of the rows
before a forest is only used for the rows that are no wider than its first: all others have their
parents in the forest. -/
theorem places_forest {parent : Option Nat}
    (h : ∀ row ∈ rows, ∀ first ∈ rows.head?, row.width ≤ first.width →
      lastNarrower? before row.width = parent) :
    places parent (forest rows) = rowPlaces before rows := by
  induction rows using forest.induct generalizing before parent with
  | case1 => rw [forest]; rfl
  | case2 row rest ihBelow ihBehind =>
    let below := rest.takeWhile (row.width < ·.width)
    let behind := rest.dropWhile (row.width < ·.width)
    have hbelow : ∀ r ∈ below, row.width < r.width := fun r hr => by
      simpa using List.all_eq_true.1 List.all_takeWhile r hr
    have hbehind : ∀ r ∈ behind, ∀ first ∈ behind.head?, r.width ≤ first.width →
        lastNarrower? (before ++ row :: below) r.width = parent := by
      intro r hr first hfirst hle
      have hends := List.head?_dropWhile_not (fun r : Row => decide (row.width < r.width)) rest
      rw [Option.mem_def.1 hfirst] at hends
      simp only [decide_eq_false_iff_not] at hends
      have hwider : ∀ other ∈ row :: below, r.width ≤ other.width := by
        intro other hother
        rcases List.mem_cons.1 hother with rfl | hother
        · omega
        · have := hbelow other hother
          omega
      rw [lastNarrower?_append hwider]
      exact h r (List.mem_cons_of_mem _ ((List.dropWhile_sublist _).subset hr)) row rfl (by omega)
    have hfirst : lastNarrower? before row.width = parent :=
      h row List.mem_cons_self row rfl (Nat.le_refl _)
    have hchildren : places (some row.line) (forest below) = rowPlaces (before ++ [row]) below :=
      ihBelow fun r hr _ _ _ => lastNarrower?_concat (hbelow r hr) before
    have hrest : places parent (forest behind) = rowPlaces (before ++ row :: below) behind :=
      ihBehind hbehind
    have hsplit : rest = below ++ behind := (List.takeWhile_append_dropWhile).symm
    calc places parent (forest (row :: rest))
        = (some row.line, parent) :: (places (some row.line) (forest below) ++
            places parent (forest behind)) := by
          rw [forest, places, Item.places, List.cons_append]
      _ = (some row.line, lastNarrower? before row.width) ::
            rowPlaces (before ++ [row]) (below ++ behind) := by
          rw [hchildren, hrest, hfirst, rowPlaces_append, List.append_assoc, List.singleton_append]
      _ = rowPlaces before (row :: rest) := by rw [rowPlaces, ← hsplit]

/-- The items of a forest are the rows, each with the deeper rows right after it. -/
theorem mem_preorder_forest {item : Item} : item ∈ preorder (forest rows) ↔
    ∃ front row back, rows = front ++ row :: back ∧
      item = ⟨row.text, forest (back.takeWhile (row.width < ·.width)), some row.line⟩ := by
  rw [preorder_forest]
  induction rows with
  | nil => simp [itemsOf]
  | cons row rest ih =>
    rw [itemsOf, List.mem_cons, ih]
    constructor
    · rintro (rfl | ⟨front, other, back, rfl, rfl⟩)
      · exact ⟨[], row, rest, rfl, rfl⟩
      · exact ⟨row :: front, other, back, rfl, rfl⟩
    · rintro ⟨front, other, back, hrows, rfl⟩
      cases front with
      | nil =>
        cases hrows
        exact .inl rfl
      | cons _ front =>
        cases hrows
        exact .inr ⟨front, other, back, rfl, rfl⟩

end Rows

section Lines

variable {ls : List String}

/-- The rows of some lines that are of a width asked for, by the numbers of their lines. -/
theorem map_line_filter_rowsFrom (ls : List String) (p : Nat → Bool) :
    ((rowsFrom 0 ls).filter (p ·.width)).map (·.line) = (List.range ls.length).filter fun i =>
      !isBlankText (ls.getD i "") && p (indentWidth (ls.getD i "")) := by
  induction ls using List.reverseRecOn with
  | nil => rfl
  | append_singleton ls line ih =>
    have hbefore : (List.range ls.length).filter (fun i =>
        !isBlankText ((ls ++ [line]).getD i "") && p (indentWidth ((ls ++ [line]).getD i ""))) =
        (List.range ls.length).filter fun i =>
          !isBlankText (ls.getD i "") && p (indentWidth (ls.getD i "")) := by
      refine List.filter_congr fun i hi => ?_
      rw [List.getD_append _ _ _ _ (List.mem_range.1 hi)]
    have hlast : (ls ++ [line]).getD ls.length "" = line := getD_length_append ls [] line
    rw [rowsFrom_append, List.filter_append, List.map_append, ih, List.length_append,
      List.length_singleton, List.range_succ, List.filter_append, hbefore]
    congr 1
    cases hblank : isBlankText line with
    | true => simp [hblank, rowsFrom]
    | false =>
      rw [rowsFrom_cons hblank, Nat.zero_add]
      cases hp : p (indentWidth line) <;> simp [hblank, hp, rowsFrom]

theorem map_line_rowsFrom (ls : List String) : (rowsFrom 0 ls).map (·.line) = textLines ls := by
  have hall := map_line_filter_rowsFrom ls fun _ => true
  rw [List.filter_eq_self.2 fun _ _ => rfl] at hall
  simpa only [Bool.and_true, textLines] using hall

theorem lastNarrower?_rowsFrom (front back : List String) (line : String) :
    lastNarrower? (rowsFrom 0 front) (indentWidth line) =
      parentLine? (front ++ line :: back) front.length := by
  rw [lastNarrower?, ← List.getLast?_map, map_line_filter_rowsFrom front (· < indentWidth line),
    parentLine?, getD_length_append]
  congr 1
  refine List.filter_congr fun j hj => ?_
  rw [List.getD_append _ _ _ _ (List.mem_range.1 hj)]

theorem rowPlaces_rowsFrom (front back : List String) :
    rowPlaces (rowsFrom 0 front) (rowsFrom front.length back) =
      ((rowsFrom front.length back).map (·.line)).map
        fun i => (some i, parentLine? (front ++ back) i) := by
  induction back generalizing front with
  | nil => rfl
  | cons line back ih =>
    have hrest := ih (front ++ [line])
    rw [List.length_append, List.length_singleton, List.append_assoc, List.singleton_append,
      rowsFrom_append, Nat.zero_add] at hrest
    cases hblank : isBlankText line with
    | true =>
      rw [rowsFrom_cons_blank hblank] at hrest ⊢
      rwa [show rowsFrom (front.length + 1) [] = [] from rfl, List.append_nil] at hrest
    | false =>
      rw [rowsFrom_cons hblank] at hrest ⊢
      rw [rowPlaces, List.map_cons, List.map_cons, ← hrest, lastNarrower?_rowsFrom front back line]
      rfl

/-- Every line with text is one item, in the order of the lines, below the nearest line before it
that is indented less. -/
theorem places_forest_rows (ls : List String) :
    places none (forest (rows ls)) = (textLines ls).map fun i => (some i, parentLine? ls i) := by
  have hplaces : places none (forest (rowsFrom 0 ls)) = rowPlaces [] (rowsFrom 0 ls) :=
    places_forest fun _ _ _ _ _ => rfl
  have hlines := rowPlaces_rowsFrom [] ls
  rw [List.length_nil, List.nil_append, map_line_rowsFrom] at hlines
  exact hplaces.trans hlines

theorem lines_preorder_forest_rows (ls : List String) :
    (preorder (forest (rows ls))).map (·.line) = (textLines ls).map some := by
  rw [lines_forest, ← map_line_rowsFrom, List.map_map]
  rfl

/-- A row among those of some lines was made of one of them, and the other rows of the lines before
and after it. -/
theorem rowsFrom_eq_append {front back : List Row} {row : Row} {n : Nat}
    (h : rowsFrom n ls = front ++ row :: back) :
    ∃ before line after, ls = before ++ line :: after ∧
      row = ⟨indentWidth line, itemText line, n + before.length⟩ ∧
      back = rowsFrom (n + before.length + 1) after := by
  induction ls generalizing n front with
  | nil => simp [rowsFrom] at h
  | cons line ls ih =>
    cases hblank : isBlankText line with
    | true =>
      rw [rowsFrom_cons_blank hblank] at h
      obtain ⟨before, other, after, rfl, hrow, hback⟩ := ih h
      refine ⟨line :: before, other, after, rfl, ?_⟩
      rw [List.length_cons, Nat.add_comm before.length 1, ← Nat.add_assoc]
      exact ⟨hrow, hback⟩
    | false =>
      rw [rowsFrom_cons hblank] at h
      cases front with
      | nil =>
        cases h
        exact ⟨[], line, ls, rfl, rfl, rfl⟩
      | cons _ front =>
        obtain ⟨-, h⟩ := List.cons.inj h
        obtain ⟨before, other, after, rfl, hrow, hback⟩ := ih h
        refine ⟨line :: before, other, after, rfl, ?_⟩
        rw [List.length_cons, Nat.add_comm before.length 1, ← Nat.add_assoc]
        exact ⟨hrow, hback⟩

/-- Of a line and the rows of those after it, the last is that of the last line with text. -/
theorem max?_rowsFrom (n : Nat) (ls : List String) :
    (n :: (rowsFrom (n + 1) ls).map (·.line)).max? =
      some (n + (ls.reverse.dropWhile isBlankText).length) := by
  induction ls using List.reverseRecOn with
  | nil => rfl
  | append_singleton ls line ih =>
    rw [rowsFrom_append, List.reverse_append, List.reverse_singleton, List.singleton_append]
    cases hblank : isBlankText line with
    | true =>
      rw [rowsFrom_cons_blank hblank, List.dropWhile_cons_of_pos hblank, ← ih]
      simp [rowsFrom]
    | false =>
      rw [rowsFrom_cons hblank, List.dropWhile_cons_of_neg (by simp [hblank]), List.length_cons,
        List.length_reverse, List.max?_eq_some_iff]
      constructor
      · simp
        omega
      · intro i hi
        rcases List.mem_cons.1 hi with rfl | hi
        · exact Nat.le_add_right _ _
        · obtain ⟨row, hrow, rfl⟩ := List.mem_map.1 hi
          rcases List.mem_append.1 hrow with hrow | hrow
          · have := line_lt_of_mem_rowsFrom hrow
            omega
          · have := line_lt_of_mem_rowsFrom (rowsFrom_cons hblank _ [] ▸ hrow)
            rw [List.length_singleton] at this
            omega

/-- The items in the tree of a line go as far as the block of the line. -/
theorem max?_preorder_forest_rows {item : Item} (hitem : item ∈ preorder (forest (rows ls))) {i : Nat}
    (hline : item.line = some i) :
    (item.preorder.filterMap (·.line)).max? = some (blockEnd ls i) := by
  obtain ⟨front, row, back, hrows, rfl⟩ := mem_preorder_forest.1 hitem
  obtain ⟨before, line, after, rfl, rfl, rfl⟩ := rowsFrom_eq_append hrows
  obtain rfl : 0 + before.length = i := Option.some.inj hline
  have hsubtree := filterMap_line_forest
    ((rowsFrom (0 + before.length + 1) after).takeWhile (indentWidth line < ·.width))
  rw [takeWhile_rowsFrom, Nat.zero_add] at hsubtree
  rw [Item.preorder, List.filterMap_cons]
  simp only [Nat.zero_add, takeWhile_rowsFrom, hsubtree]
  rw [max?_rowsFrom, blockEnd, bodyLength, getD_length_append, drop_length_append]

theorem getLast?_filter_range {p : Nat → Bool} {n j : Nat} :
    ((List.range n).filter p).getLast? = some j ↔
      j < n ∧ p j = true ∧ ∀ k, j < k → k < n → p k = false := by
  induction n with
  | zero => simp
  | succ n ih =>
    rw [List.range_succ, List.filter_append, List.filter_singleton]
    cases hp : p n with
    | true =>
      rw [cond_true, List.getLast?_concat, Option.some.injEq]
      constructor
      · rintro rfl
        exact ⟨Nat.lt_succ_self n, hp, fun k _ _ => by omega⟩
      · rintro ⟨hj, -, hlast⟩
        by_contra hne
        exact absurd (hlast n (by omega) (Nat.lt_succ_self n)) (by simp [hp])
    | false =>
      rw [cond_false, List.append_nil, ih]
      constructor
      · rintro ⟨hj, hpj, hlast⟩
        refine ⟨by omega, hpj, fun k hjk hk => ?_⟩
        rcases Nat.lt_succ_iff_lt_or_eq.1 hk with hk | rfl
        · exact hlast k hjk hk
        · exact hp
      · rintro ⟨hj, hpj, hlast⟩
        have hne : j ≠ n := by
          rintro rfl
          rw [hp] at hpj
          cases hpj
        exact ⟨by omega, hpj, fun k hjk hk => hlast k hjk (by omega)⟩

theorem exists_getLast?_filter_range {p : Nat → Bool} {n j : Nat} (hj : j < n) (hp : p j = true) :
    ∃ k, ((List.range n).filter p).getLast? = some k := by
  have hne : (List.range n).filter p ≠ [] :=
    List.ne_nil_of_mem (List.mem_filter.2 ⟨List.mem_range.2 hj, hp⟩)
  exact ⟨_, List.getLast?_eq_some_getLast hne⟩

theorem lastText?_eq_some {i j : Nat} : lastText? ls i = some j ↔
    j < i ∧ isBlankText (ls.getD j "") = false ∧
      ∀ k, j < k → k < i → isBlankText (ls.getD k "") = true := by
  rw [lastText?, getLast?_filter_range]
  simp only [Bool.not_eq_true', Bool.not_eq_false']

theorem parentLine?_eq_some {i j : Nat} : parentLine? ls i = some j ↔
    j < i ∧ (isBlankText (ls.getD j "") = false ∧
        indentWidth (ls.getD j "") < indentWidth (ls.getD i "")) ∧
      ∀ k, j < k → k < i → isBlankText (ls.getD k "") = false →
        indentWidth (ls.getD i "") ≤ indentWidth (ls.getD k "") := by
  have hnot (k : Nat) : (!isBlankText (ls.getD k "") &&
      decide (indentWidth (ls.getD k "") < indentWidth (ls.getD i ""))) = false ↔
      (isBlankText (ls.getD k "") = false →
        indentWidth (ls.getD i "") ≤ indentWidth (ls.getD k "")) := by
    cases isBlankText (ls.getD k "") <;> simp
  rw [parentLine?, getLast?_filter_range]
  simp only [hnot, Bool.and_eq_true, Bool.not_eq_true', decide_eq_true_eq]

/-- A line is above the lines that come after it as long as all lines with text are deeper. -/
theorem isAbove_iff {i j : Nat} : IsAbove ls j i ↔
    j < i ∧ isBlankText (ls.getD j "") = false ∧
      indentWidth (ls.getD j "") < indentWidth (ls.getD i "") ∧
      ∀ k, j < k → k < i → isBlankText (ls.getD k "") = false →
        indentWidth (ls.getD j "") < indentWidth (ls.getD k "") := by
  constructor
  · intro h
    induction h with
    | single hparent =>
      obtain ⟨hlt, ⟨htext, hless⟩, hnear⟩ := parentLine?_eq_some.1 hparent
      exact ⟨hlt, htext, hless, fun k hjk hki hk => Nat.lt_of_lt_of_le hless (hnear k hjk hki hk)⟩
    | @tail parent i _ hparent ih =>
      obtain ⟨hlt, htext, hless, hdeeper⟩ := ih
      obtain ⟨hlt', ⟨-, hless'⟩, hnear⟩ := parentLine?_eq_some.1 hparent
      refine ⟨by omega, htext, by omega, fun k hjk hki hk => ?_⟩
      rcases Nat.lt_trichotomy k parent with hkp | rfl | hkp
      · exact hdeeper k hjk hkp hk
      · exact hless
      · have := hnear k hkp hki hk
        omega
  · induction i using Nat.strong_induction_on with
    | _ i ih =>
      rintro ⟨hlt, htext, hless, hdeeper⟩
      obtain ⟨parent, hparent⟩ : ∃ parent, parentLine? ls i = some parent :=
        exists_getLast?_filter_range hlt (by simp only [htext, hless]; rfl)
      obtain ⟨hlt', ⟨htext', hless'⟩, hnear⟩ := parentLine?_eq_some.1 hparent
      rcases Nat.lt_trichotomy j parent with hjp | rfl | hjp
      · have habove : IsAbove ls j parent := ih parent hlt' ⟨hjp, htext,
          hdeeper parent hjp hlt' htext', fun k hjk hkp => hdeeper k hjk (hkp.trans hlt')⟩
        exact habove.tail hparent
      · exact .single hparent
      · have := hnear j hjp hlt htext
        omega

/-- Lines without line boundaries make a text whose outline is theirs. -/
theorem ofText_unlines (h : ∀ l ∈ ls, ∀ c ∈ l.toList, isLineBoundary c = false) :
    ofText (unlines ls) = forest (rows ls) := by
  by_cases hnil : ls = []
  · subst hnil
    rfl
  · have hsplit : lines (unlines ls) = ls := by
      refine lines_unlines_of_no_newline hnil fun l hl hn => ?_
      exact absurd (h l hl _ hn) (by decide)
    have hboundary : ∀ c ∈ (unlines ls).toList, isLineBoundary c = true → c = '\n' := by
      intro c hc hboundary
      by_contra hne
      obtain ⟨l, hl, hcl⟩ := exists_of_mem_unlines hc hne
      rw [h l hl c hcl] at hboundary
      cases hboundary
    rw [ofText_of_newlines hboundary, hsplit]
    rfl

/-- The outline of some lines has one item for each line with text, in preorder by the numbers of the
lines. The parent of each is the nearest line with text before it that is indented less, if there
is one, and the largest number in the tree of an item is that of the line its block ends with. -/
theorem outline_agrees_with_blocks (h : ∀ l ∈ ls, ∀ c ∈ l.toList, isLineBoundary c = false) :
    let items := ofText (unlines ls)
    (preorder items).map (·.line) = (textLines ls).map some ∧
      places none items = (textLines ls).map (fun i => (some i, parentLine? ls i)) ∧
      ∀ item ∈ preorder items, ∀ i, item.line = some i →
        (item.preorder.filterMap (·.line)).max? = some (blockEnd ls i) := by
  intro items
  have hitems : items = forest (rows ls) := ofText_unlines h
  rw [hitems]
  exact ⟨lines_preorder_forest_rows ls, places_forest_rows ls,
    fun _ hitem _ hline => max?_preorder_forest_rows hitem hline⟩

/-- Lines with a tab beside blanks, a blank line within a block, and a dedent to a width that no line
before has. -/
def raggedLines : List String := ["- a", "\t- b", "", "      c", "   # d", "- e"]

theorem outline_agrees_with_blocks_ragged :
    let items := ofText (unlines raggedLines)
    (preorder items).map (·.line) = [some 0, some 1, some 3, some 4, some 5] ∧
      places none items = [(some 0, none), (some 1, some 0), (some 3, some 1), (some 4, some 0),
        (some 5, none)] ∧
      ∀ item ∈ preorder items, ∀ i, item.line = some i →
        (item.preorder.filterMap (·.line)).max? = some (blockEnd raggedLines i) := by
  have hlines : ∀ l ∈ raggedLines, ∀ c ∈ l.toList, isLineBoundary c = false := by
    have hall : ∀ l ∈ raggedLines, l.toList.any isLineBoundary = false := by decide +kernel
    exact fun l hl => by simpa using hall l hl
  obtain ⟨hnumbers, hplaces, hends⟩ := outline_agrees_with_blocks hlines
  have htext : textLines raggedLines = [0, 1, 3, 4, 5] := by decide +kernel
  have hparents : [0, 1, 3, 4, 5].map (fun i => (some i, parentLine? raggedLines i)) =
      [(some 0, none), (some 1, some 0), (some 3, some 1), (some 4, some 0), (some 5, none)] := by
    decide +kernel
  rw [htext] at hnumbers hplaces
  exact ⟨hnumbers, hplaces.trans hparents, hends⟩

end Lines

end BulletScript.Outline
