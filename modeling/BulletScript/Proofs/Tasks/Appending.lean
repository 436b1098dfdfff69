import BulletScript.Proofs.Tasks.Injection

/-! Edits that add lines below an item: they are put at the end of the item's block, below the line
that is found for the item. An item whose line was moved is looked for by its text, and the first
line with that text may be another one. -/
namespace BulletScript.Tasks

open Text Outline Files

/-- An edit that adds lines at the end of an item's block and does nothing else. -/
def appending (children : List ChildLine) : Update := { appendChildren := children }

/-- The lines below a line, with others at the end of its block. -/
def extendBlock (width : Nat) (added below : List String) : List String :=
  below.take (bodyLength width below) ++ added ++ below.drop (bodyLength width below)

/-- Lines to add as they are written below a line. -/
def rendered (unit line : String) (children : List ChildLine) : List String :=
  children.map (ChildLine.line unit (leadingBlanks line))

/-- A line to add whose texts do not break it. -/
structure ChildLine.Single (child : ChildLine) : Prop where
  text : SingleLine child.text
  marker : SingleLine child.marker

/-- A line to add that is seen to be below the item. -/
structure ChildLine.Nested (child : ChildLine) : Prop where
  shown : isBlankText child.marker = false
  deep : 0 ≤ child.indent

variable {unit base s line : String} {before after added below : List String}
  {children : List ChildLine} {width : Nat}

theorem ChildLine.Single.singleLine {child : ChildLine} (h : child.Single) (hunit : IndentUnit unit)
    (hbase : SingleLine base) : SingleLine (child.line unit base) := by
  have hrepeated (n : Nat) : SingleLine (repeated unit n) := by
    refine hunit.single.of_subset fun c hc => ?_
    simp only [repeated, String.toList_ofList, List.mem_flatten, List.mem_replicate] at hc
    obtain ⟨_, ⟨-, rfl⟩, hc⟩ := hc
    exact hc
  simp only [ChildLine.line, singleLine_append]
  exact ⟨⟨⟨⟨hbase, hrepeated _⟩, h.marker⟩, by decide, by decide⟩, h.text⟩

/-- Lines to add are in the block of the line they are written below. -/
theorem ChildLine.Nested.inside {child : ChildLine} (h : child.Nested) (hunit : IndentUnit unit)
    (line : String) :
    isBlankText (child.line unit (leadingBlanks line)) = false ∧
      indentWidth line < indentWidth (child.line unit (leadingBlanks line)) :=
  ⟨not_isBlankText_line h.shown _ _, indentWidth_lt_line hunit h.deep line⟩

theorem bodyLength_append_of_deep (rest : List String)
    (h : ∀ l ∈ added, isBlankText l = false ∧ width < indentWidth l) :
    bodyLength width (added ++ rest) = added.length + bodyLength width rest := by
  induction added with
  | nil => simp
  | cons l more ih =>
    obtain ⟨hl, hmore⟩ := List.forall_mem_cons.1 h
    rw [List.cons_append, bodyLength_cons hl.1 hl.2, ih hmore, List.length_cons]
    omega

/-- The block ends with the lines that were put at its end. -/
theorem take_extendBlock (h : ∀ l ∈ added, isBlankText l = false ∧ width < indentWidth l) :
    (extendBlock width added below).take (bodyLength width (extendBlock width added below)) =
      below.take (bodyLength width below) ++ added := by
  rcases List.eq_nil_or_concat added with rfl | ⟨_, _, hadded⟩
  · simp [extendBlock]
  · have hbody := bodyLength_append_of_deep (below.drop (bodyLength width below)) h
    rw [bodyLength_drop] at hbody
    have hpos : 0 < added.length := by simp [hadded]
    have hblock : ∀ l ∈ below.take (bodyLength width below), staysBelow width l = true :=
      fun l hl => staysBelow_of_mem_block hl
    rw [extendBlock, List.append_assoc, bodyLength_append_of_pos hblock (by omega), hbody,
      Nat.add_zero, ← List.length_append, ← List.append_assoc, List.take_left]

theorem length_take_bodyLength (width : Nat) (below : List String) :
    (below.take (bodyLength width below)).length = bodyLength width below := by
  rw [List.length_take, Nat.min_eq_left (bodyLength_le _ _)]

theorem bodyLength_extendBlock_of_deep
    (h : ∀ l ∈ added, isBlankText l = false ∧ width < indentWidth l) :
    bodyLength width (extendBlock width added below) = bodyLength width below + added.length := by
  have hlength := congrArg List.length (take_extendBlock h : _ = below.take _ ++ added)
  rwa [length_take_bodyLength, List.length_append, length_take_bodyLength] at hlength

/-- Lines that are added below deep lines come behind them. -/
theorem extendBlock_extendBlock_of_deep
    (h : ∀ l ∈ added, isBlankText l = false ∧ width < indentWidth l) (more : List String) :
    extendBlock width more (extendBlock width added below) =
      extendBlock width (added ++ more) below := by
  have hdrop : (extendBlock width added below).drop (bodyLength width below + added.length) =
      below.drop (bodyLength width below) := by
    have hlength : (below.take (bodyLength width below) ++ added).length =
        bodyLength width below + added.length := by
      rw [List.length_append, length_take_bodyLength]
    rw [extendBlock, ← hlength, List.drop_left]
  rw [extendBlock, take_extendBlock h, bodyLength_extendBlock_of_deep h, hdrop]
  simp [extendBlock]

/-- Lines that are not indented further than the block's line end the block at whose end they are
put. -/
theorem bodyLength_extendBlock_of_flat
    (h : ∀ l ∈ added, isBlankText l = false ∧ indentWidth l ≤ width) :
    bodyLength width (extendBlock width added below) = bodyLength width below := by
  cases added with
  | nil => simp [extendBlock]
  | cons l more =>
    obtain ⟨hl, hflat⟩ := h l (by simp)
    let block := below.take (bodyLength width below)
    have hends : bodyLength width (block ++ l :: []) ≤ block.length := by
      rw [← Nat.not_lt, lt_bodyLength_iff hl]
      exact fun hstays => Nat.not_lt.2 hflat hstays.2
    have hblock := bodyLength_append_of_le hl hends (more ++ below.drop (bodyLength width below))
    rw [bodyLength_take] at hblock
    rw [extendBlock, List.append_assoc]
    exact hblock

/-- Lines that are added when lines were put there that are not deep come before them. -/
theorem extendBlock_extendBlock_of_flat
    (h : ∀ l ∈ added, isBlankText l = false ∧ indentWidth l ≤ width) (more : List String) :
    extendBlock width more (extendBlock width added below) =
      extendBlock width (more ++ added) below := by
  have hlength := length_take_bodyLength width below
  have htake : (extendBlock width added below).take (bodyLength width below) =
      below.take (bodyLength width below) := by
    rw [extendBlock, List.append_assoc, List.take_append_of_le_length (by omega),
      List.take_of_length_le (by omega)]
  have hdrop : (extendBlock width added below).drop (bodyLength width below) =
      added ++ below.drop (bodyLength width below) := by
    rw [extendBlock, List.append_assoc, List.drop_append_of_le_length (by omega),
      List.drop_of_length_le (by omega), List.nil_append]
  rw [extendBlock, bodyLength_extendBlock_of_flat h, htake, hdrop, extendBlock]
  simp only [List.append_assoc]

/-- Where the lines are that were put at the end of a block. -/
theorem getElem?_extendBlock (width : Nat) (added below : List String) {i : Nat}
    (hi : i < added.length) :
    (extendBlock width added below)[bodyLength width below + i]? = added[i]? := by
  have hlength := length_take_bodyLength width below
  rw [extendBlock, List.append_assoc, List.getElem?_append_right (by omega), hlength,
    Nat.add_sub_cancel_left, List.getElem?_append_left hi]

theorem extendBlock_inj {others : List String} :
    extendBlock width added below = extendBlock width others below ↔ added = others := by
  rw [extendBlock, extendBlock, List.append_left_inj, List.append_right_inj]

theorem appending_content (children : List ChildLine) (old : String) :
    (appending children).content old = old := by
  simp [Update.content, appending]

theorem editLines_appending (unit : String) (children : List ChildLine)
    (before after : List String) (line : String) :
    editLines unit (appending children) (before ++ line :: after) before.length =
      before ++ (decoration line ++ (ListLine.ofText line).content) ::
        extendBlock (indentWidth line) (rendered unit line children)
          after := by
  have hkept (old : List String) : (appending children).kept old = old :=
    kept_of_no_offsets rfl rfl
  rw [editLines_append, appending_content, Update.children, hkept]
  simp [Update.arrange, appending, extendBlock, rendered]

/-- A document that has some lines and can be written. -/
structure Holds (store : Documents.Store) (tree : Tree) (path : String) (ls : List String) :
    Prop where
  read : store.read tree path = .ok (unlines ls)
  split : lines (unlines ls) = ls
  writable : ∀ text, ∃ tree', store.write tree path text = .ok tree'

section Documents

variable {editor : Editor} {tree tree' : Tree} {path : String} {ls : List String}
  {item : WorkItem}

theorem Holds.of_read {written : String} (hread : editor.store.read tree path = .ok s)
    (hwrite : editor.store.write tree path written = .ok tree') :
    Holds editor.store tree path (lines s) := by
  obtain ⟨place, hplace, hwritable, -⟩ := Documents.Store.write_eq_ok.1 hwrite
  have hs : unlines (lines s) = s := unlines_lines s
  exact ⟨by rw [hs, hread], by rw [hs],
    fun text => ⟨_, Documents.Store.write_eq_ok.2 ⟨place, hplace, hwritable, rfl⟩⟩⟩

/-- A document that was written with some lines has them. -/
theorem Holds.of_write {store : Documents.Store}
    (hwrite : store.write tree path (unlines ls) = .ok tree') (hne : ls ≠ [])
    (hls : ∀ l ∈ ls, SingleLine l) : Holds store tree' path ls :=
  have hread := read_unlines hwrite hne hls
  ⟨hread.1, hread.2, Documents.Store.write_write hwrite⟩

theorem Holds.singleLine {store : Documents.Store} (h : Holds store tree path ls) : ∀ l ∈ ls, SingleLine l :=
  fun _ hl => singleLine_of_mem_lines (no_return_of_read h.read) (h.split.symm ▸ hl)

theorem Holds.find_eq_ok {index : Nat} (h : Holds editor.store tree item.path ls)
    (hlocate : locate ls item = some index) : editor.find tree item = .ok (unlines ls, index) :=
  Editor.find_eq_ok.2 ⟨h.read, h.split.symm ▸ hlocate⟩

/-- An edit of the line that is found tells the item its place and its new text. -/
theorem Holds.update {index : Nat} (h : Holds editor.store tree item.path ls)
    (hlocate : locate ls item = some index) (u : Update) :
    ∃ tree', editor.update tree item u =
        ({ item with
            line := index
            text := u.content item.text
            tags := findTags (u.content item.text) }, .ok tree') ∧
      editor.store.write tree item.path (editText editor.indentUnit u (unlines ls) index) =
        .ok tree' := by
  obtain ⟨tree', hwrite⟩ := h.writable (editText editor.indentUnit u (unlines ls) index)
  obtain ⟨line, hget, hcontent⟩ := locate_eq_some hlocate
  refine ⟨tree', (Editor.update_eq_ok (h.find_eq_ok hlocate)).2 ⟨hwrite, ?_⟩, hwrite⟩
  rw [h.split, List.getD_eq_getElem?_getD, hget, Option.getD_some, hcontent]

/-- A line that is written anew on one line leaves every line on one. -/
theorem Holds.singleLine_of_rewritten {store : Documents.Store} {written : String}
    (h : Holds store tree path (before ++ line :: after)) (hwritten : SingleLine written) :
    ∀ l ∈ before ++ written :: after, SingleLine l := by
  intro l hl
  rcases List.mem_append.1 hl with hl | hl
  · exact h.singleLine l (List.mem_append_left _ hl)
  · rcases List.mem_cons.1 hl with rfl | hl
    · exact hwritten
    · exact h.singleLine l (by simp [hl])

theorem singleLine_leadingBlanks (h : SingleLine line) : SingleLine (leadingBlanks line) := by
  refine h.of_subset ?_
  rw [leadingBlanks, String.toList_ofList]
  exact (List.takeWhile_sublist _).subset

theorem singleLine_decoration (h : SingleLine line) : SingleLine (decoration line) := by
  refine h.of_subset ?_
  rw [decoration, dropEnd, String.toList_ofList]
  exact List.take_subset _ _

theorem singleLine_rendered (hunit : IndentUnit unit) (hline : SingleLine line)
    (hchildren : ∀ child ∈ children, child.Single) :
    ∀ l ∈ rendered unit line children, SingleLine l := by
  intro l hl
  obtain ⟨child, hchild, rfl⟩ := List.mem_map.1 hl
  exact (hchildren child hchild).singleLine hunit (singleLine_leadingBlanks hline)

/-- An edit that adds lines puts them at the end of the block of the line that is found. -/
theorem Holds.update_adding (h : Holds editor.store tree item.path (before ++ line :: after))
    (hlocate : locate (before ++ line :: after) item = some before.length)
    (hlast : after = [] → line ≠ "") (hcontent : SingleLine (ListLine.ofText line).content)
    (hadded : ∀ l ∈ rendered editor.indentUnit line children, SingleLine l) :
    ∃ item' tree', editor.update tree item (appending children) = (item', .ok tree') ∧
      Holds editor.store tree' item.path
        (before ++ (decoration line ++ (ListLine.ofText line).content) ::
          extendBlock (indentWidth line)
            (rendered editor.indentUnit line children) after) := by
  obtain ⟨tree', hupdate, hwrite⟩ := h.update hlocate (appending children)
  have htext := editText_eq_of_ne editor.indentUnit (appending children) h.split hlast
  rw [h.split, editLines_appending] at htext
  refine ⟨_, tree', hupdate, ?_⟩
  rw [htext] at hwrite
  have hsingle := h.singleLine
  have hline : SingleLine line := hsingle line (by simp)
  refine Holds.of_write hwrite (by simp) fun l hl => ?_
  simp only [extendBlock, List.mem_append, List.mem_cons] at hl
  rcases hl with hl | rfl | (hl | hl) | hl
  · exact hsingle l (by simp [hl])
  · exact singleLine_append.2 ⟨singleLine_decoration hline, hcontent⟩
  · exact hsingle l (by simp [List.mem_of_mem_take hl])
  · exact hadded l hl
  · exact hsingle l (by simp [List.mem_of_mem_drop hl])

theorem Holds.update_appending (h : Holds editor.store tree item.path (before ++ line :: after))
    (hlocate : locate (before ++ line :: after) item = some before.length)
    (hlast : after = [] → line ≠ "") (hcontent : SingleLine (ListLine.ofText line).content)
    (hunit : IndentUnit editor.indentUnit) (hchildren : ∀ child ∈ children, child.Single) :
    ∃ item' tree', editor.update tree item (appending children) = (item', .ok tree') ∧
      Holds editor.store tree' item.path
        (before ++ (decoration line ++ (ListLine.ofText line).content) ::
          extendBlock (indentWidth line)
            (rendered editor.indentUnit line children) after) :=
  h.update_adding hlocate hlast hcontent
    (singleLine_rendered hunit (h.singleLine line (by simp)) hchildren)

/-- An edit of a list line leaves the line as it is. -/
theorem Holds.update_adding_list
    (h : Holds editor.store tree item.path (before ++ line :: after))
    (hlocate : locate (before ++ line :: after) item = some before.length)
    (hlist : (ListLine.ofText line).bullet.isSome)
    (hadded : ∀ l ∈ rendered editor.indentUnit line children, SingleLine l) :
    ∃ item' tree', editor.update tree item (appending children) = (item', .ok tree') ∧
      Holds editor.store tree' item.path (before ++ line :: extendBlock (indentWidth line)
        (rendered editor.indentUnit line children) after) := by
  obtain ⟨b, hb⟩ := Option.isSome_iff_exists.1 hlist
  have hline : SingleLine line := h.singleLine line (by simp)
  have hwhole := decoration_append_content hlist hline.1
  have hcontent : SingleLine (ListLine.ofText line).content :=
    (singleLine_append.1 (hwhole.symm ▸ hline)).2
  have hlast : line ≠ "" := by
    rintro rfl
    exact absurd (not_isBlankText_of_bullet hb) (by decide)
  have hupdate := h.update_adding hlocate (fun _ => hlast) hcontent hadded
  rwa [hwhole] at hupdate

theorem Holds.update_appending_list
    (h : Holds editor.store tree item.path (before ++ line :: after))
    (hlocate : locate (before ++ line :: after) item = some before.length)
    (hlist : (ListLine.ofText line).bullet.isSome)
    (hunit : IndentUnit editor.indentUnit) (hchildren : ∀ child ∈ children, child.Single) :
    ∃ item' tree', editor.update tree item (appending children) = (item', .ok tree') ∧
      Holds editor.store tree' item.path (before ++ line :: extendBlock (indentWidth line)
        (rendered editor.indentUnit line children) after) :=
  h.update_adding_list hlocate hlist
    (singleLine_rendered hunit (h.singleLine line (by simp)) hchildren)

end Documents

theorem ofLine?_eq_some {path : String} {index : Int} {item : WorkItem}
    (h : WorkItem.ofLine? line path index = some item) :
    item.path = path ∧ item.line = index ∧ item.text = (ListLine.ofText line).content ∧
      (ListLine.ofText line).bullet.isSome := by
  obtain ⟨parsed, htask, hitem⟩ := Option.bind_eq_some_iff.1 h
  have hparsed : ListLine.ofText line = parsed := by simp [ListLine.ofText, htask]
  cases hitem
  refine ⟨rfl, rfl, by rw [hparsed], ?_⟩
  rw [hparsed]
  obtain ⟨_, _, htask⟩ := Option.bind_eq_some_iff.1 htask
  obtain ⟨_, _, htask⟩ := Option.bind_eq_some_iff.1 htask
  obtain ⟨_, _, htask⟩ := Option.bind_eq_some_iff.1 htask
  cases htask
  rfl

/-- An item that was moved down is found again if no line before it has its text. -/
theorem locate_append_of_first {item : WorkItem}
    (hbefore : ∀ l ∈ before, (ListLine.ofText l).content ≠ item.text)
    (hline : (ListLine.ofText line).content = item.text) (hitem : item.line ≤ before.length) :
    locate (before ++ line :: after) item = some before.length := by
  refine locate_eq_some_iff.2 ⟨⟨line, by simp, hline⟩, ?_⟩
  rcases Int.lt_or_eq_of_le hitem with hlt | heq
  · refine .inr ⟨fun l hnonneg hget => ?_, by simpa using hbefore⟩
    rw [List.getElem?_append_left (by omega)] at hget
    exact hbefore l (List.mem_of_getElem? hget)
  · exact .inl heq

/-- An item that was moved down is found above its line if a line there has its text. -/
theorem locate_of_double {item : WorkItem} (after : List String)
    (hitem : item.line < before.length)
    (hbefore : ∃ l ∈ before, (ListLine.ofText l).content = item.text) :
    ∃ front double back, before = front ++ double :: back ∧
      (ListLine.ofText double).content = item.text ∧
      locate (before ++ after) item = some front.length := by
  obtain ⟨double', hdouble, hsame⟩ := hbefore
  obtain ⟨index, hlocate⟩ : ∃ index, locate (before ++ after) item = some index :=
    exists_locate_eq_some ⟨double', List.mem_append_left after hdouble, hsame⟩
  obtain ⟨⟨double, hget, hcontent⟩, hwhere⟩ := locate_eq_some_iff.1 hlocate
  have hindex : index < before.length := by
    rcases hwhere with hline | ⟨-, hfirst⟩
    · omega
    · refine Nat.lt_of_not_le fun hle => hfirst double' ?_ hsame
      rw [List.take_append, List.take_of_length_le hle]
      exact List.mem_append_left _ hdouble
  rw [List.getElem?_append_left hindex] at hget
  obtain ⟨front, back, hsplit, rfl⟩ := exists_split hget
  exact ⟨front, double, back, hsplit, hcontent, hlocate⟩

theorem length_extendBlock (width : Nat) (added below : List String) :
    (extendBlock width added below).length = below.length + added.length := by
  have := bodyLength_le width below
  simp only [extendBlock, List.length_append, List.length_take, List.length_drop]
  omega

theorem mem_extendBlock {l : String} :
    l ∈ extendBlock width added below ↔ l ∈ below ∨ l ∈ added := by
  have hparts : l ∈ below ↔
      l ∈ below.take (bodyLength width below) ∨ l ∈ below.drop (bodyLength width below) := by
    rw [← List.mem_append, List.take_append_drop]
  rw [hparts]
  simp only [extendBlock, List.mem_append]
  exact or_right_comm

/-- The block of a line is extended above the first line that is not in it. -/
theorem extendBlock_append {rest : List String} (hline : isBlankText line = false)
    (h : bodyLength width (below ++ line :: rest) ≤ below.length) (others : List String) :
    extendBlock width added (below ++ line :: others) =
      extendBlock width added below ++ line :: others := by
  have hle := bodyLength_le width below
  rw [extendBlock, bodyLength_append_of_le hline h, List.take_append_of_le_length hle,
    List.drop_append_of_le_length hle, extendBlock]
  simp

end BulletScript.Tasks
