import BulletScript.Engine.Binding
import BulletScript.Proofs.Tasks.Edit
import BulletScript.Proofs.Tasks.Marked

/-! A line that tells of an error is put right below its item, and is dropped again, with all that
is below it, when errors are cleared. -/
namespace BulletScript.Engine

open Text Outline Files Tasks

/-- The edits that drop lines which tell of errors: at a success, at a reset, and in a step that
clears the task. -/
inductive Clears : Update → Prop
  | success {mark : String} (h : SingleLine mark) : Clears (Binding.successEdit mark errorBullet)
  | reset : Clears (Binding.resetEdit errorBullet)
  | clear {bullets : List String} (h : errorBullet ∈ bullets) : Clears (Act.clearEdit bullets)

/-- The document of an item once an error was told below the item and errors were cleared. -/
def clearedAfterError (editor : Editor) (tree : Tree) (item : WorkItem) (text : String)
    (u : Update) : Result String := do
  let (item, told) := editor.update tree item (Binding.errorEdit text)
  let (item, cleared) := editor.update (← told) item u
  editor.store.read (← cleared) item.path

/-- The line that tells of an error below an item. -/
def errorLine (unit line text : String) : String :=
  ChildLine.line unit (leadingBlanks line) { text, marker := errorBullet }

variable {unit line text : String} {u : Update}

theorem cutSuccess_subset (s : String) : (cutSuccess s).toList ⊆ s.toList := by
  unfold cutSuccess cut?
  cases hcut : cutChars successMark.toList s.toList with
  | none => exact List.Subset.refl _
  | some parts =>
    obtain ⟨before, after⟩ := parts
    intro c hc
    have hbefore : c ∈ before := by
      simp only [Option.map_some, trimRight, trimRightChars, String.toList_ofList,
        List.mem_reverse] at hc
      exact List.mem_reverse.1 ((List.dropWhile_sublist _).subset hc)
    rw [cutChars_eq hcut]
    simp [hbefore]

theorem Clears.mem_removeMarked (h : Clears u) : '*' ∈ u.removeMarked.toList := by
  have hbullet : '*' ∈ errorBullet.toList := by decide
  cases h with
  | success => exact hbullet
  | reset => exact hbullet
  | @clear bullets hmem =>
    rw [Act.clearEdit, String.toList_intercalate]
    refine mem_intercalate (List.mem_map_of_mem (List.mem_filter.2 ⟨hmem, ?_⟩)) hbullet
    decide

/-- Clearing errors drops marked lines and leaves it at that. -/
theorem Clears.children (h : Clears u) (base : String) (old : List String) :
    u.children unit base old = dropMarked u.removeMarked old := by
  have hne : u.removeMarked ≠ "" := by
    intro hempty
    have := h.mem_removeMarked
    simp [hempty] at this
  have hkept : u.kept old = dropMarked u.removeMarked old := by
    have hnone : u.removeAll = false ∧ u.removeOffsets = [] := by
      cases h <;> exact ⟨rfl, rfl⟩
    rw [kept_of_no_offsets hnone.1 hnone.2, if_neg hne]
  rw [Update.children, hkept]
  cases h <;> simp [Update.arrange, Binding.successEdit, Binding.resetEdit, Act.clearEdit]

theorem Clears.singleLine_content (h : Clears u) {old : String} (hold : SingleLine old) :
    SingleLine (u.content old) := by
  cases h with
  | @success mark hmark =>
    have hspace : SingleLine " " := ⟨by decide, by decide⟩
    by_cases hempty : mark = ""
    · simpa [Update.content, Binding.successEdit, hempty] using hold
    · simpa [Update.content, Binding.successEdit, hempty] using
        singleLine_append.2 ⟨singleLine_append.2 ⟨hold, hspace⟩, hmark⟩
  | reset => exact hold.of_subset (cutSuccess_subset old)
  | clear => exact hold

section ErrorLine

variable (hunit : IndentUnit unit) (hline : SingleLine line)

theorem toList_errorLine (unit line text : String) : (errorLine unit line text).toList =
    (leadingBlanks line).toList ++ unit.toList ++ '*' :: ' ' :: text.toList := by
  simp [errorLine, ChildLine.line, errorBullet, repeated]

include hunit in
theorem blank_of_mem_errorLine :
    ∀ c ∈ (leadingBlanks line).toList ++ unit.toList, isBlank c = true := by
  intro c hc
  rcases List.mem_append.1 hc with hc | hc
  · exact leadingBlanks_blank line c hc
  · exact List.all_eq_true.1 hunit.blank c hc

include hunit hline in
theorem singleLine_errorLine {text : String} (htext : SingleLine text) :
    SingleLine (errorLine unit line text) := by
  have hblanks : SingleLine (leadingBlanks line) := by
    refine hline.of_subset ?_
    rw [leadingBlanks, String.toList_ofList]
    exact (List.takeWhile_sublist _).subset
  have hbullet : SingleLine "* " := ⟨by decide, by decide⟩
  have hall : SingleLine (leadingBlanks line ++ unit ++ "* " ++ text) := by
    simp only [singleLine_append]
    exact ⟨⟨⟨hblanks, hunit.single⟩, hbullet⟩, htext⟩
  refine hall.of_subset ?_
  rw [toList_errorLine]
  simp

include hunit in
theorem isMarked_errorLine {markers : List Char} (hmarkers : '*' ∈ markers)
    (hnote : SingleLine (errorLine unit line text)) :
    isMarked markers (errorLine unit line text) = true := by
  have hcut : cutBullet? (errorLine unit line text).toList =
      some ((leadingBlanks line).toList ++ unit.toList, '*', text.toList.dropWhile isBlank) := by
    rw [toList_errorLine]
    exact cutBullet?_append (blank_of_mem_errorLine hunit) (by decide) (by decide)
  rw [isMarked, bullet_of_cutBullet? hcut hnote.1]
  simpa using hmarkers

end ErrorLine

theorem errorEdit_content (text old : String) : (Binding.errorEdit text).content old = old := by
  simp [Update.content, Binding.errorEdit]

theorem errorEdit_children (text : String) (old : List String) :
    (Binding.errorEdit text).children unit (leadingBlanks line) old =
      errorLine unit line text :: old := by
  have hkept : (Binding.errorEdit text).kept old = old := kept_of_no_offsets rfl rfl
  rw [Update.children, hkept]
  simp [Update.arrange, Binding.errorEdit, errorLine]

section Document

variable {editor : Editor} {tree tree₁ : Tree} {item item₁ : WorkItem} {s text : String}
  {before after : List String}

theorem singleLine_parts (hlist : (ListLine.ofText line).bullet.isSome)
    (hline : SingleLine line) :
    SingleLine (decoration line) ∧ SingleLine (ListLine.ofText line).content := by
  rwa [← singleLine_append, decoration_append_content hlist hline.1]

/-- An error is told by one more line, right below the item's, and the item is found there
again. -/
theorem errorEdit_written (hunit : IndentUnit editor.indentUnit)
    (hfind : editor.find tree item = .ok (s, before.length))
    (hs : lines s = before ++ line :: after)
    (hlist : (ListLine.ofText line).bullet.isSome)
    (hsingle : ∀ l ∈ before ++ line :: after, SingleLine l) (htext : SingleLine text)
    (htold : editor.update tree item (Binding.errorEdit text) = (item₁, .ok tree₁)) :
    let ls := before ++ line :: errorLine editor.indentUnit line text :: after
    editor.store.write tree item.path (unlines ls) = .ok tree₁ ∧ lines (unlines ls) = ls ∧
      editor.find tree₁ item₁ = .ok (unlines ls, before.length) ∧ item₁.path = item.path := by
  intro ls
  have hline : SingleLine line := hsingle line (by simp)
  obtain ⟨b, hb⟩ := Option.isSome_iff_exists.1 hlist
  obtain ⟨hwrite, hitem⟩ := (Editor.update_eq_ok hfind).1 htold
  have hlines : editLines editor.indentUnit (Binding.errorEdit text) (before ++ line :: after)
      before.length = ls := by
    rw [editLines_append, errorEdit_content, decoration_append_content hlist hline.1,
      errorEdit_children]
    simp [ls]
  rw [editText_eq _ _ hs (not_isBlankText_of_bullet hb), hs, hlines] at hwrite
  have hall : ∀ l ∈ ls, SingleLine l := by
    simpa [ls, or_imp, forall_and, singleLine_errorLine hunit hline htext] using hsingle
  obtain ⟨hread, hagain⟩ := read_unlines hwrite (by simp [ls]) hall
  refine ⟨hwrite, hagain, ?_, by rw [hitem]⟩
  rw [Editor.find_eq_ok, hagain, hitem]
  refine ⟨hread, locate_append rfl ?_⟩
  rw [hs, getD_length_append, errorEdit_content]

/-- Clearing errors drops the line that tells of one, with all below it, and nothing outside the
item's block. -/
theorem editLines_clears (hunit : IndentUnit unit) (hclears : Clears u)
    (hnote : SingleLine (errorLine unit line text)) (before after : List String) :
    editLines unit u (before ++ line :: errorLine unit line text :: after) before.length =
      before ++ (decoration line ++ u.content (ListLine.ofText line).content) ::
        dropMarked u.removeMarked (errorLine unit line text ::
          after.take (bodyLength (indentWidth line) after)) ++
        after.drop (bodyLength (indentWidth line) after) := by
  have hmark := isMarked_errorLine hunit hclears.mem_removeMarked hnote
  have hbody := bodyLength_cons (not_isBlankText_of_isMarked hmark)
    (indentWidth_lt_line hunit (Int.le_refl 0) line) after
  rw [editLines_append, hbody, hclears.children, List.take_succ_cons, List.drop_succ_cons]

theorem singleLine_cleared (hclears : Clears u) (hlist : (ListLine.ofText line).bullet.isSome)
    (hnote : SingleLine (errorLine unit line text))
    (hsingle : ∀ l ∈ before ++ line :: after, SingleLine l) (width : Nat) :
    ∀ l ∈ before ++ (decoration line ++ u.content (ListLine.ofText line).content) ::
        dropMarked u.removeMarked (errorLine unit line text :: after.take width) ++
        after.drop width, SingleLine l := by
  intro l hl
  simp only [List.append_assoc, List.mem_append, List.cons_append, List.mem_cons] at hl
  rcases hl with hl | rfl | hl | hl
  · exact hsingle l (by simp [hl])
  · obtain ⟨hdecoration, hcontent⟩ := singleLine_parts hlist (hsingle line (by simp))
    exact singleLine_append.2 ⟨hdecoration, hclears.singleLine_content hcontent⟩
  · rcases List.mem_cons.1 ((dropMarkedBelow_sublist _ _ _).subset hl) with rfl | hl
    · exact hnote
    · exact hsingle l (by simp [List.mem_of_mem_take hl])
  · exact hsingle l (by simp [List.mem_of_mem_drop hl])

/-- Once a line that tells of an error has been put below an item, clearing errors succeeds, and
the item's block is written without its marked lines. Every line of the block that is not marked and
not below a marked one stays, exactly if there is none of these among the first lines of the block,
those deeper than the error's line. -/
theorem clear_keeps_human_lines_iff {index : Nat} (hunit : IndentUnit editor.indentUnit)
    (hfind : editor.find tree item = .ok (s, index))
    (hlist : (ListLine.ofText ((lines s).getD index "")).bullet.isSome)
    (htext : SingleLine text) (hclears : Clears u)
    (herror : (editor.update tree item (Binding.errorEdit text)).2 = .ok tree₁) :
    let below := blockBelow (lines s) index
    let note := errorLine editor.indentUnit ((lines s).getD index "") text
    let kept := dropMarked u.removeMarked (note :: below)
    ∃ s₂ line, clearedAfterError editor tree item text u = .ok s₂ ∧
      lines s₂ = (lines s).take index ++ line :: kept ++
        (lines s).drop (blockEnd (lines s) index + 1) ∧
      ((humanLines u.removeMarked.toList below).Sublist kept ↔
        humanLines u.removeMarked.toList
          (below.takeWhile (staysBelow (indentWidth note))) = []) := by
  obtain ⟨before, line, after, hs, rfl⟩ := Editor.find_split hfind
  have hread := (Editor.find_eq_ok.1 hfind).1
  have hsingle : ∀ l ∈ before ++ line :: after, SingleLine l := fun l hl =>
    singleLine_of_mem_lines (no_return_of_read hread) (hs ▸ hl)
  have hline : SingleLine line := hsingle line (by simp)
  simp only [hs, getD_length_append] at hlist ⊢
  obtain ⟨item₁, htold⟩ : ∃ item₁,
      editor.update tree item (Binding.errorEdit text) = (item₁, .ok tree₁) :=
    ⟨_, Prod.ext rfl herror⟩
  obtain ⟨hwrite₁, hlines₁, hfind₁, hpath⟩ :=
    errorEdit_written hunit hfind hs hlist hsingle htext htold
  have hnote := singleLine_errorLine hunit hline htext
  have hmark := isMarked_errorLine hunit hclears.mem_removeMarked hnote
  obtain ⟨b, hb⟩ := Option.isSome_iff_exists.1 hlist
  have hall := singleLine_cleared hclears hlist hnote hsingle (bodyLength (indentWidth line) after)
  rw [← editLines_clears hunit hclears hnote] at hall
  let ls := editLines editor.indentUnit u
    (before ++ line :: errorLine editor.indentUnit line text :: after) before.length
  have hlines : ls = _ := editLines_clears hunit hclears hnote before after
  obtain ⟨tree₂, hwrite₂⟩ := Documents.Store.write_write hwrite₁ (unlines ls)
  obtain ⟨hread₂, hlines₂⟩ := read_unlines hwrite₂ (by simp [ls, hlines]) hall
  obtain ⟨item₂, hcleared, hpath₂⟩ : ∃ item₂,
      editor.update tree₁ item₁ u = (item₂, .ok tree₂) ∧ item₂.path = item.path := by
    refine ⟨_, (Editor.update_eq_ok hfind₁).2 ⟨?_, rfl⟩, hpath⟩
    rw [editText_eq _ _ hlines₁ (not_isBlankText_of_bullet hb), hlines₁, hpath]
    exact hwrite₂
  refine ⟨unlines ls, decoration line ++ u.content (ListLine.ofText line).content, ?_, ?_, ?_⟩
  · rw [clearedAfterError, htold]
    simpa only [bind, Except.bind, hcleared, hpath₂] using hread₂
  · rw [hlines₂, hlines, blockBelow_append, drop_blockEnd_append, List.take_left]
  · rw [blockBelow_append]
    exact humanLines_sublist_iff hmark _

end Document

/-- A document whose item has a line below it that is indented by four blanks. -/
def deepText : String := "- [ ] T\n    - by hand"

def deepTree : Tree := { root := "/", files := [(["a.md"], .text deepText)] }

def deepItem : WorkItem :=
  { text := "T", path := "a.md", line := 0, status := " ", tags := [], indent := "" }

def twoBlanks : Editor := { store := {}, indentUnit := "  " }

/-- A line of the item that a person wrote goes with the line of the error. -/
theorem clear_drops_deep_line :
    (clearedAfterError twoBlanks deepTree deepItem "✗ x" (Binding.resetEdit errorBullet)).toOption =
        some "- [ ] T" ∧
      humanLines errorBullet.toList (blockBelow (lines deepText) 0) = ["    - by hand"] := by
  decide +kernel

/-- Not all lines of the item stay that a person wrote. -/
theorem clear_keeps_human_lines_iff_deep :
    let below := blockBelow (lines deepText) 0
    let kept := dropMarked errorBullet (errorLine "  " ((lines deepText).getD 0 "") "✗ x" :: below)
    ∃ s₂ line, clearedAfterError twoBlanks deepTree deepItem "✗ x"
        (Binding.resetEdit errorBullet) = .ok s₂ ∧
      lines s₂ = (lines deepText).take 0 ++ line :: kept ++
        (lines deepText).drop (blockEnd (lines deepText) 0 + 1) ∧
      ¬(humanLines errorBullet.toList below).Sublist kept := by
  have hunit : IndentUnit twoBlanks.indentUnit := ⟨by decide, by decide, by decide, by decide⟩
  have hfind : twoBlanks.find deepTree deepItem = .ok (deepText, 0) :=
    eq_ok_of_toOption (by decide +kernel)
  obtain ⟨tree₁, herror⟩ :
      ∃ tree₁, (twoBlanks.update deepTree deepItem (Binding.errorEdit "✗ x")).2 = .ok tree₁ :=
    exists_eq_ok_of_isSome (by decide +kernel)
  obtain ⟨s₂, line, hcleared, hlines, hiff⟩ := clear_keeps_human_lines_iff hunit hfind
    (by decide +kernel) ⟨by decide, by decide⟩ .reset herror
  exact ⟨s₂, line, hcleared, hlines, fun hkept => absurd (hiff.1 hkept) (by decide +kernel)⟩

end BulletScript.Engine
