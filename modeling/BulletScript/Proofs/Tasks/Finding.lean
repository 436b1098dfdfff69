import BulletScript.Proofs.Outline.Line
import BulletScript.Proofs.Tasks.Appending
import BulletScript.Proofs.Tasks.Visit

/-! Where an item is found. An item that was moved is looked for by its text, and any line with that
content is taken for it, be it a task or not; one that was edited is found on its line again, unless
its new text begins with a blank right behind the brackets. -/
namespace BulletScript.Outline

open Text

variable {line added mark : String}

/-- A text put behind a task line is behind its content, unless the line ends with its brackets. -/
theorem content_append (htask : (taskLine? line).isSome) (hline : '\n' ∉ line.toList)
    (hadded : '\n' ∉ added.toList)
    (hopen : (ListLine.ofText line).content = "" → endsWith "]" line = false) :
    (ListLine.ofText (line ++ added)).content = (ListLine.ofText line).content ++ added := by
  obtain ⟨task, htask⟩ := Option.isSome_iff_exists.1 htask
  obtain ⟨p, rfl, -⟩ := exists_taskParts htask hline
  have hnewline : '\n' ∉ p.behind ++ added.toList := by simp [p.behind_line, hadded]
  rw [p.line_append hnewline, TaskParts.content_line, p.content_line, p.withBehind_behind]
  rw [p.content_line] at hopen
  cases hbehind : p.behind with
  | nil =>
    have hgap : p.gap = [] := by simp [TaskParts.gap, hbehind]
    have hclosed : endsWith "]" p.line = true := by
      simpa [TaskParts.line, hbehind, hgap] using p.endsWith_bracket.2 hgap
    rw [hbehind] at hopen
    exact absurd (hopen rfl) (by simp [hclosed])
  | cons c rest =>
    apply String.toList_injective
    by_cases hc : isBlank c <;> simp [behindStatus, hc]

/-- Behind a task line that ends with its brackets, the blank before a text belongs to the
brackets. -/
theorem content_append_closed (htask : (taskLine? line).isSome) (hline : '\n' ∉ line.toList)
    (hmark : '\n' ∉ mark.toList) (hempty : (ListLine.ofText line).content = "")
    (hclosed : endsWith "]" line = true) :
    (ListLine.ofText (line ++ " " ++ mark)).content = mark := by
  obtain ⟨task, htask⟩ := Option.isSome_iff_exists.1 htask
  obtain ⟨p, rfl, -⟩ := exists_taskParts htask hline
  rw [p.content_line, String.ofList_eq_empty_iff] at hempty
  -- nothing but the blank could be behind the brackets, and the line ends with them
  have hgap := p.gap_append_behindStatus
  rw [hempty, List.append_nil] at hgap
  have hbehind : p.behind = [] := by
    rw [← hgap, ← p.endsWith_bracket, hgap]
    exact hclosed
  have hnewline : '\n' ∉ p.behind ++ (" " ++ mark).toList := by simp [hbehind, hmark]
  have hblank : isBlank ' ' = true := by decide
  rw [String.append_assoc, p.line_append hnewline, TaskParts.content_line]
  simp [hbehind, behindStatus, hblank]

end BulletScript.Outline

namespace BulletScript.Tasks

open Text Outline Files

section Rewriting

variable {line : String} {u : Update}

/-- A list line whose content is written anew keeps its decoration. -/
theorem decoration_append (hlist : (ListLine.ofText line).bullet.isSome) {added : String}
    (hline : '\n' ∉ line.toList)
    (hcontent : (ListLine.ofText (line ++ added)).content = (ListLine.ofText line).content ++ added) :
    decoration (line ++ added) = decoration line := by
  have hwhole : (line ++ added).toList =
      (decoration line).toList ++ ((ListLine.ofText line).content ++ added).toList := by
    rw [← String.toList_append, ← String.append_assoc, decoration_append_content hlist hline]
  rw [decoration, hcontent, dropEnd, hwhole, List.length_append,
    ← String.length_toList (s := (ListLine.ofText line).content ++ added), Nat.add_sub_cancel,
    List.take_left, String.ofList_toList]

/-- An edit of the content alone writes the item's line anew, and no other. -/
theorem Holds.update_content {editor : Editor} {tree : Tree} {item : WorkItem}
    {before after : List String}
    (h : Holds editor.store tree item.path (before ++ line :: after))
    (hlocate : locate (before ++ line :: after) item = some before.length)
    (hlast : after = [] → line ≠ "")
    (hchildren : ∀ base old, u.children editor.indentUnit base old = old)
    (hcontent : SingleLine (u.content (ListLine.ofText line).content)) :
    ∃ item' tree', editor.update tree item u = (item', .ok tree') ∧
      item'.line = before.length ∧ item'.path = item.path ∧
      item'.text = u.content (ListLine.ofText line).content ∧
      Holds editor.store tree' item.path
        (before ++ (decoration line ++ u.content (ListLine.ofText line).content) :: after) := by
  obtain ⟨tree', hupdate, hwrite⟩ := h.update hlocate u
  have hsame := content_of_locate hlocate
  have htext := editText_eq_of_ne editor.indentUnit u h.split hlast
  rw [h.split, editLines_append, hchildren, List.append_assoc, List.cons_append,
    List.take_append_drop] at htext
  rw [htext] at hwrite
  refine ⟨_, tree', hupdate, rfl, rfl, hsame ▸ rfl, ?_⟩
  exact Holds.of_write hwrite (by simp) (h.singleLine_of_rewritten
    (singleLine_append.2 ⟨singleLine_decoration (h.singleLine line (by simp)), hcontent⟩))

/-- An edit of an item that no line of its document is fails, and leaves the item as it was. -/
theorem Holds.update_not_found {editor : Editor} {tree : Tree} {item : WorkItem}
    {ls : List String} (h : Holds editor.store tree item.path ls)
    (hlocate : locate ls item = none) (u : Update) :
    ∃ failure, editor.update tree item u = (item, .error failure) := by
  cases hfind : editor.find tree item with
  | error failure =>
    refine ⟨failure, ?_⟩
    unfold Editor.update
    rw [hfind]
  | ok found =>
    obtain ⟨hread, hfound⟩ := Editor.find_eq_ok.1 hfind
    rw [h.read, Except.ok.injEq] at hread
    rw [← hread, h.split, hlocate] at hfound
    cases hfound

end Rewriting

variable {editor : Editor} {tree tree' : Tree} {item item' : WorkItem}
  {before after ls : List String} {line text : String} {u : Update} {mark : Char} {p : TaskParts}

theorem ne_newline_of_mem_statusMarks (h : mark ∈ statusMarks) : mark ≠ '\n' := by
  rintro rfl
  exact absurd h (by decide)

theorem find?_statusMarks (h : mark ∈ statusMarks) :
    statusMarks.find? (·.toString = mark.toString) = some mark := by
  have hall : statusMarks.all fun mark =>
      statusMarks.find? (·.toString = mark.toString) = some mark := by decide
  exact of_decide_eq_true (List.all_eq_true.1 hall mark h)

/-- The mark is put where the old one was. -/
theorem markLine?_line (p : TaskParts) (h : mark ≠ '\n') :
    markLine? mark p.line = some (p.withStatus mark h).line := by
  have hbracket : isBlank '[' = false := by decide
  have hchars : p.line.toList =
      (p.indent ++ [p.bullet]) ++ (p.blanks ++ '[' :: p.status :: ']' :: p.behind) := by
    simp [TaskParts.line, TaskParts.front]
  have hindent : (p.indent ++ [p.bullet]).length = p.indent.length + 1 := List.length_append
  have hblanks : (p.line.toList.drop (p.indent.length + 1)).takeWhile isBlank = p.blanks := by
    rw [hchars, ← hindent, List.drop_left, takeWhile_append_cons p.blanks_blank hbracket]
  rw [markLine?, p.taskLine?_line]
  simp only [TaskParts.task, String.length_ofList, hblanks, Option.bind_eq_bind, Option.bind_some,
    Option.pure_def, Option.some.injEq]
  apply String.toList_injective
  rw [hchars, ← hindent, Nat.add_assoc, String.toList_ofList, List.set_append_right _ _ (by omega)]
  simp [TaskParts.line, TaskParts.front, TaskParts.withStatus]

theorem singleLine_withStatus (hline : SingleLine p.line) (hmark : mark ∈ statusMarks) :
    SingleLine (p.withStatus mark (ne_newline_of_mem_statusMarks hmark)).line := by
  have hall : statusMarks.all fun mark => '\n' ≠ mark ∧ '\r' ≠ mark := by decide
  have hmark := of_decide_eq_true (List.all_eq_true.1 hall mark hmark)
  obtain ⟨hnewline, hreturn⟩ := hline
  simp only [TaskParts.line, TaskParts.front, String.toList_ofList, List.mem_append, List.mem_cons,
    not_or] at hnewline hreturn
  refine ⟨?_, ?_⟩ <;>
    simp [TaskParts.line, TaskParts.front, TaskParts.withStatus, hnewline, hreturn, hmark]

/-- A known status is asked for by its mark. -/
theorem job_setStatus (h : mark ∈ statusMarks) :
    (Request.setStatus mark.toString).job = .ok (.mark mark) := by
  simp only [Request.job, find?_statusMarks h]

/-- A new status is written to the line of a task, and to no other. -/
theorem outcome_mark {unit s : String} (hs : lines s = before ++ p.line :: after)
    (hmark : mark ≠ '\n') :
    (Job.mark mark).outcome unit item s before.length =
      .ok (unlines (before ++ (p.withStatus mark hmark).line :: after),
        fun item => { item with status := mark.toString }) := by
  have htext : joinLines ((lines s).set before.length (p.withStatus mark hmark).line)
      (endsWith "\n" s) = unlines (before ++ (p.withStatus mark hmark).line :: after) := by
    rw [hs, List.set_append_right _ _ (Nat.le_refl _), Nat.sub_self, List.set_cons_zero]
    refine joinLines_eq fun htrailing => ?_
    obtain ⟨rest, rfl⟩ := blank_last_of_endsWith htrailing hs fun _ => p.line_ne_empty
    exact ⟨before ++ (p.withStatus mark hmark).line :: rest, by simp, by simp⟩
  have hline : (lines s).getD before.length "" = p.line := by rw [hs, getD_length_append]
  simp only [Job.outcome, hline, markLine?_line p hmark, htext]

theorem setStatus_of_write {s : String} (hfind : editor.find tree item = .ok (s, before.length))
    (hs : lines s = before ++ p.line :: after) (hmark : mark ∈ statusMarks)
    (hwrite : editor.store.write tree item.path (unlines
      (before ++ (p.withStatus mark (ne_newline_of_mem_statusMarks hmark)).line :: after)) =
        .ok tree') :
    editor.setStatus tree item mark.toString =
      ({ item with line := before.length, status := mark.toString }, .ok tree') := by
  have hperform := Editor.perform_of_find_ok (job_setStatus hmark) hfind
  simpa only [Editor.perform, outcome_mark hs (ne_newline_of_mem_statusMarks hmark), hwrite]
    using hperform

/-- A new status leaves all other lines of a document as they are. -/
theorem Holds.setStatus (h : Holds editor.store tree item.path (before ++ p.line :: after))
    (hlocate : locate (before ++ p.line :: after) item = some before.length)
    (hmark : mark ∈ statusMarks) :
    ∃ tree', editor.setStatus tree item mark.toString =
        ({ item with line := before.length, status := mark.toString }, .ok tree') ∧
      Holds editor.store tree' item.path
        (before ++ (p.withStatus mark (ne_newline_of_mem_statusMarks hmark)).line :: after) := by
  obtain ⟨tree', hwrite⟩ := h.writable (unlines
    (before ++ (p.withStatus mark (ne_newline_of_mem_statusMarks hmark)).line :: after))
  refine ⟨tree', setStatus_of_write (h.find_eq_ok hlocate) h.split hmark hwrite, ?_⟩
  exact Holds.of_write hwrite (by simp) (h.singleLine_of_rewritten
    (singleLine_withStatus (h.singleLine p.line (by simp)) hmark))

/-- A line that is no task is given no status, but the item is told that it is there. -/
theorem Holds.setStatus_refused {index : Nat} (h : Holds editor.store tree item.path ls)
    (hlocate : locate ls item = some index) (hget : ls[index]? = some line)
    (htask : taskLine? line = none) (hmark : mark ∈ statusMarks) :
    editor.setStatus tree item mark.toString =
      ({ item with line := index }, .error (.action (.notATask (index + 1) item.path))) := by
  have hfind := h.find_eq_ok hlocate
  have hrefused : markLine? mark (ls.getD index "") = none := by
    rw [List.getD_eq_getElem?_getD, hget, Option.getD_some, markLine?, htask]
    rfl
  simp only [Editor.setStatus, find?_statusMarks hmark, hfind, h.split, hrefused]

theorem mem_of_getElem?_of_ne {index : Nat} (hget : (before ++ line :: after)[index]? = some text)
    (hne : index ≠ before.length) : text ∈ before ++ after := by
  rcases Nat.lt_or_gt_of_ne hne with hlt | hgt
  · rw [List.getElem?_append_left hlt] at hget
    exact List.mem_append_left _ (List.mem_of_getElem? hget)
  · obtain ⟨k, rfl⟩ := Nat.exists_eq_add_of_lt hgt
    rw [List.getElem?_append_right (by omega), Nat.add_assoc, Nat.add_sub_cancel_left,
      List.getElem?_cons_succ] at hget
    exact List.mem_append_right _ (List.mem_of_getElem? hget)

/-- An item whose text one task line of a document has is found on that line exactly if it is
there already, or no other line with that content is where the item was or above the task. Where
another line is found, it is the one that an edit writes anew, and a new status is refused. -/
theorem moved_item_found_iff {task : ListLine}
    (h : Holds editor.store tree item.path (before ++ line :: after))
    (htask : taskLine? line = some task) (htext : task.content = item.text)
    (hother : ∀ l ∈ before ++ after, ∀ other, taskLine? l = some other →
      other.content ≠ item.text) :
    ∃ found : Nat,
      (found = before.length ↔ item.line = before.length ∨
        (∀ l, 0 ≤ item.line → (before ++ line :: after)[item.line.toNat]? = some l →
          (ListLine.ofText l).content ≠ item.text) ∧
        ∀ l ∈ before, (ListLine.ofText l).content ≠ item.text) ∧
      (∀ u, ∃ tree', editor.update tree item u =
          ({ item with
              line := found
              text := u.content item.text
              tags := findTags (u.content item.text) }, .ok tree') ∧
        editor.store.write tree item.path (editText editor.indentUnit u
          (unlines (before ++ line :: after)) found) = .ok tree') ∧
      ∀ mark ∈ statusMarks,
        if found = before.length then
          ∃ marked tree', editor.setStatus tree item mark.toString =
              ({ item with line := found, status := mark.toString }, .ok tree') ∧
            taskLine? marked = some { task with status := some mark } ∧
            Holds editor.store tree' item.path (before ++ marked :: after)
        else editor.setStatus tree item mark.toString =
          ({ item with line := found }, .error (.action (.notATask (found + 1) item.path))) := by
  have hparsed : ListLine.ofText line = task := by simp [ListLine.ofText, htask]
  have hcontent : (ListLine.ofText line).content = item.text := hparsed ▸ htext
  obtain ⟨found, hlocate⟩ : ∃ found, locate (before ++ line :: after) item = some found :=
    exists_locate_eq_some ⟨line, by simp, hcontent⟩
  have hfound : found = before.length ↔
      locate (before ++ line :: after) item = some before.length := by
    rw [hlocate, Option.some.injEq]
  refine ⟨found, ?_, h.update hlocate, fun mark hmark => ?_⟩
  · rw [hfound, locate_eq_some_iff, and_iff_right ⟨line, by simp, hcontent⟩, List.take_left]
  · split
    · rename_i heq
      obtain ⟨p, rfl, rfl⟩ := exists_taskParts htask (h.singleLine line (by simp)).1
      obtain ⟨tree', hset, hholds⟩ := h.setStatus (hfound.1 heq) hmark
      exact ⟨_, tree', heq ▸ hset, TaskParts.taskLine?_line _, hholds⟩
    · rename_i hne
      obtain ⟨double, hget, hdouble⟩ := locate_eq_some hlocate
      refine h.setStatus_refused hlocate hget ?_ hmark
      -- the line that is found has the item's text, so it cannot be a task
      refine Option.eq_none_iff_forall_ne_some.2 fun other hsome => ?_
      refine hother double (mem_of_getElem?_of_ne hget hne) other hsome ?_
      simpa [ListLine.ofText, hsome] using hdouble

/-- A tree with one document. -/
def noteTree (text : String) : Tree := { root := "/", files := [(["a.md"], .text text)] }

theorem holds_noteTree (text : String)
    (hread : (pairEditor.store.read (noteTree text) "a.md").toOption = some text)
    (hwrite : (pairEditor.store.write (noteTree text) "a.md" text).toOption.isSome) :
    Holds pairEditor.store (noteTree text) "a.md" (lines text) := by
  obtain ⟨tree', hwrite⟩ := exists_eq_ok_of_isSome hwrite
  exact Holds.of_read (eq_ok_of_toOption hread) hwrite

/-- The item was on the first line, where a heading was put above it. -/
theorem moved_item_found_iff_below :
    Holds pairEditor.store (noteTree "# Log\n- [ ] T\n- T\n") pairItem.path
        ["# Log", "- [ ] T", "- T", ""] ∧
      pairItem.line = 0 ∧
      ∃ marked tree', pairEditor.setStatus (noteTree "# Log\n- [ ] T\n- T\n") pairItem "x" =
          ({ pairItem with line := 1, status := "x" }, .ok tree') ∧
        taskLine? marked = some ⟨"", some '-', some 'x', "T"⟩ ∧
        Holds pairEditor.store tree' pairItem.path ["# Log", marked, "- T", ""] := by
  have hlines : lines "# Log\n- [ ] T\n- T\n" = ["# Log", "- [ ] T", "- T", ""] := by
    decide +kernel
  have hholds : Holds pairEditor.store (noteTree "# Log\n- [ ] T\n- T\n") pairItem.path
      (["# Log"] ++ "- [ ] T" :: ["- T", ""]) := by
    have hholds := holds_noteTree "# Log\n- [ ] T\n- T\n" (by decide +kernel) (by decide +kernel)
    rwa [hlines] at hholds
  have htask : taskLine? "- [ ] T" = some ⟨"", some '-', some ' ', "T"⟩ := by decide +kernel
  have hother : ∀ l ∈ ["# Log"] ++ ["- T", ""], taskLine? l = none := by decide +kernel
  obtain ⟨found, hfound, -, hset⟩ := moved_item_found_iff hholds htask rfl
    fun l hl other hsome => by
      rw [hother l hl] at hsome
      cases hsome
  have hheading : (ListLine.ofText "# Log").content ≠ pairItem.text := by decide +kernel
  have hone : found = 1 := hfound.2 (.inr ⟨fun l _ hget => Option.some.inj hget ▸ hheading,
    fun l hl => List.mem_singleton.1 hl ▸ hheading⟩)
  subst hone
  exact ⟨hholds, rfl, hset 'x' (by decide)⟩

/-- A list item that is no task has the item's text and is where the item was. -/
theorem moved_item_taken_for_bullet :
    let tree := noteTree "- T\n- [ ] T\n"
    let edited := pairEditor.update tree pairItem { append := "x" }
    let marked := pairEditor.setStatus tree pairItem "x"
    (lines "- T\n- [ ] T\n").map (fun l => (taskLine? l).map (·.content)) =
        [none, some "T", none] ∧
      edited.1.line = 0 ∧
      (edited.2.toOption.bind fun tree => (pairEditor.store.read tree "a.md").toOption) =
        some "- T x\n- [ ] T\n" ∧
      marked.1.line = 0 ∧
      marked.2.map (fun _ => ()) = .error (.action (.notATask 1 "a.md")) := by
  decide +kernel

/-- A text that is read behind the decoration of a line as it was written there: right behind the
brackets of a task it may not begin with a blank. -/
def ReadsBack (line text : String) : Prop :=
  endsWith "]" (decoration line) = true → ∀ c ∈ text.toList.head?, isBlank c = false

theorem decoration_line (p : TaskParts) : decoration p.line = .ofList (p.front ++ p.gap) := by
  have hwhole : p.line.toList = (p.front ++ p.gap) ++ behindStatus p.behind := by
    rw [TaskParts.line, String.toList_ofList, List.append_assoc, p.gap_append_behindStatus]
  rw [decoration, p.content_line, dropEnd, hwhole, String.length_ofList, List.length_append,
    Nat.add_sub_cancel, List.take_left]

theorem decoration_line_append (p : TaskParts) (h : '\n' ∉ p.gap ++ text.toList) :
    decoration p.line ++ text = (p.withBehind (p.gap ++ text.toList) h).line := by
  apply String.toList_injective
  rw [decoration_line, TaskParts.line]
  simp

theorem readsBack_iff (p : TaskParts) :
    ReadsBack p.line text ↔ behindStatus (p.gap ++ text.toList) = text.toList := by
  rw [ReadsBack, decoration_line, p.endsWith_bracket, p.behindStatus_gap_append]
  split
  · rename_i hgap
    rw [behindStatus_eq_self]
    exact ⟨fun h => h hgap, fun h _ => h⟩
  · rename_i hgap
    exact ⟨fun _ => rfl, fun _ heq => absurd heq hgap⟩

/-- A text that is read back leaves the brackets with the blank behind them, or without one. -/
theorem gap_withBehind (h : '\n' ∉ p.gap ++ text.toList) (hback : ReadsBack p.line text) :
    (p.withBehind (p.gap ++ text.toList) h).gap = p.gap := by
  have hwhole := (p.withBehind (p.gap ++ text.toList) h).gap_append_behindStatus
  rw [p.withBehind_behind, (readsBack_iff p).1 hback] at hwhole
  exact List.append_cancel_right hwhole

theorem readsBack_congr {q : TaskParts} (h : q.gap = p.gap) :
    ReadsBack q.line text ↔ ReadsBack p.line text := by
  rw [readsBack_iff, readsBack_iff, h]

/-- An item that is where it says it is: on a task line with its text. -/
structure Stands (store : Documents.Store) (tree : Tree) (item : WorkItem) (before : List String)
    (p : TaskParts) : Prop where
  document : ∃ after, Holds store tree item.path (before ++ p.line :: after)
  line : item.line = before.length
  text : item.text = String.ofList (behindStatus p.behind)

/-- An edit writes the line that is found anew; the lines above it stay, whatever is written below
it. -/
theorem Holds.update_line (h : Holds editor.store tree item.path (before ++ line :: after))
    (hlocate : locate (before ++ line :: after) item = some before.length)
    (hlast : after = [] → line ≠ "") (hcontent : SingleLine (u.content item.text)) :
    ∃ tree' back, editor.update tree item u =
        ({ item with
            line := before.length
            text := u.content item.text
            tags := findTags (u.content item.text) }, .ok tree') ∧
      Holds editor.store tree' item.path
        (before ++ (decoration line ++ u.content item.text) :: back) := by
  obtain ⟨tree', hupdate, hwrite⟩ := h.update hlocate u
  let written := decoration line ++ u.content item.text
  have hfront : ∀ l ∈ before ++ [written], SingleLine l := by
    intro l hl
    have hwritten : SingleLine written :=
      singleLine_append.2 ⟨singleLine_decoration (h.singleLine line (by simp)), hcontent⟩
    apply h.singleLine_of_rewritten hwritten l
    exact List.append_subset.2 ⟨by simp, by simp⟩ hl
  have htext := editText_eq_of_ne editor.indentUnit u h.split hlast
  rw [h.split, editLines_append, content_of_locate hlocate, List.append_assoc, List.cons_append,
    List.append_cons before (decoration line ++ _)] at htext
  obtain ⟨back, hback⟩ := lines_plainNewlines_append (by simp) hfront
    (u.children editor.indentUnit (leadingBlanks line)
      (after.take (bodyLength (indentWidth line) after)) ++
      after.drop (bodyLength (indentWidth line) after))
  have hread := Documents.Store.read_write hwrite
  obtain ⟨_, hagain⟩ := Documents.Store.write_write hwrite ""
  have hholds := Holds.of_read hread hagain
  rw [htext, hback, ← List.append_cons] at hholds
  exact ⟨tree', back, hupdate, hholds⟩

/-- What a request makes of the item's text. -/
def Request.content : Request → String → String
  | .update u, text => u.content text
  | .setStatus _, text => text

/-- A request that the item's line takes: a text that is read back, or a status that has a mark. -/
def Request.Fits (line text : String) : Request → Prop
  | .update u => SingleLine (u.content text) ∧ ReadsBack line (u.content text)
  | .setStatus status => ∃ mark ∈ statusMarks, mark.toString = status

/-- Requests that fit one after the other. -/
def FitAll (line : String) : String → List Request → Prop
  | _, [] => True
  | text, request :: rest => request.Fits line text ∧ FitAll line (request.content text) rest

theorem fitAll_congr {q : TaskParts} {requests : List Request} (h : q.gap = p.gap)
    (hfits : FitAll p.line text requests) : FitAll q.line text requests := by
  induction requests generalizing text with
  | nil => exact hfits
  | cons request rest ih =>
    refine ⟨?_, ih hfits.2⟩
    cases request with
    | update u => exact ⟨hfits.1.1, (readsBack_congr h).2 hfits.1.2⟩
    | setStatus status => exact hfits.1

/-- A task line that is written anew is taken apart as before, with its new text behind the blank. -/
theorem Holds.rewritten {back : List String} {path : String}
    (h : Holds editor.store tree path (before ++ (decoration p.line ++ text) :: back)) :
    ∃ hnewline : '\n' ∉ p.gap ++ text.toList,
      Holds editor.store tree path
        (before ++ (p.withBehind (p.gap ++ text.toList) hnewline).line :: back) := by
  have hline := (h.singleLine (decoration p.line ++ text) (by simp)).1
  have hnewline : '\n' ∉ p.gap ++ text.toList := by
    rw [decoration_line, String.toList_append, String.toList_ofList] at hline
    simp only [List.mem_append, not_or] at hline ⊢
    exact ⟨hline.1.2, hline.2⟩
  exact ⟨hnewline, decoration_line_append p hnewline ▸ h⟩

/-- Requests carried out one after the other, up to one that fails. -/
def Editor.performAll (editor : Editor) (tree : Tree) (item : WorkItem) :
    List Request → WorkItem × Result Tree
  | [] => (item, .ok tree)
  | request :: rest => match editor.perform tree item request with
    | (item, .ok tree) => editor.performAll tree item rest
    | (item, .error failure) => (item, .error failure)

namespace Stands

theorem located (h : Stands editor.store tree item before p) (after : List String) :
    locate (before ++ p.line :: after) item = some before.length :=
  locate_append h.line (p.content_line.trans h.text.symm)

theorem of_readsBack {back : List String} {hnewline : '\n' ∉ p.gap ++ text.toList}
    (h : Holds editor.store tree item.path
      (before ++ (p.withBehind (p.gap ++ text.toList) hnewline).line :: back))
    (hback : ReadsBack p.line text) (hline : item.line = before.length) (htext : item.text = text) :
    Stands editor.store tree item before (p.withBehind (p.gap ++ text.toList) hnewline) :=
  ⟨⟨back, h⟩, hline,
    by rw [p.withBehind_behind, (readsBack_iff p).1 hback, String.ofList_toList, htext]⟩

/-- A work item that was built from a line of a document that can be written stands on it. -/
theorem of_line {s written path : String} {index : Nat}
    (hread : editor.store.read tree path = .ok s)
    (hwrite : editor.store.write tree path written = .ok tree')
    (hline : (lines s)[index]? = some line)
    (hitem : WorkItem.ofLine? line path index = some item) :
    ∃ before p, before.length = index ∧ p.line = line ∧ Stands editor.store tree item before p := by
  have hholds := Holds.of_read hread hwrite
  obtain ⟨before, after, hsplit, rfl⟩ := exists_split hline
  rw [hsplit] at hholds
  obtain ⟨task, htask, heq⟩ := Option.bind_eq_some_iff.1 hitem
  obtain ⟨p, rfl, rfl⟩ := exists_taskParts htask (hholds.singleLine line (by simp)).1
  cases heq
  exact ⟨before, p, rfl, rfl, ⟨after, hholds⟩, rfl, rfl⟩

/-- An edit of an item that stands on its line succeeds, and is of that line. -/
theorem update_eq_ok (h : Stands editor.store tree item before p) (u : Update) :
    ∃ item' tree', editor.update tree item u = (item', .ok tree') ∧ item'.line = before.length := by
  obtain ⟨after, hholds⟩ := h.document
  obtain ⟨tree', hupdate, -⟩ := hholds.update (h.located after) u
  exact ⟨_, tree', hupdate, rfl⟩

theorem children_eq_ok (h : Stands editor.store tree item before p) :
    ∃ below, editor.children tree item = (item, .ok below) := by
  obtain ⟨after, hholds⟩ := h.document
  let ls := before ++ p.line :: after
  refine ⟨childLines editor.indentUnit (lines (unlines ls)) before.length, ?_⟩
  unfold Editor.children
  rw [hholds.find_eq_ok (h.located after)]
  simp only [ls, ← h.line]

/-- Once a new text is read back, the item stands on its line with it. -/
theorem update (h : Stands editor.store tree item before p)
    (hcontent : SingleLine (u.content item.text)) (hback : ReadsBack p.line (u.content item.text)) :
    ∃ item' tree' p', editor.update tree item u = (item', .ok tree') ∧
      Stands editor.store tree' item' before p' ∧ item'.text = u.content item.text ∧
      p'.indent = p.indent ∧ p'.bullet = p.bullet ∧ p'.gap = p.gap := by
  obtain ⟨after, hholds⟩ := h.document
  obtain ⟨tree', back, hupdate, hwritten⟩ :=
    hholds.update_line (h.located after) (fun _ => p.line_ne_empty) hcontent
  obtain ⟨hnewline, hwritten⟩ := hwritten.rewritten
  refine ⟨_, tree', _, hupdate, .of_readsBack hwritten hback rfl rfl, rfl, rfl, rfl,
    gap_withBehind _ hback⟩

theorem setStatus (h : Stands editor.store tree item before p) (hmark : mark ∈ statusMarks) :
    ∃ item' tree' p', editor.setStatus tree item mark.toString = (item', .ok tree') ∧
      Stands editor.store tree' item' before p' ∧ item'.text = item.text ∧
      p'.indent = p.indent ∧ p'.bullet = p.bullet ∧ p'.gap = p.gap := by
  obtain ⟨after, hholds⟩ := h.document
  obtain ⟨tree', hset, hwritten⟩ := hholds.setStatus (h.located after) hmark
  exact ⟨_, tree', _, hset, ⟨⟨after, hwritten⟩, rfl, h.text⟩, rfl, rfl, rfl, rfl⟩

/-- A request that fits leaves the item standing on its line. -/
theorem perform {request : Request} (h : Stands editor.store tree item before p)
    (hfits : request.Fits p.line item.text) :
    ∃ item' tree' p', editor.perform tree item request = (item', .ok tree') ∧
      Stands editor.store tree' item' before p' ∧ item'.text = request.content item.text ∧
      p'.indent = p.indent ∧ p'.bullet = p.bullet ∧ p'.gap = p.gap := by
  cases request with
  | update u => exact h.update hfits.1 hfits.2
  | setStatus status =>
    obtain ⟨mark, hmark, rfl⟩ := hfits
    exact h.setStatus hmark

/-- Whatever is asked for one after the other, an item stays on its line, below the same lines, as
long as every text it is given is read back. -/
theorem performAll {requests : List Request} (h : Stands editor.store tree item before p)
    (hfits : FitAll p.line item.text requests) :
    ∃ item' tree' p', editor.performAll tree item requests = (item', .ok tree') ∧
      Stands editor.store tree' item' before p' ∧
      item'.text = requests.foldl (fun text request => request.content text) item.text ∧
      p'.indent = p.indent ∧ p'.bullet = p.bullet ∧ p'.gap = p.gap := by
  induction requests generalizing tree item p with
  | nil => exact ⟨item, tree, p, rfl, h, rfl, rfl, rfl, rfl⟩
  | cons request rest ih =>
    obtain ⟨item', tree', p', hperform, hstands, htext, hindent, hbullet, hgap⟩ := h.perform hfits.1
    have hrest : FitAll p'.line item'.text rest := by
      rw [htext]
      exact fitAll_congr hgap hfits.2
    obtain ⟨item'', tree'', p'', hall, hstands', htext', hindent', hbullet', hgap'⟩ :=
      ih hstands hrest
    refine ⟨item'', tree'', p'', ?_, hstands', ?_, hindent'.trans hindent, hbullet'.trans hbullet,
      hgap'.trans hgap⟩
    · rw [Editor.performAll, hperform]
      exact hall
    · rw [htext', htext, List.foldl_cons]

end Stands

/-- After an edit that succeeds, the item's line has the item's text as its content, behind the same
indentation, bullet and status, and is found for the next call, exactly if the text is read back
behind the line's decoration. -/
theorem edited_item_found_iff {s path : String} {index : Nat}
    (hread : editor.store.read tree path = .ok s) (hline : (lines s)[index]? = some line)
    (hitem : WorkItem.ofLine? line path index = some item)
    (hcontent : SingleLine (u.content item.text))
    (hupdate : editor.update tree item u = (item', .ok tree')) :
    item'.path = path ∧ item'.line = index ∧ item'.text = u.content item.text ∧
      ∃ s' line', editor.store.read tree' path = .ok s' ∧ (lines s')[index]? = some line' ∧
        (ListLine.ofText line' = { ListLine.ofText line with content := item'.text } ↔
          ReadsBack line item'.text) ∧
        (editor.find tree' item' = .ok (s', index) ↔ ReadsBack line item'.text) ∧
        (ReadsBack line item'.text →
          (∀ v, ∃ item'' tree'', editor.update tree' item' v = (item'', .ok tree'') ∧
            item''.line = index) ∧
          (∀ mark ∈ statusMarks, ∃ item'' tree'',
            editor.setStatus tree' item' mark.toString = (item'', .ok tree'') ∧
              item''.line = index) ∧
          ∃ below, editor.children tree' item' = (item', .ok below)) := by
  obtain ⟨hpath, -, -, -⟩ := ofLine?_eq_some hitem
  subst hpath
  obtain ⟨written, hwrite⟩ := Editor.exists_write_of_update hupdate
  obtain ⟨before, p, rfl, rfl, hstands⟩ := Stands.of_line hread hwrite hline hitem
  obtain ⟨after, hholds⟩ := hstands.document
  obtain ⟨again, back, hagain, hback⟩ :=
    hholds.update_line (hstands.located after) (fun _ => p.line_ne_empty) hcontent
  rw [hupdate] at hagain
  obtain ⟨hitem', htree⟩ := Prod.mk.inj hagain
  obtain rfl := Except.ok.inj htree
  have hpath : item'.path = item.path := by rw [hitem']
  have hindex : item'.line = before.length := by rw [hitem']
  have htext : item'.text = u.content item.text := by rw [hitem']
  rw [← htext, ← hpath] at hback
  obtain ⟨hnewline, hwritten⟩ := hback.rewritten
  let p' := p.withBehind (p.gap ++ item'.text.toList) hnewline
  have hsame : (ListLine.ofText p'.line).content = item'.text ↔ ReadsBack p.line item'.text := by
    rw [p'.content_line, readsBack_iff, ← String.toList_inj, String.toList_ofList,
      p.withBehind_behind]
  have hget : (before ++ p'.line :: back)[before.length]? = some p'.line := by simp
  refine ⟨hpath, hindex, htext, _, p'.line, hpath ▸ hwritten.read, hwritten.split.symm ▸ hget, ?_, ?_,
    fun hreads => ?_⟩
  · rw [← hsame, p'.ofText_line, p.ofText_line]
    simp [TaskParts.task, p', TaskParts.withBehind]
  · rw [← hsame, Editor.find_eq_ok, and_iff_right hwritten.read, hwritten.split]
    refine ⟨fun hlocate => ?_, locate_append hindex⟩
    obtain ⟨line', hline', hcontent'⟩ := locate_eq_some hlocate
    exact Option.some.inj (hget.symm.trans hline') ▸ hcontent'
  · have hstands' := Stands.of_readsBack hwritten hreads hindex rfl
    refine ⟨hstands'.update_eq_ok, fun mark hmark => ?_, hstands'.children_eq_ok⟩
    obtain ⟨item'', tree'', p'', hset, hstands'', -⟩ := hstands'.setStatus hmark
    exact ⟨item'', tree'', hset, hstands''.line⟩

theorem edited_item_found_iff_appended :
    ∃ item tree, pairEditor.update (noteTree "- [ ] T\n") pairItem { append := "x" } =
        (item, .ok tree) ∧ item.line = 0 ∧ item.text = "T x" ∧
      ∃ s line, pairEditor.store.read tree item.path = .ok s ∧ (lines s)[0]? = some line ∧
        ListLine.ofText line = ⟨"", some '-', some ' ', "T x"⟩ ∧
        ∃ below, pairEditor.children tree item = (item, .ok below) := by
  let u : Update := { append := "x" }
  have hread : pairEditor.store.read (noteTree "- [ ] T\n") "a.md" = .ok "- [ ] T\n" :=
    eq_ok_of_toOption (by decide +kernel)
  have hcontent : u.content pairItem.text = "T x" := by decide +kernel
  have hsome : (pairEditor.update (noteTree "- [ ] T\n") pairItem u).2.toOption.isSome := by
    decide +kernel
  obtain ⟨tree, htree⟩ := exists_eq_ok_of_isSome hsome
  obtain ⟨item, hitem⟩ : ∃ item, pairEditor.update (noteTree "- [ ] T\n") pairItem u =
      (item, .ok tree) := ⟨_, Prod.ext rfl htree⟩
  have hfirst : (lines "- [ ] T\n")[0]? = some "- [ ] T" := by decide +kernel
  obtain ⟨hpath, hline, htext, s, line, hagain, hget, hparsed, -, hcalls⟩ :=
    edited_item_found_iff hread hfirst (by decide +kernel) (hcontent ▸ ⟨by decide, by decide⟩) hitem
  have htext := htext.trans hcontent
  have hreads : ReadsBack "- [ ] T" item.text := by
    rw [htext]
    exact fun _ c hc => by
      obtain rfl : 'T' = c := by simpa using hc
      decide
  refine ⟨item, tree, hitem, hline, htext, s, line, hpath ▸ hagain, hget,
    (hparsed.2 hreads).trans ?_, (hcalls hreads).2.2⟩
  rw [htext]
  decide +kernel

/-- The text of a task without one begins with the blank that is put before what is appended, and
this blank is not read back. -/
theorem edited_item_not_found :
    let item : WorkItem :=
      { text := "", path := "a.md", line := 0, status := " ", tags := [], indent := "" }
    let edited := pairEditor.update (noteTree "- [ ]\n") item { append := "x" }
    WorkItem.ofLine? "- [ ]" "a.md" 0 = some item ∧
      edited.1.line = 0 ∧ edited.1.text = " x" ∧
      (edited.2.toOption.bind fun tree => (pairEditor.store.read tree "a.md").toOption) =
        some "- [ ] x\n" ∧
      (ListLine.ofText "- [ ] x").content = "x" ∧
      edited.2.toOption.map (fun tree => (pairEditor.children tree edited.1).2) =
        some (.error (.action (.itemNotFound "a.md" " x"))) := by
  decide +kernel

end BulletScript.Tasks
