import BulletScript.Proofs.Tasks.Finding

/-! What an edit leaves alone: all other documents, and in the item's document the text before the
item's line and the text after its block, character by character. A new status leaves all of the
text alone but the mark in the brackets of the item's line. -/
namespace BulletScript.Tasks

open Text Outline Files

/-- The text of a document before the line at an index. -/
def textBefore (ls : List String) (index : Nat) : String :=
  String.join ((ls.take index).map (· ++ "\n"))

/-- The text of a document after the line at an index, from the newline that ends it. -/
def textBehind (ls : List String) (index : Nat) : String :=
  String.join ((ls.drop (index + 1)).map ("\n" ++ ·))

/-- The lines that an edit leaves in place of the item's block. -/
def editedBlock (unit : String) (u : Update) (ls : List String) (index : Nat) : List String :=
  let line := ls.getD index ""
  (decoration line ++ u.content (ListLine.ofText line).content) ::
    u.children unit (leadingBlanks line) (blockBelow ls index)

variable {unit s line : String} {u : Update} {before after : List String}

theorem unlines_block (ls : List String) (part : List String) (index stop : Nat)
    (hpart : part ≠ []) :
    unlines (ls.take index ++ part ++ ls.drop (stop + 1)) =
      textBefore ls index ++ unlines part ++ textBehind ls stop :=
  unlines_around (ls.take index) (ls.drop (stop + 1)) hpart

/-- A document is the text before an item's block, the block, and the text after it. -/
theorem text_around_block (hs : lines s = before ++ line :: after) :
    s = textBefore (lines s) before.length ++
      unlines (line :: blockBelow (lines s) before.length) ++
        textBehind (lines s) (blockEnd (lines s) before.length) := by
  have hlines : lines s = before ++ (line :: after.take (bodyLength (indentWidth line) after)) ++
      after.drop (bodyLength (indentWidth line) after) := by
    rw [List.append_assoc, List.cons_append, List.take_append_drop, hs]
  rw [← unlines_block _ _ _ _ (List.cons_ne_nil _ _), hs, blockBelow_append, drop_blockEnd_append,
    List.take_left, ← hlines, unlines_lines]

/-- An edit writes the text before the block and the text after it as they were. -/
theorem editText_around_block (unit : String) (u : Update)
    (hs : lines s = before ++ line :: after) (hline : isBlankText line = false) :
    editText unit u s before.length =
      textBefore (lines s) before.length ++
        unlines (editedBlock unit u (lines s) before.length) ++
          textBehind (lines s) (blockEnd (lines s) before.length) := by
  have hpart : editedBlock unit u (lines s) before.length ≠ [] := List.cons_ne_nil _ _
  rw [editText_eq unit u hs hline, ← unlines_block _ _ _ _ hpart, hs, editLines_append,
    editedBlock, getD_length_append, blockBelow_append, drop_blockEnd_append, List.take_left]

/-- The newline at the end of a document belongs to the text after the block. -/
theorem endsWith_textBehind (h : endsWith "\n" s = true) (hs : lines s = before ++ line :: after)
    (hline : isBlankText line = false) :
    endsWith "\n" (textBehind (lines s) (blockEnd (lines s) before.length)) = true := by
  obtain ⟨rest, hrest⟩ := drop_body_of_endsWith h hs fun _ hempty => by
    rw [hempty] at hline
    exact absurd hline (by decide)
  rw [textBehind, hs, drop_blockEnd_append, hrest, endsWith, List.isSuffixOf_iff_suffix]
  refine ⟨(String.join (rest.map ("\n" ++ ·))).toList, ?_⟩
  simp [String.toList_join]

/-- An edit that succeeds reads the item's document once and then writes it once, and no other file
changes. The text before the item's line and the text after its block are written as they were
read, with the newline at the end if there is one. An edit that fails writes nothing and leaves the
item as it was, but for the place where it was found. -/
theorem update_frame (editor : Editor) (tree : Tree) (item : WorkItem) (u : Update) :
    (∀ item' tree', editor.update tree item u = (item', .ok tree') →
      ∃ s index place, editor.find tree item = .ok (s, index) ∧
        editor.store.place tree item.path = .ok place ∧
        (isBlankText ((lines s).getD index "") = false →
          let front := textBefore (lines s) index
          let back := textBehind (lines s) (blockEnd (lines s) index)
          let written := front ++ unlines (editedBlock editor.indentUnit u (lines s) index) ++ back
          s = front ++ unlines ((lines s).getD index "" :: blockBelow (lines s) index) ++ back ∧
            (endsWith "\n" s = true → endsWith "\n" back = true) ∧
            (Visit.start tree item).run editor (.update u) =
              (⟨.ended (.ok ()), tree', item'⟩,
                [.read item.path, .write item.path written]) ∧
            tree'.file? place = some (.text written) ∧
            ∀ q, q ≠ place → tree'.file? q = tree.file? q)) ∧
      ∀ item' failure, editor.update tree item u = (item', .error failure) →
        (Visit.start tree item).run editor (.update u) =
            (⟨.ended (.error failure), tree, item'⟩, [.read item.path]) ∧
          item'.text = item.text ∧ item'.tags = item.tags ∧ item'.status = item.status := by
  cases hfind : editor.find tree item with
  | error failure =>
    have hfails : editor.update tree item u = (item, .error failure) :=
      Editor.perform_of_find_error (show (Request.update u).job = .ok (.update u) from rfl) hfind
    rw [hfails]
    refine ⟨(fun _ _ h => by cases h), fun _ _ h => ?_⟩
    cases h
    exact ⟨Visit.run_start_of_find_error hfind, rfl, rfl, rfl⟩
  | ok found =>
    obtain ⟨s, index⟩ := found
    have hrun := @Visit.run_start_of_find_ok editor (.update u) tree item s index hfind
    have hupdate :=
      Editor.perform_of_find_ok (show (Request.update u).job = .ok (.update u) from rfl) hfind
    change editor.update tree item u = _ at hupdate
    simp only [Job.outcome] at hrun hupdate
    rw [hrun, hupdate]
    obtain ⟨before, line, after, hs, rfl⟩ := Editor.find_split hfind
    cases hwrite : editor.store.write tree item.path
      (editText editor.indentUnit u s before.length) with
    | error failure =>
      refine ⟨(fun _ _ h => by cases h), fun _ _ h => ?_⟩
      cases h
      exact ⟨rfl, rfl, rfl, rfl⟩
    | ok written =>
      refine ⟨fun _ _ h => ?_, (fun _ _ h => by cases h)⟩
      cases h
      obtain ⟨place, hplace, -, rfl⟩ := Documents.Store.write_eq_ok.1 hwrite
      refine ⟨s, before.length, place, rfl, hplace, fun hline => ?_⟩
      simp only [hs, getD_length_append] at hline
      have htext := editText_around_block editor.indentUnit u hs hline
      refine ⟨?_, fun h => endsWith_textBehind h hs hline, ?_, ?_, fun q hq => ?_⟩
      · rw [show (lines s).getD before.length "" = line by rw [hs, getD_length_append]]
        exact text_around_block hs
      · rw [← htext]
      · rw [← htext, Tree.file?_put, if_pos rfl]
      · rw [Tree.file?_put, if_neg hq]

/-- A document whose first item has a block that ends before an empty line. -/
def notesText : String := "# Notes\n- [ ] T\n  - a\n\n- [ ] U\n"

def notesTree : Tree :=
  { root := "/", files := [(["a.md"], .text notesText), (["b.md"], .text "- [ ] T")] }

def notesItem : WorkItem :=
  { text := "T", path := "a.md", line := 1, status := " ", tags := [], indent := "" }

/-- An item that no line of its document holds. -/
def lostItem : WorkItem := { notesItem with text := "V" }

def notesEditor : Editor := { store := {}, indentUnit := "  " }

def notesUpdate : Update :=
  { append := "#done", removeOffsets := [1], appendChildren := [{ text := "b" }] }

theorem update_frame_notes :
    isBlankText ((lines notesText).getD 1 "") = false ∧
      (∃ item tree, notesEditor.update notesTree notesItem notesUpdate = (item, .ok tree) ∧
        (Visit.start notesTree notesItem).run notesEditor (.update notesUpdate) =
          (⟨.ended (.ok ()), tree, item⟩,
            [.read "a.md", .write "a.md" "# Notes\n- [ ] T #done\n  - b\n\n- [ ] U\n"]) ∧
        ∀ q, q ≠ ["a.md"] → tree.file? q = notesTree.file? q) ∧
      ∃ failure, notesEditor.update notesTree lostItem notesUpdate = (lostItem, .error failure) ∧
        (Visit.start notesTree lostItem).run notesEditor (.update notesUpdate) =
          (⟨.ended (.error failure), notesTree, lostItem⟩, [.read "a.md"]) := by
  have hline : isBlankText ((lines notesText).getD 1 "") = false := by decide +kernel
  refine ⟨hline, ?_, ?_⟩
  · have hsome : (notesEditor.update notesTree notesItem notesUpdate).2.toOption.isSome := by
      decide +kernel
    obtain ⟨tree, htree⟩ := exists_eq_ok_of_isSome hsome
    have hupdate : notesEditor.update notesTree notesItem notesUpdate = (_, .ok tree) :=
      Prod.ext rfl htree
    obtain ⟨s, index, place, hfind, hplace, hframe⟩ :=
      (update_frame notesEditor notesTree notesItem notesUpdate).1 _ _ hupdate
    have hfound : notesEditor.find notesTree notesItem = .ok (notesText, 1) :=
      eq_ok_of_toOption (by decide +kernel)
    obtain ⟨rfl, rfl⟩ := Prod.mk.inj (Except.ok.inj (hfound.symm.trans hfind))
    have hfile : notesEditor.store.place notesTree notesItem.path = .ok ["a.md"] :=
      eq_ok_of_toOption (by decide +kernel)
    obtain rfl := Except.ok.inj (hfile.symm.trans hplace)
    obtain ⟨-, -, hrun, -, hothers⟩ := hframe hline
    refine ⟨_, tree, hupdate, ?_, hothers⟩
    have hwritten : textBefore (lines notesText) 1 ++
        unlines (editedBlock notesEditor.indentUnit notesUpdate (lines notesText) 1) ++
          textBehind (lines notesText) (blockEnd (lines notesText) 1) =
        "# Notes\n- [ ] T #done\n  - b\n\n- [ ] U\n" := by
      decide +kernel
    rw [hrun, hwritten]
    rfl
  · cases hfind : notesEditor.find notesTree lostItem with
    | ok found =>
      have hnone : (notesEditor.find notesTree lostItem).toOption = none := by decide +kernel
      rw [hfind] at hnone
      cases hnone
    | error failure =>
      have hfails : notesEditor.update notesTree lostItem notesUpdate =
          (lostItem, .error failure) :=
        Editor.perform_of_find_error
          (show (Request.update notesUpdate).job = .ok (.update notesUpdate) from rfl) hfind
      exact ⟨failure, hfails,
        ((update_frame notesEditor notesTree lostItem notesUpdate).2 _ _ hfails).1⟩

/-- A line that is written anew stands between the text before it and the text behind it. -/
theorem unlines_line (before after : List String) (old new : String) :
    unlines (before ++ new :: after) =
      textBefore (before ++ old :: after) before.length ++ new ++
        textBehind (before ++ old :: after) before.length := by
  have hblock := unlines_block (before ++ old :: after) [new] before.length before.length
    (List.cons_ne_nil _ _)
  have hone : unlines [new] = new := by simp [unlines, join, joinChars]
  rwa [List.take_left, drop_length_append, List.append_assoc, List.singleton_append, hone]
    at hblock

section Status

variable {editor : Editor} {tree : Tree} {item : WorkItem} {mark : Char} {place : Place}
  {p : TaskParts}

/-- A known status is written with all other lines as they were read, and the item is found again
where it was. -/
theorem setStatus_written (hfind : editor.find tree item = .ok (s, before.length))
    (hs : lines s = before ++ p.line :: after) (hmark : mark ∈ statusMarks)
    (hplace : editor.store.place tree item.path = .ok place) (hwritable : tree.Writable place) :
    let ls := before ++ (p.withStatus mark (ne_newline_of_mem_statusMarks hmark)).line :: after
    let tree' := tree.put place (.text (unlines ls))
    let item' := { item with line := before.length, status := mark.toString }
    editor.setStatus tree item mark.toString = (item', .ok tree') ∧
      (Visit.start tree item).run editor (.mark mark) =
        (⟨.ended (.ok ()), tree', item'⟩, [.read item.path, .write item.path (unlines ls)]) ∧
      editor.find tree' item' = .ok (unlines ls, before.length) ∧ lines (unlines ls) = ls := by
  intro ls tree' item'
  have hnewline := ne_newline_of_mem_statusMarks hmark
  obtain ⟨hread, hlocate⟩ := Editor.find_eq_ok.1 hfind
  have hwrite : editor.store.write tree item.path (unlines ls) = .ok tree' :=
    Documents.Store.write_eq_ok.2 ⟨place, hplace, hwritable, rfl⟩
  have hholds := Holds.of_read hread hwrite
  rw [hs] at hholds hlocate
  have hwritten := Holds.of_write hwrite (by simp [ls]) (hholds.singleLine_of_rewritten
    (singleLine_withStatus (hholds.singleLine p.line (by simp)) hmark))
  have hcontent : (ListLine.ofText (p.withStatus mark hnewline).line).content = item.text := by
    rw [← content_of_locate hlocate, TaskParts.content_line, TaskParts.content_line]
    rfl
  have hagain : locate ls item' = some before.length := locate_append rfl hcontent
  have hheld : Holds editor.store tree' item'.path ls := hwritten
  have hrun := @Visit.run_start_of_find_ok editor (.mark mark) tree item s before.length hfind
  simp only [outcome_mark hs hnewline] at hrun
  refine ⟨setStatus_of_write hfind hs hmark hwrite, ?_, hheld.find_eq_ok hagain, hwritten.split⟩
  rw [hrun]
  simp only [ls, hwrite, item']

/-- A call for a status that fails writes nothing. -/
theorem setStatus_failed {status : String} {item' : WorkItem} {failure : Failure}
    (h : editor.setStatus tree item status = (item', .error failure)) :
    item'.text = item.text ∧ item'.tags = item.tags ∧ item'.status = item.status ∧
      match (Request.setStatus status).job with
      | .error refused => failure = refused ∧ item' = item
      | .ok job => (Visit.start tree item).run editor job =
          (⟨.ended (.error failure), tree, item'⟩, [.read item.path]) := by
  change editor.perform tree item (.setStatus status) = _ at h
  cases hjob : (Request.setStatus status).job with
  | error refused =>
    rw [Editor.perform_of_refused hjob] at h
    cases h
    exact ⟨rfl, rfl, rfl, rfl, rfl⟩
  | ok job =>
    cases hfind : editor.find tree item with
    | error missing =>
      rw [Editor.perform_of_find_error hjob hfind] at h
      cases h
      exact ⟨rfl, rfl, rfl, Visit.run_start_of_find_error hfind⟩
    | ok found =>
      obtain ⟨s, index⟩ := found
      have hrun := @Visit.run_start_of_find_ok editor job tree item s index hfind
      rw [Editor.perform_of_find_ok hjob hfind] at h
      dsimp only at h hrun ⊢
      rw [hrun]
      cases houtcome : job.outcome editor.indentUnit { item with line := index } s index with
      | error refused =>
        rw [houtcome] at h
        cases h
        exact ⟨rfl, rfl, rfl, rfl⟩
      | ok made =>
        obtain ⟨text, settle⟩ := made
        rw [houtcome] at h
        dsimp only at h ⊢
        cases hwrite : editor.store.write tree item.path text with
        | ok tree' => rw [hwrite] at h; cases h
        | error refused =>
          rw [hwrite] at h
          cases h
          exact ⟨rfl, rfl, rfl, rfl⟩

end Status

/-- A known status is written to a task line that is found by a change of the mark in its brackets,
with all other text of the document as it was read. The line stays a task line with the same
indentation, bullet and content, the item is found on it again, and the old mark, if it is a known
one, is put back by another call, which writes the text that was read first. A call that fails writes
nothing and leaves the item as it was, but for the place where it was found; it touches no document
if it is refused. -/
theorem setStatus_frame (editor : Editor) (tree : Tree) (item : WorkItem) :
    (∀ s index task mark place, editor.find tree item = .ok (s, index) →
      taskLine? ((lines s).getD index "") = some task → mark ∈ statusMarks →
      editor.store.place tree item.path = .ok place → tree.Writable place →
      ∃ opened old closed,
        let front := textBefore (lines s) index ++ opened
        let back := closed ++ textBehind (lines s) index
        let written := front ++ mark.toString ++ back
        let tree' := tree.put place (.text written)
        let item' := { item with line := index, status := mark.toString }
        (lines s).getD index "" = opened ++ old.toString ++ closed ∧ task.status = some old ∧
          s = front ++ old.toString ++ back ∧
          editor.setStatus tree item mark.toString = (item', .ok tree') ∧
          (Visit.start tree item).run editor (.mark mark) =
            (⟨.ended (.ok ()), tree', item'⟩, [.read item.path, .write item.path written]) ∧
          editor.find tree' item' = .ok (written, index) ∧
          (lines written).getD index "" = opened ++ mark.toString ++ closed ∧
          taskLine? (opened ++ mark.toString ++ closed) =
            some { task with status := some mark } ∧
          (old ∈ statusMarks → ∃ tree'',
            editor.setStatus tree' item' old.toString =
              ({ item with line := index, status := old.toString }, .ok tree'') ∧
            tree''.file? place = some (.text s) ∧ ∀ q, q ≠ place → tree''.file? q = tree.file? q)) ∧
      ∀ status item' failure, editor.setStatus tree item status = (item', .error failure) →
        item'.text = item.text ∧ item'.tags = item.tags ∧ item'.status = item.status ∧
          match (Request.setStatus status).job with
          | .error refused => failure = refused ∧ item' = item
          | .ok job => (Visit.start tree item).run editor job =
              (⟨.ended (.error failure), tree, item'⟩, [.read item.path]) := by
  refine ⟨?_, fun status item' failure => setStatus_failed⟩
  intro s index task mark place hfind htask hmark hplace hwritable
  obtain ⟨before, line, after, hs, rfl⟩ := Editor.find_split hfind
  have hline : (lines s).getD before.length "" = line := by rw [hs, getD_length_append]
  rw [hline] at htask
  obtain ⟨p, rfl, rfl⟩ := exists_taskParts htask (no_newline_of_mem_lines (by rw [hs]; simp))
  let marked := p.withStatus mark (ne_newline_of_mem_statusMarks hmark)
  have htext (q : TaskParts) (hopened : q.opened = p.opened) (hclosed : q.closed = p.closed) :
      unlines (before ++ q.line :: after) =
        textBefore (lines s) before.length ++ p.opened ++ q.status.toString ++
          (p.closed ++ textBehind (lines s) before.length) := by
    rw [unlines_line before after p.line, ← hs, q.line_eq, hopened, hclosed]
    simp only [String.append_assoc]
  have hold : unlines (before ++ p.line :: after) = s := by rw [← hs, unlines_lines]
  refine ⟨p.opened, p.status, p.closed, ?_⟩
  intro front back written tree' item'
  have hnew : unlines (before ++ marked.line :: after) = written := htext marked rfl rfl
  have hmarked : marked.line = p.opened ++ mark.toString ++ p.closed := marked.line_eq
  obtain ⟨hset, hrun, hfind', hlines⟩ := setStatus_written hfind hs hmark hplace hwritable
  rw [hnew] at hset hrun hfind' hlines
  refine ⟨hline.trans p.line_eq, rfl, hold.symm.trans (htext p rfl rfl), hset, hrun, hfind', ?_, ?_,
    fun hold' => ?_⟩
  · rw [hlines, getD_length_append]
    exact hmarked
  · rw [← hmarked]
    exact marked.taskLine?_line
  · obtain ⟨hback, -⟩ := setStatus_written hfind' hlines hold' hplace (hwritable.put _)
    refine ⟨_, hback, ?_, fun q hq => ?_⟩
    · rw [Tree.file?_put, if_pos rfl]
      exact congrArg (some ∘ Content.text) hold
    · rw [Tree.file?_put, if_neg hq, Tree.file?_put, if_neg hq]

theorem setStatus_frame_notes :
    notesEditor.find notesTree notesItem = .ok (notesText, 1) ∧
      taskLine? ((lines notesText).getD 1 "") = some ⟨"", some '-', some ' ', "T"⟩ ∧
      notesEditor.store.place notesTree notesItem.path = .ok ["a.md"] ∧
      notesTree.Writable ["a.md"] ∧
      (∃ tree tree', let item := { notesItem with status := "x" }
        notesEditor.setStatus notesTree notesItem "x" = (item, .ok tree) ∧
          notesEditor.find tree item = .ok ("# Notes\n- [x] T\n  - a\n\n- [ ] U\n", 1) ∧
          notesEditor.setStatus tree item " " = (notesItem, .ok tree') ∧
          tree'.file? ["a.md"] = some (.text notesText)) ∧
      ∃ failure, notesEditor.setStatus notesTree lostItem "x" = (lostItem, .error failure) ∧
        (Visit.start notesTree lostItem).run notesEditor (.mark 'x') =
          (⟨.ended (.error failure), notesTree, lostItem⟩, [.read "a.md"]) := by
  have hfind : notesEditor.find notesTree notesItem = .ok (notesText, 1) :=
    eq_ok_of_toOption (by decide +kernel)
  have htask : taskLine? ((lines notesText).getD 1 "") = some ⟨"", some '-', some ' ', "T"⟩ := by
    decide +kernel
  have hplace : notesEditor.store.place notesTree notesItem.path = .ok ["a.md"] :=
    eq_ok_of_toOption (by decide +kernel)
  have hwritable : notesTree.Writable ["a.md"] :=
    ⟨by decide +kernel, by decide +kernel, by decide +kernel⟩
  refine ⟨hfind, htask, hplace, hwritable, ?_, ?_⟩
  · obtain ⟨opened, old, closed, -, hold, -, hset, -, hagain, -, -, hback⟩ :=
      (setStatus_frame notesEditor notesTree notesItem).1 notesText 1 _ 'x' ["a.md"] hfind htask
        (by decide) hplace hwritable
    obtain rfl := Option.some.inj hold
    obtain ⟨tree', hback, hfile, -⟩ := hback (by decide)
    refine ⟨_, tree', hset, hagain.trans ?_, hback, hfile⟩
    have hread : ((notesEditor.setStatus notesTree notesItem "x").2.toOption.bind fun tree =>
        (notesEditor.find tree { notesItem with status := "x" }).toOption) =
        some ("# Notes\n- [x] T\n  - a\n\n- [ ] U\n", 1) := by
      decide +kernel
    rw [show "x" = 'x'.toString from rfl, hset] at hread
    exact hagain.symm.trans (eq_ok_of_toOption hread)
  · have hfails : (notesEditor.setStatus notesTree lostItem "x").2.toOption = none := by
      decide +kernel
    cases hset : notesEditor.setStatus notesTree lostItem "x" with
    | mk item' result =>
      rw [hset] at hfails
      cases result with
      | ok tree => cases hfails
      | error failure =>
        have hitem : (notesEditor.setStatus notesTree lostItem "x").1 = lostItem := by decide +kernel
        rw [hset] at hitem
        cases hitem
        exact ⟨failure, rfl,
          ((setStatus_frame notesEditor notesTree lostItem).2 "x" _ _ hset).2.2.2⟩

end BulletScript.Tasks
