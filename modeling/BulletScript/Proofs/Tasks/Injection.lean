import BulletScript.Proofs.Tasks.Edit
import BulletScript.Proofs.Tasks.Marked

/-! What an edit adds to a document: one line for each text it writes, below the item, as long as
no text brings lines of its own. -/
namespace BulletScript.Tasks

open Text Outline Files

namespace Update

variable {α β : Type}

/-- The lines that an edit puts below the item. -/
def added (u : Update) : List ChildLine :=
  u.prependChildren ++ u.replaceChildren.getD [] ++ (u.injectAt.map (·.2)).getD [] ++
    u.appendChildren

/-- What stays of the lines that could stay: nothing if others take their place. -/
def retained (u : Update) (kept : List α) : List α := if u.replaceChildren.isSome then [] else kept

theorem arrange_map (u : Update) (f : α → β) (write : ChildLine → α) (kept : List α) :
    (u.arrange write kept).map f = u.arrange (f ∘ write) (kept.map f) := by
  have hkept : ((u.replaceChildren.map (List.map write)).getD kept).map f =
      (u.replaceChildren.map (List.map (f ∘ write))).getD (kept.map f) := by
    cases u.replaceChildren <;> simp
  unfold arrange
  cases u.injectAt with
  | none => simp [hkept]
  | some injected => simp [← hkept, List.map_take, List.map_drop]

theorem take_append_drop_perm (n : Nat) (xs ys : List α) :
    (ys.take n ++ xs ++ ys.drop n).Perm (xs ++ ys) := by
  have hcomm : (ys.take n ++ xs).Perm (xs ++ ys.take n) := List.perm_append_comm
  have happend := hcomm.append_right (ys.drop n)
  rwa [List.append_assoc xs, List.take_append_drop] at happend

/-- An edit puts every line it adds among those that stay. -/
theorem arrange_perm (u : Update) (write : ChildLine → α) (kept : List α) :
    (u.arrange write kept).Perm (u.added.map write ++ u.retained kept) := by
  let injected := ((u.injectAt.map (·.2)).getD []).map write
  let replaced := (u.replaceChildren.getD []).map write
  let first := u.prependChildren.map write
  let last := u.appendChildren.map write
  have hreplaced : (u.replaceChildren.map (List.map write)).getD kept =
      replaced ++ u.retained kept := by
    unfold replaced retained
    cases u.replaceChildren <;> simp
  have hmiddle : ∃ middle, u.arrange write kept = first ++ middle ++ last ∧
      middle.Perm (injected ++ (replaced ++ u.retained kept)) := by
    unfold arrange
    rw [hreplaced]
    refine ⟨_, rfl, ?_⟩
    unfold injected
    cases u.injectAt with
    | none => exact .refl _
    | some at_ => exact take_append_drop_perm _ _ _
  obtain ⟨middle, harrange, hperm⟩ := hmiddle
  have hinner : (injected ++ replaced ++ (u.retained kept ++ last)).Perm
      (replaced ++ injected ++ (last ++ u.retained kept)) :=
    List.perm_append_comm.append List.perm_append_comm
  have hall := ((hperm.append_right last).append_left first).trans
    (by simpa using hinner.append_left first)
  rw [harrange, List.append_assoc]
  simpa [added, first, last, injected, replaced] using hall

theorem length_arrange (u : Update) (write : ChildLine → α) (kept : List α) :
    (u.arrange write kept).length = u.added.length + (u.retained kept).length := by
  rw [(u.arrange_perm write kept).length_eq, List.length_append, List.length_map]

theorem mem_arrange {u : Update} {write : ChildLine → α} {kept : List α} {a : α} :
    a ∈ u.arrange write kept ↔ (∃ child ∈ u.added, write child = a) ∨ a ∈ u.retained kept := by
  rw [(u.arrange_perm write kept).mem_iff, List.mem_append, List.mem_map]

theorem mem_of_mem_retained {u : Update} {kept : List α} {a : α} (h : a ∈ u.retained kept) :
    a ∈ kept := by
  unfold retained at h
  split at h
  · cases h
  · exact h

theorem kept_sublist (u : Update) (old : List String) : (u.kept old).Sublist old := by
  have hmarked (markers : String) (ls : List String) :
      (if markers = "" then ls else dropMarked markers ls).Sublist ls := by
    split
    · exact .refl _
    · exact dropMarkedBelow_sublist _ _ _
  have hall : (if u.removeAll then [] else old).Sublist old := by
    split
    · exact List.nil_sublist old
    · exact .refl _
  have hfilter (p : String × Nat → Bool) (ls : List String) :
      ((ls.zipIdx.filter p).map (·.1)).Sublist ls := by
    have hmap := (List.filter_sublist (p := p) (l := ls.zipIdx)).map Prod.fst
    rwa [List.zipIdx_map_fst] at hmap
  exact (hfilter _ _).trans ((hmarked _ _).trans hall)

/-- How many lines below the item an edit drops. -/
def dropped (u : Update) (old : List String) : Nat := old.length - (u.retained (u.kept old)).length

theorem dropped_add_retained (u : Update) (old : List String) :
    u.dropped old + (u.retained (u.kept old)).length = old.length := by
  have hkept := (u.kept_sublist old).length_le
  have hretained : (u.retained (u.kept old)).length ≤ (u.kept old).length := by
    unfold retained
    split
    · exact Nat.zero_le _
    · exact Nat.le_refl _
  unfold dropped
  omega

end Update

/-- The texts that make up a document after an edit, each with whether the edit wrote it. -/
def markedPieces (unit : String) (u : Update) (ls : List String) (index : Nat) :
    List (String × Bool) :=
  let line := ls.getD index ""
  let stay (l : String) := (l, false)
  (ls.take index).map stay ++
    (decoration line ++ u.content (ListLine.ofText line).content, true) ::
      u.arrange (fun child => (child.line unit (leadingBlanks line), true))
        ((u.kept (blockBelow ls index)).map stay) ++
    (ls.drop (blockEnd ls index + 1)).map stay

/-- The lines of a document after an edit, each with whether the edit wrote it. -/
def markedLines (unit : String) (u : Update) (ls : List String) (index : Nat) :
    List (String × Bool) :=
  (markedPieces unit u ls index).flatMap fun (piece, written) => (lines piece).map (·, written)

variable {unit s line : String} {u : Update} {before after : List String}

theorem markedPieces_append (unit : String) (u : Update) (before after : List String)
    (line : String) :
    markedPieces unit u (before ++ line :: after) before.length =
      before.map (·, false) ++
        (decoration line ++ u.content (ListLine.ofText line).content, true) ::
          u.arrange (fun child => (child.line unit (leadingBlanks line), true))
            ((u.kept (after.take (bodyLength (indentWidth line) after))).map (·, false)) ++
        (after.drop (bodyLength (indentWidth line) after)).map (·, false) := by
  simp only [markedPieces, getD_length_append, blockBelow_append, drop_blockEnd_append,
    List.take_left]

theorem markedPieces_fst (unit : String) (u : Update) (before after : List String)
    (line : String) :
    (markedPieces unit u (before ++ line :: after) before.length).map (·.1) =
      editLines unit u (before ++ line :: after) before.length := by
  rw [markedPieces_append, editLines_append, Update.children]
  simp [Update.arrange_map, Function.comp_def]

theorem markedLines_fst (unit : String) (u : Update) (ls : List String) (index : Nat) :
    (markedLines unit u ls index).map (·.1) =
      ((markedPieces unit u ls index).map (·.1)).flatMap lines := by
  simp [markedLines, List.map_flatMap, List.flatMap_map, Function.comp_def]

/-- Where no piece holds a newline, the pieces are the lines. -/
theorem markedLines_eq {ls : List String} {index : Nat}
    (h : ∀ piece ∈ (markedPieces unit u ls index).map (·.1), '\n' ∉ piece.toList) :
    markedLines unit u ls index = markedPieces unit u ls index := by
  unfold markedLines
  generalize markedPieces unit u ls index = pieces at h ⊢
  induction pieces with
  | nil => rfl
  | cons piece rest ih =>
    obtain ⟨piece, written⟩ := piece
    rw [List.map_cons, List.forall_mem_cons] at h
    have hpiece : lines piece = [piece] := lines_of_no_newline h.1
    rw [List.flatMap_cons, ih h.2]
    simp only [hpiece, List.map_cons, List.map_nil, List.singleton_append]

section Block

variable {b : Char} (hb : (ListLine.ofText line).bullet = some b)
  (hsplit : ∀ l ∈ before ++ line :: after, '\n' ∉ l.toList)

include hb hsplit in
/-- Each text that an edit writes is one line, exactly if no text holds a newline. -/
theorem no_newline_editLines_iff (unit : String) (u : Update) :
    (∀ piece ∈ editLines unit u (before ++ line :: after) before.length, '\n' ∉ piece.toList) ↔
      '\n' ∉ (u.content (ListLine.ofText line).content).toList ∧
        ∀ child ∈ u.added, '\n' ∉ (child.line unit (leadingBlanks line)).toList := by
  have hline : '\n' ∉ line.toList := hsplit line (by simp)
  have hdecoration : '\n' ∉ (decoration line).toList := by
    intro hn
    rw [← decoration_append_content (hb ▸ rfl) hline] at hline
    exact hline (by simp [hn])
  rw [editLines_append]
  constructor
  · intro h
    refine ⟨fun hn => ?_, fun child hchild => ?_⟩
    · exact h (decoration line ++ u.content (ListLine.ofText line).content) (by simp)
        (by simp [hn])
    · refine h _ (List.mem_append_left _ (List.mem_append_right _ (List.mem_cons_of_mem _ ?_)))
      exact Update.mem_arrange.2 (.inl ⟨child, hchild, rfl⟩)
  · rintro ⟨hcontent, hadded⟩ piece hpiece
    simp only [List.append_assoc, List.mem_append, List.cons_append, List.mem_cons] at hpiece
    rcases hpiece with hpiece | rfl | hpiece | hpiece
    · exact hsplit piece (by simp [hpiece])
    · simp [hdecoration, hcontent]
    · rcases Update.mem_arrange.1 hpiece with ⟨child, hchild, rfl⟩ | hkept
      · exact hadded child hchild
      · have hold := (u.kept_sublist _).subset (Update.mem_of_mem_retained hkept)
        exact hsplit piece (by simp [List.mem_of_mem_take hold])
    · exact hsplit piece (by simp [List.mem_of_mem_drop hpiece])

theorem length_editLines (unit : String) (u : Update) (before after : List String)
    (line : String) :
    (editLines unit u (before ++ line :: after) before.length).length +
        u.dropped (blockBelow (before ++ line :: after) before.length) =
      (before ++ line :: after).length + u.added.length := by
  have hdropped := u.dropped_add_retained (after.take (bodyLength (indentWidth line) after))
  have hbody := bodyLength_le (indentWidth line) after
  rw [editLines_append, blockBelow_append]
  simp only [Update.children, List.length_append, List.length_cons, Update.length_arrange,
    List.length_take, List.length_drop] at hdropped ⊢
  omega

include hb hsplit in
theorem blockEnd_editLines :
    blockEnd (editLines unit u (before ++ line :: after) before.length) before.length =
      before.length + bodyLength (indentWidth line)
        (u.children unit (leadingBlanks line) (after.take (bodyLength (indentWidth line) after)) ++
          after.drop (bodyLength (indentWidth line) after)) := by
  have hblanks := leadingBlanks_decoration_append hb (hsplit line (by simp))
    (u.content (ListLine.ofText line).content)
  rw [editLines_append, List.append_assoc, List.cons_append, blockEnd_append]
  simp only [indentWidth, hblanks]

/-- Where the written lines are, among lines that stay. -/
theorem getElem?_written_iff {stay rest : List String} {first l : String}
    {below : List (String × Bool)} {k : Nat} :
    (stay.map (·, false) ++ (first, true) :: below ++ rest.map (·, false))[k]? = some (l, true) ↔
      k = stay.length ∧ l = first ∨
        ∃ front back, below = front ++ (l, true) :: back ∧ k = stay.length + 1 + front.length := by
  have hstays {ls : List String} {n : Nat} : (ls.map (·, false))[n]? ≠ some (l, true) := by
    intro h
    simpa using List.mem_of_getElem? h
  rw [List.append_assoc, List.cons_append]
  constructor
  · intro h
    by_cases hk : k < stay.length
    · rw [List.getElem?_append_left (by simpa using hk)] at h
      exact absurd h hstays
    · obtain ⟨j, rfl⟩ := Nat.exists_eq_add_of_le (Nat.not_lt.1 hk)
      rw [List.getElem?_append_right (by simp), List.length_map, Nat.add_sub_cancel_left] at h
      cases j with
      | zero =>
        cases h
        exact .inl ⟨rfl, rfl⟩
      | succ j =>
        rw [List.getElem?_cons_succ] at h
        by_cases hj : j < below.length
        · rw [List.getElem?_append_left hj] at h
          obtain ⟨front, back, hbelow, rfl⟩ := exists_split h
          exact .inr ⟨front, back, hbelow, by omega⟩
        · rw [List.getElem?_append_right (Nat.not_lt.1 hj)] at h
          exact absurd h hstays
  · rintro (⟨rfl, rfl⟩ | ⟨front, back, rfl, rfl⟩)
    · simp
    · rw [List.getElem?_append_right (by simp; omega), List.length_map,
        show stay.length + 1 + front.length - stay.length = front.length + 1 by omega,
        List.getElem?_cons_succ]
      simp

/-- Among lines that stay below, the written ones are in the block exactly if each is indented
further. -/
theorem written_inside_iff {below : List (String × Bool)} {width : Nat} (rest : List String)
    (hstays : ∀ l, (l, false) ∈ below → staysBelow width l = true)
    (hshown : ∀ l, (l, true) ∈ below → isBlankText l = false) :
    (∀ front l back, below = front ++ (l, true) :: back →
        front.length < bodyLength width (below.map (·.1) ++ rest)) ↔
      ∀ l, (l, true) ∈ below → width < indentWidth l := by
  have hblock {front back : List (String × Bool)} {l : String}
      (hbelow : below = front ++ (l, true) :: back) :
      front.length < bodyLength width (below.map (·.1) ++ rest) ↔
        (∀ l ∈ front.map (·.1), staysBelow width l = true) ∧ width < indentWidth l := by
    rw [← lt_bodyLength_iff (hshown l (by simp [hbelow])), List.length_map, hbelow,
      List.map_append, List.map_cons, List.append_assoc, List.cons_append]
  constructor
  · intro h l hl
    obtain ⟨front, back, hbelow⟩ := List.append_of_mem hl
    exact ((hblock hbelow).1 (h front l back hbelow)).2
  · intro hdeep front l back hbelow
    refine (hblock hbelow).2 ⟨fun l hl => ?_, hdeep l (by simp [hbelow])⟩
    obtain ⟨⟨l, written⟩, hmem, rfl⟩ := List.mem_map.1 hl
    have hmem : (l, written) ∈ below := by simp [hbelow, hmem]
    cases written with
    | true => exact staysBelow_of_lt (hdeep l hmem)
    | false => exact hstays l hmem

/-- The lines that an edit writes lie inside the item's block exactly if each line that it adds is
indented further than the item. -/
theorem markedPieces_inside_iff
    (hshown : ∀ child ∈ u.added, isBlankText (child.line unit (leadingBlanks line)) = false) :
    (∀ k l, (markedPieces unit u (before ++ line :: after) before.length)[k]? = some (l, true) →
        before.length ≤ k ∧ k ≤ before.length + bodyLength (indentWidth line)
          (u.children unit (leadingBlanks line)
            (after.take (bodyLength (indentWidth line) after)) ++
          after.drop (bodyLength (indentWidth line) after))) ↔
      ∀ child ∈ u.added, indentWidth line < indentWidth (child.line unit (leadingBlanks line)) := by
  rw [markedPieces_append]
  generalize leadingBlanks line = base at hshown ⊢
  generalize indentWidth line = width
  generalize hold : after.take (bodyLength width after) = old
  generalize hbelow : u.arrange (fun child => (child.line unit base, true))
    ((u.kept old).map (·, false)) = below
  have hfst : u.children unit base old = below.map (·.1) := by
    simp [← hbelow, Update.children, Update.arrange_map, Function.comp_def]
  have hwritten (l : String) : (l, true) ∈ below ↔ ∃ child ∈ u.added, child.line unit base = l := by
    rw [← hbelow, Update.mem_arrange, or_iff_left fun h => by
      simpa using Update.mem_of_mem_retained h]
    simp
  have hstays (l : String) (h : (l, false) ∈ below) : staysBelow width l = true := by
    rw [← hbelow, Update.mem_arrange] at h
    rcases h with ⟨child, hchild, heq⟩ | h
    · cases heq
    · have hkept : l ∈ u.kept old := by simpa using Update.mem_of_mem_retained h
      have hmem := (u.kept_sublist old).subset hkept
      rw [← hold] at hmem
      exact staysBelow_of_mem_block hmem
  have hinside : _ ↔ ∀ l, (l, true) ∈ below → width < indentWidth l :=
    written_inside_iff (after.drop (bodyLength width after)) hstays fun l hl => by
      obtain ⟨child, hchild, rfl⟩ := (hwritten l).1 hl
      exact hshown child hchild
  simp only [hfst, getElem?_written_iff]
  simp only [hwritten] at hinside
  constructor
  · intro h child hchild
    refine hinside.1 (fun front l back hsplit => ?_) _ ⟨child, hchild, rfl⟩
    have := (h _ _ (.inr ⟨front, back, hsplit, rfl⟩)).2
    omega
  · rintro h k l (⟨rfl, -⟩ | ⟨front, back, hsplit, rfl⟩)
    · exact ⟨Nat.le_refl _, Nat.le_add_right _ _⟩
    · have hlt := hinside.2 (by rintro _ ⟨child, hchild, rfl⟩; exact h child hchild)
        front l back hsplit
      omega

end Block

/-- A line with a bullet is not blank. -/
theorem not_isBlankText_line {child : ChildLine} (h : isBlankText child.marker = false)
    (unit base : String) : isBlankText (child.line unit base) = false := by
  obtain ⟨c, hc, hblank⟩ := List.all_eq_false.1 h
  refine not_isBlankText_of_mem ?_ (by simpa using hblank)
  simp [ChildLine.line, hc]

/-- An edit adds one line for each line it is told to add, and writes inside the item's block only,
exactly if neither the item's new text nor an added line holds a newline and each added line is
indented further than the item. -/
theorem update_inside_iff {editor : Editor} {tree tree' : Tree} {item item' : WorkItem}
    {index : Nat} (hfind : editor.find tree item = .ok (s, index))
    (hlist : (ListLine.ofText ((lines s).getD index "")).bullet.isSome)
    (hshown : ∀ child ∈ u.added, isBlankText (child.line editor.indentUnit
      (leadingBlanks ((lines s).getD index ""))) = false)
    (hupdate : editor.update tree item u = (item', .ok tree')) :
    let line := (lines s).getD index ""
    let written := markedLines editor.indentUnit u (lines s) index
    ∃ text, (∀ missing, editor.store.content tree' item.path missing = .ok (.text text)) ∧
      lines text = written.map (·.1) ∧
      ((lines text).length + u.dropped (blockBelow (lines s) index) =
            (lines s).length + u.added.length ∧
          (∀ k l, written[k]? = some (l, true) → index ≤ k ∧ k ≤ blockEnd (lines text) index) ↔
        '\n' ∉ item'.text.toList ∧ ∀ child ∈ u.added,
          '\n' ∉ (child.line editor.indentUnit (leadingBlanks line)).toList ∧
            indentWidth line < indentWidth (child.line editor.indentUnit (leadingBlanks line))) := by
  obtain ⟨before, line, after, hs, rfl⟩ := Editor.find_split hfind
  obtain ⟨hwrite, rfl⟩ := (Editor.update_eq_ok hfind).1 hupdate
  have hsplit : ∀ l ∈ before ++ line :: after, '\n' ∉ l.toList := fun l hl =>
    no_newline_of_mem_lines (hs ▸ hl)
  simp only [hs, getD_length_append] at hlist hshown ⊢
  obtain ⟨b, hb⟩ := Option.isSome_iff_exists.1 hlist
  let ls := editLines editor.indentUnit u (before ++ line :: after) before.length
  have hne : ls ≠ [] := by simp [ls, editLines_append]
  rw [editText_eq _ _ hs (not_isBlankText_of_bullet hb), hs] at hwrite
  have hpieces := markedPieces_fst editor.indentUnit u before after line
  have hlines : lines (unlines ls) = (markedLines editor.indentUnit u (before ++ line :: after)
      before.length).map (·.1) := by
    rw [lines_unlines hne, markedLines_fst, hpieces]
  refine ⟨unlines ls, Documents.Store.content_write hwrite, hlines, ?_⟩
  have hcount : (lines (unlines ls)).length + u.dropped (blockBelow (before ++ line :: after)
      before.length) = (before ++ line :: after).length + u.added.length ↔
      ∀ piece ∈ ls, '\n' ∉ piece.toList := by
    rw [← length_flatMap_lines, ← length_editLines editor.indentUnit u, lines_unlines hne,
      Nat.add_right_cancel_iff]
  have hinside (hone : ∀ piece ∈ ls, '\n' ∉ piece.toList) :
      (∀ k l, (markedLines editor.indentUnit u (before ++ line :: after) before.length)[k]? =
          some (l, true) → before.length ≤ k ∧ k ≤ blockEnd (lines (unlines ls)) before.length) ↔
        ∀ child ∈ u.added, indentWidth line <
          indentWidth (child.line editor.indentUnit (leadingBlanks line)) := by
    rw [lines_unlines_of_no_newline hne hone, blockEnd_editLines hb hsplit,
      markedLines_eq (hpieces ▸ hone)]
    exact markedPieces_inside_iff hshown
  have hnewline := no_newline_editLines_iff hb hsplit editor.indentUnit u
  rw [hcount]
  constructor
  · rintro ⟨hone, hwritten⟩
    obtain ⟨hcontent, hadded⟩ := hnewline.1 hone
    exact ⟨hcontent, fun child hchild =>
      ⟨hadded child hchild, (hinside hone).1 hwritten child hchild⟩⟩
  · rintro ⟨hcontent, hadded⟩
    have hone := hnewline.2 ⟨hcontent, fun child hchild => (hadded child hchild).1⟩
    exact ⟨hone, (hinside hone).2 fun child hchild => (hadded child hchild).2⟩

/-- A document with two items. -/
def pairText : String := "- [ ] T\n- [ ] U"

def pairTree : Tree := { root := "/", files := [(["a.md"], .text pairText)] }

def pairItem : WorkItem :=
  { text := "T", path := "a.md", line := 0, status := " ", tags := [], indent := "" }

def pairEditor : Editor := { store := {}, indentUnit := "  " }

/-- One added line whose text holds a newline. -/
def pairUpdate : Update := { prependChildren := [{ text := "x\ny", marker := "*" }] }

/-- One line is to be added to two, but there are four, and the third is not below the item. -/
theorem update_injects_line :
    ((pairEditor.update pairTree pairItem pairUpdate).2.toOption.bind fun tree =>
        (pairEditor.store.read tree pairItem.path).toOption) =
      some "- [ ] T\n  * x\ny\n- [ ] U" ∧
    pairUpdate.added.length = 1 ∧ pairUpdate.dropped (blockBelow (lines pairText) 0) = 0 ∧
    (lines pairText).length = 2 ∧ (lines "- [ ] T\n  * x\ny\n- [ ] U").length = 4 ∧
    (markedLines "  " pairUpdate (lines pairText) 0)[2]? = some ("y", true) ∧
    blockEnd (lines "- [ ] T\n  * x\ny\n- [ ] U") 0 = 1 := by
  decide +kernel

/-- More lines come in, or one is written outside the block. -/
theorem update_inside_iff_pair :
    let written := markedLines pairEditor.indentUnit pairUpdate (lines pairText) 0
    ∃ item tree text, pairEditor.update pairTree pairItem pairUpdate = (item, .ok tree) ∧
      (∀ missing, pairEditor.store.content tree pairItem.path missing = .ok (.text text)) ∧
      lines text = written.map (·.1) ∧
      ¬((lines text).length + pairUpdate.dropped (blockBelow (lines pairText) 0) =
            (lines pairText).length + pairUpdate.added.length ∧
          ∀ k l, written[k]? = some (l, true) → 0 ≤ k ∧ k ≤ blockEnd (lines text) 0) := by
  intro written
  let line := (lines pairText).getD 0 ""
  have hfind : pairEditor.find pairTree pairItem = .ok (pairText, 0) :=
    eq_ok_of_toOption (by decide +kernel)
  have hmarker : ∀ child ∈ pairUpdate.added, isBlankText child.marker = false := by decide
  have hshown : ∀ child ∈ pairUpdate.added, isBlankText (child.line pairEditor.indentUnit
      (leadingBlanks line)) = false := fun child hchild =>
    not_isBlankText_line (hmarker child hchild) _ _
  have hsome : (pairEditor.update pairTree pairItem pairUpdate).2.toOption.isSome := by
    decide +kernel
  obtain ⟨tree, htree⟩ := exists_eq_ok_of_isSome hsome
  have hupdate : pairEditor.update pairTree pairItem pairUpdate = (_, .ok tree) :=
    Prod.ext rfl htree
  obtain ⟨text, hcontent, hlines, hinside⟩ :=
    update_inside_iff hfind (by decide +kernel) hshown hupdate
  have hnewline : ¬ ∀ child ∈ pairUpdate.added,
      '\n' ∉ (child.line pairEditor.indentUnit (leadingBlanks line)).toList := by
    decide +kernel
  exact ⟨_, tree, text, hupdate, hcontent, hlines, fun h =>
    hnewline fun child hchild => ((hinside.1 h).2 child hchild).1⟩

end BulletScript.Tasks
