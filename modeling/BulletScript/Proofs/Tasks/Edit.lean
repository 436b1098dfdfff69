import BulletScript.Proofs.Documents.Store
import BulletScript.Proofs.Outline.Block
import BulletScript.Proofs.Outline.Line
import BulletScript.Proofs.Text.Lines
import BulletScript.Tasks.Editor

/-! Edits as changes of the lines of a document: what stands before and after the item's block
stays, and the document that is written has the lines of the edit. -/
namespace BulletScript.Tasks

open Text Outline Files

variable {unit s line : String} {u : Update} {before after : List String}

/-- What settings accept as a unit of indentation, on one line. -/
structure IndentUnit (unit : String) : Prop where
  nonempty : unit ≠ ""
  blank : isBlankText unit = true
  single : SingleLine unit

theorem eq_ok_of_toOption {α : Type} {r : Result α} {a : α} (h : r.toOption = some a) :
    r = .ok a := by
  cases r with
  | error failure => cases h
  | ok b => exact congrArg Except.ok (Option.some.inj h)

theorem exists_eq_ok_of_isSome {α : Type} {r : Result α} (h : r.toOption.isSome) :
    ∃ a, r = .ok a := by
  obtain ⟨a, ha⟩ := Option.isSome_iff_exists.1 h
  exact ⟨a, eq_ok_of_toOption ha⟩

theorem isBlank_of_mem_units {c : Char} (hblank : isBlankText unit = true) (n : Nat)
    (hc : c ∈ (repeated unit n).toList) : isBlank c = true := by
  simp only [repeated, String.toList_ofList, List.mem_flatten, List.mem_replicate] at hc
  obtain ⟨_, ⟨-, rfl⟩, hc⟩ := hc
  exact List.all_eq_true.1 hblank c hc

/-- A line that begins with the indentation of another one and with units of indentation is indented
further. -/
theorem indentWidth_lt_append (hne : unit ≠ "") (hblank : isBlankText unit = true) (n : Nat)
    (line tail : String) :
    indentWidth line < indentWidth (leadingBlanks line ++ repeated unit (n + 1) ++ tail) := by
  let blanks := (leadingBlanks line).toList ++ (repeated unit (n + 1)).toList
  have hblanks : ∀ c ∈ blanks, isBlank c = true := by
    intro c hc
    rcases List.mem_append.1 hc with hc | hc
    · exact leadingBlanks_blank line c hc
    · exact isBlank_of_mem_units hblank (n + 1) hc
  have hleading : (leadingBlanks (leadingBlanks line ++ repeated unit (n + 1) ++ tail)).toList =
      (leadingBlanks line).toList ++
        ((repeated unit (n + 1)).toList ++ tail.toList.takeWhile isBlank) := by
    rw [leadingBlanks, String.toList_ofList, String.toList_append, String.toList_append,
      List.takeWhile_append_of_pos hblanks, List.append_assoc]
  refine indentWidth_lt hleading ?_
  have hne : unit.toList ≠ [] := by simpa using hne
  simp [repeated, List.replicate_succ, hne]

/-- A line is indented further than the item it is written below, at every depth from 0 on. -/
theorem indentWidth_lt_line (hunit : IndentUnit unit) {child : ChildLine}
    (hdepth : 0 ≤ child.indent) (line : String) :
    indentWidth line < indentWidth (child.line unit (leadingBlanks line)) := by
  obtain ⟨n, hn⟩ := Int.eq_ofNat_of_zero_le hdepth
  have hdepth : (child.indent + 1).toNat = n + 1 := by omega
  have hdeeper := indentWidth_lt_append hunit.nonempty hunit.blank n line
    (child.marker ++ (" " ++ child.text))
  simpa only [ChildLine.line, hdepth, String.append_assoc] using hdeeper

/-- A list line with its decoration taken off and put on again. -/
theorem decoration_append_content (h : (ListLine.ofText line).bullet.isSome)
    (hline : '\n' ∉ line.toList) : decoration line ++ (ListLine.ofText line).content = line := by
  obtain ⟨b, hb⟩ := Option.isSome_iff_exists.1 h
  obtain ⟨-, tail, heq, hcontent⟩ := ofText_of_bullet hb hline
  obtain ⟨front, hfront⟩ : (ListLine.ofText line).content.toList <:+ line.toList := by
    rw [heq]
    exact hcontent.trans ((List.suffix_cons b tail).trans (List.suffix_append _ _))
  apply String.toList_injective
  simp [decoration, dropEnd, ← hfront, ← String.length_toList]

/-- The decoration of a list line begins with its indentation and its bullet. -/
theorem toList_decoration {b : Char} (h : (ListLine.ofText line).bullet = some b)
    (hline : '\n' ∉ line.toList) :
    ∃ more, (decoration line).toList = line.toList.takeWhile isBlank ++ b :: more := by
  obtain ⟨-, tail, heq, ⟨front, hfront⟩⟩ := ofText_of_bullet h hline
  refine ⟨front, ?_⟩
  rw [decoration, dropEnd, String.toList_ofList, ← String.length_toList]
  generalize line.toList.takeWhile isBlank = indent at heq ⊢
  rw [heq, ← hfront]
  simp only [List.length_append, List.length_cons]
  rw [show indent.length + ((front.length + (ListLine.ofText line).content.toList.length) + 1) -
    (ListLine.ofText line).content.toList.length = (indent ++ b :: front).length by simp; omega,
    ← List.cons_append, ← List.append_assoc, List.take_left]

/-- Another content leaves the indentation of a list line as it is. -/
theorem leadingBlanks_decoration_append {b : Char} (h : (ListLine.ofText line).bullet = some b)
    (hline : '\n' ∉ line.toList) (content : String) :
    leadingBlanks (decoration line ++ content) = leadingBlanks line := by
  obtain ⟨more, hmore⟩ := toList_decoration h hline
  have hb := (ofText_of_bullet h hline).1
  have heq : (decoration line ++ content).toList =
      line.toList.takeWhile isBlank ++ b :: (more ++ content.toList) := by
    rw [String.toList_append, hmore, List.append_assoc, List.cons_append]
  exact leadingBlanks_of_eq heq (fun c hc => List.all_eq_true.1 List.all_takeWhile c hc)
    (not_isBlank_of_isBullet hb)

/-- Where no offsets are given, only the lines with a bullet are dropped. -/
theorem kept_of_no_offsets {old : List String} (hall : u.removeAll = false)
    (hoffsets : u.removeOffsets = []) :
    u.kept old = if u.removeMarked = "" then old else dropMarked u.removeMarked old := by
  simp only [Update.kept, hall, hoffsets]
  rw [List.filter_eq_self.2]
  · exact List.zipIdx_map_fst 0 _
  · intro _ _
    rfl

theorem blockEnd_append : blockEnd (before ++ line :: after) before.length =
    before.length + bodyLength (indentWidth line) after := by
  rw [blockEnd, getD_length_append, drop_length_append]

theorem blockBelow_append : blockBelow (before ++ line :: after) before.length =
    after.take (bodyLength (indentWidth line) after) := by
  rw [blockBelow, getD_length_append, drop_length_append]

theorem drop_blockEnd_append :
    (before ++ line :: after).drop (blockEnd (before ++ line :: after) before.length + 1) =
      after.drop (bodyLength (indentWidth line) after) := by
  rw [blockEnd_append, show before.length + bodyLength (indentWidth line) after + 1 =
    before.length + 1 + bodyLength (indentWidth line) after by omega, ← List.drop_drop,
    drop_length_append]

/-- The lines up to the end of a block, without those up to its first. -/
theorem drop_take_blockEnd_append :
    ((before ++ line :: after).take
      (blockEnd (before ++ line :: after) before.length + 1)).drop (before.length + 1) =
      after.take (bodyLength (indentWidth line) after) := by
  rw [List.drop_take, drop_length_append, blockEnd_append]
  congr 1
  omega

/-- An edit writes the item's line anew, and the lines of its block. -/
theorem editLines_append (unit : String) (u : Update) (before after : List String)
    (line : String) :
    editLines unit u (before ++ line :: after) before.length =
      before ++ (decoration line ++ u.content (ListLine.ofText line).content) ::
        u.children unit (leadingBlanks line) (after.take (bodyLength (indentWidth line) after)) ++
        after.drop (bodyLength (indentWidth line) after) := by
  simp only [editLines, drop_take_blockEnd_append, drop_blockEnd_append, getD_length_append,
    List.take_left]

/-- Below a line that is not the empty one behind the newline at the end of a document, that one is
the last. -/
theorem blank_last_of_endsWith (h : endsWith "\n" s = true) (hs : lines s = before ++ line :: after)
    (hline : after = [] → line ≠ "") : ∃ rest, after = rest ++ [""] := by
  obtain ⟨first, -, hfirst⟩ := lines_of_endsWith h
  rw [hs] at hfirst
  rcases List.eq_nil_or_concat after with rfl | ⟨rest, last, rfl⟩
  · obtain ⟨-, hlast⟩ := List.append_inj' hfirst rfl
    exact absurd (List.singleton_inj.1 hlast) (hline rfl)
  · rw [List.concat_eq_append, ← List.cons_append, ← List.append_assoc] at hfirst
    obtain ⟨-, hlast⟩ := List.append_inj' hfirst rfl
    obtain rfl := List.singleton_inj.1 hlast
    exact ⟨rest, List.concat_eq_append⟩

/-- The empty line behind the newline at the end of a document lies after every block. -/
theorem drop_body_of_endsWith (h : endsWith "\n" s = true) (hs : lines s = before ++ line :: after)
    (hline : after = [] → line ≠ "") :
    ∃ rest, after.drop (bodyLength (indentWidth line) after) = rest ++ [""] := by
  obtain ⟨rest, rfl⟩ := blank_last_of_endsWith h hs hline
  rw [bodyLength_concat_blank (by decide), List.drop_append_of_le_length (bodyLength_le _ _)]
  exact ⟨_, rfl⟩

/-- No newline is added to lines that end with the empty one. -/
theorem joinLines_eq {ls : List String} {trailing : Bool}
    (h : trailing = true → ∃ first, first ≠ [] ∧ ls = first ++ [""]) :
    joinLines ls trailing = unlines ls := by
  rw [joinLines]
  refine if_neg ?_
  rw [Bool.and_eq_true, Bool.not_eq_true', not_and, Bool.not_eq_false]
  intro htrailing
  obtain ⟨first, hfirst, rfl⟩ := h htrailing
  exact endsWith_unlines hfirst

/-- The document that is written has the lines of the edit, and no newline is added to them, unless
the edit is of an empty line at the end. -/
theorem editText_eq_of_ne (unit : String) (u : Update) (hs : lines s = before ++ line :: after)
    (hline : after = [] → line ≠ "") :
    editText unit u s before.length = unlines (editLines unit u (lines s) before.length) := by
  refine joinLines_eq fun htrailing => ?_
  obtain ⟨rest, hrest⟩ := drop_body_of_endsWith htrailing hs hline
  rw [hs, editLines_append, hrest, ← List.append_assoc]
  exact ⟨_, by simp, rfl⟩

theorem editText_eq (unit : String) (u : Update) (hs : lines s = before ++ line :: after)
    (hline : isBlankText line = false) :
    editText unit u s before.length = unlines (editLines unit u (lines s) before.length) := by
  refine editText_eq_of_ne unit u hs fun _ hempty => ?_
  rw [hempty] at hline
  exact absurd hline (by decide)

section Locate

variable {ls : List String} {item : WorkItem}

/-- An item is found where it was if its text is there, else on the first line with its text. -/
theorem locate_eq_some_iff {index : Nat} : locate ls item = some index ↔
    (∃ l, ls[index]? = some l ∧ (ListLine.ofText l).content = item.text) ∧
      (item.line = index ∨
        (∀ l, 0 ≤ item.line → ls[item.line.toNat]? = some l →
          (ListLine.ofText l).content ≠ item.text) ∧
        ∀ l ∈ ls.take index, (ListLine.ofText l).content ≠ item.text) := by
  simp only [locate]
  split
  · rename_i hthere
    rw [Bool.and_eq_true, decide_eq_true_eq] at hthere
    obtain ⟨hnonneg, hany⟩ := hthere
    obtain ⟨there, hget, hcontent⟩ := (Option.any_eq_true _ _).1 hany
    have hcontent := of_decide_eq_true hcontent
    constructor
    · intro h
      cases h
      exact ⟨⟨there, hget, hcontent⟩, .inl (Int.toNat_of_nonneg hnonneg).symm⟩
    · rintro ⟨-, hline | ⟨hnone, -⟩⟩
      · rw [hline, Int.toNat_natCast]
      · exact absurd hcontent (hnone there hnonneg hget)
  · rename_i hthere
    have hnone (l : String) (hnonneg : 0 ≤ item.line) (hget : ls[item.line.toNat]? = some l) :
        (ListLine.ofText l).content ≠ item.text := by
      rintro hcontent
      exact hthere (by simp [hnonneg, hget, hcontent])
    rw [List.findIdx?_eq_some_iff_getElem]
    constructor
    · rintro ⟨hlt, hcontent, hbefore⟩
      refine ⟨⟨ls[index], List.getElem?_eq_getElem hlt, of_decide_eq_true hcontent⟩,
        .inr ⟨hnone, fun l hl => ?_⟩⟩
      obtain ⟨j, hj, rfl⟩ := List.mem_take_iff_getElem.1 hl
      simpa using hbefore j (by omega)
    · rintro ⟨⟨l, hget, hcontent⟩, hline | ⟨-, hbefore⟩⟩
      · exact absurd hcontent (hnone l (by omega) (by rwa [hline, Int.toNat_natCast]))
      · obtain ⟨hlt, rfl⟩ := List.getElem?_eq_some_iff.1 hget
        refine ⟨hlt, decide_eq_true hcontent, fun j hj => ?_⟩
        simpa using hbefore _ (List.mem_take_iff_getElem.2 ⟨j, by omega, rfl⟩)

/-- An item is found if its text is anywhere in its document. -/
theorem exists_locate_eq_some (h : ∃ l ∈ ls, (ListLine.ofText l).content = item.text) :
    ∃ index, locate ls item = some index := by
  simp only [locate]
  split
  · exact ⟨_, rfl⟩
  · obtain ⟨l, hl, hcontent⟩ := h
    refine Option.isSome_iff_exists.1 ?_
    rw [List.findIdx?_isSome, List.any_eq_true]
    exact ⟨l, hl, decide_eq_true hcontent⟩

/-- A line that is found has the text of the item. -/
theorem locate_eq_some {index : Nat} (h : locate ls item = some index) :
    ∃ line, ls[index]? = some line ∧ (ListLine.ofText line).content = item.text :=
  (locate_eq_some_iff.1 h).1

theorem content_of_locate (h : locate (before ++ line :: after) item = some before.length) :
    (ListLine.ofText line).content = item.text := by
  obtain ⟨l, hget, hl⟩ := locate_eq_some h
  rw [List.getElem?_append_right (Nat.le_refl _), Nat.sub_self, List.getElem?_cons_zero] at hget
  exact Option.some.inj hget ▸ hl

/-- An item is found where it says it is, if its text is there. -/
theorem locate_append (hitem : item.line = before.length)
    (hline : (ListLine.ofText line).content = item.text) :
    locate (before ++ line :: after) item = some before.length :=
  locate_eq_some_iff.2 ⟨⟨line, by simp, hline⟩, .inl hitem⟩

end Locate

section Documents

variable {store : Documents.Store} {tree tree' : Tree} {path : String}

/-- What is read from a document has no carriage return. -/
theorem no_return_of_read (h : store.read tree path = .ok s) : '\r' ∉ s.toList := by
  unfold Documents.Store.read at h
  cases hcontent : store.content tree path (.documentNotFound path) with
  | error failure => simp [hcontent, bind, Except.bind] at h
  | ok content =>
    cases content with
    | text t =>
      simp only [hcontent, bind, Except.bind, Content.toText, Except.ok.injEq] at h
      exact h ▸ no_return_plainNewlines t
    | bytes data fault => simp [hcontent, bind, Except.bind, Content.toText] at h

/-- A document that was written with some lines is read again, and has them. -/
theorem read_unlines {ls : List String} (h : store.write tree path (unlines ls) = .ok tree')
    (hne : ls ≠ []) (hls : ∀ l ∈ ls, SingleLine l) :
    store.read tree' path = .ok (unlines ls) ∧ lines (unlines ls) = ls := by
  have hreturn := no_return_unlines fun l hl => (hls l hl).2
  rw [Documents.Store.read_write h, plainNewlines_of_no_return hreturn]
  exact ⟨rfl, lines_unlines_of_no_newline hne fun l hl => (hls l hl).1⟩

end Documents

namespace Editor

variable {editor : Editor} {tree tree' : Tree} {item item' : WorkItem} {index : Nat}

theorem find_eq_ok : editor.find tree item = .ok (s, index) ↔
    editor.store.read tree item.path = .ok s ∧ locate (lines s) item = some index := by
  unfold find
  cases hread : editor.store.read tree item.path with
  | error failure => simp [bind, Except.bind]
  | ok text =>
    cases hlocate : locate (lines text) item with
    | none =>
      simp only [bind, Except.bind, hlocate, throw, throwThe, MonadExceptOf.throw, reduceCtorEq,
        Except.ok.injEq, false_iff, not_and]
      rintro rfl
      simp [hlocate]
    | some found =>
      simp only [bind, Except.bind, hlocate, pure, Except.pure, Except.ok.injEq, Prod.mk.injEq]
      constructor
      · rintro ⟨rfl, rfl⟩
        exact ⟨rfl, hlocate⟩
      · rintro ⟨rfl, hfound⟩
        exact ⟨rfl, Option.some.inj (hlocate.symm.trans hfound)⟩

/-- Where an item is found, its document has the item's line among others. -/
theorem find_split (h : editor.find tree item = .ok (s, index)) :
    ∃ before line after, lines s = before ++ line :: after ∧ before.length = index := by
  obtain ⟨line, hget, -⟩ := locate_eq_some (find_eq_ok.1 h).2
  obtain ⟨before, after, hsplit⟩ := exists_split hget
  exact ⟨before, line, after, hsplit⟩

/-- Where an item is found, an edit succeeds exactly if its document is written. -/
theorem update_eq_ok (hfind : editor.find tree item = .ok (s, index)) :
    editor.update tree item u = (item', .ok tree') ↔
      editor.store.write tree item.path (editText editor.indentUnit u s index) = .ok tree' ∧
        item' = { item with
          line := index
          text := u.content (ListLine.ofText ((lines s).getD index "")).content
          tags := findTags (u.content (ListLine.ofText ((lines s).getD index "")).content) } := by
  unfold update
  rw [hfind]
  cases hwrite : editor.store.write tree item.path (editText editor.indentUnit u s index) with
  | error failure => simp [hwrite]
  | ok written =>
    simp only [hwrite, Prod.mk.injEq, Except.ok.injEq]
    constructor
    · rintro ⟨rfl, rfl⟩
      exact ⟨rfl, rfl⟩
    · rintro ⟨rfl, rfl⟩
      exact ⟨rfl, rfl⟩

/-- An edit that succeeds has written the item's document. -/
theorem exists_write_of_update (h : editor.update tree item u = (item', .ok tree')) :
    ∃ text, editor.store.write tree item.path text = .ok tree' := by
  cases hfind : editor.find tree item with
  | error failure =>
    unfold update at h
    rw [hfind] at h
    have hresult := (Prod.mk.inj h).2
    cases hresult
  | ok found =>
    obtain ⟨s, index⟩ := found
    have hwrite := ((update_eq_ok hfind).1 h).1
    exact ⟨editText editor.indentUnit u s index, hwrite⟩

end Editor

end BulletScript.Tasks
