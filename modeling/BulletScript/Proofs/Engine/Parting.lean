import BulletScript.Proofs.Engine.Footing
import BulletScript.Proofs.Outline.Line
import BulletScript.Proofs.Tasks.Edit

/-! Lines parted into what stands in front of their content and the content. The decoration of a line
is found from the length of its content, as if the content ended the line: where blanks follow the
content of a line that is no list line, the decoration takes in part of the content, which is then
written twice. -/
namespace BulletScript.Outline

open Text

variable {line : String}

/-- A line that is neither a task nor a list item is its indentation and its trimmed text. -/
theorem ofText_of_no_bullet (h : (ListLine.ofText line).bullet = none) :
    ListLine.ofText line = ⟨leadingBlanks line, none, none, trim line⟩ := by
  cases htask : taskLine? line with
  | some task =>
    have hbullet := bullet_of_task (Option.isSome_iff_exists.2 ⟨task, htask⟩)
    rw [h] at hbullet
    cases hbullet
  | none =>
    cases hitem : itemLine? line with
    | none => rw [ListLine.ofText, htask, hitem]; rfl
    | some item =>
      have hbullet : item.bullet.isSome := by
        obtain ⟨_, _, hitem⟩ := Option.bind_eq_some_iff.1 hitem
        obtain ⟨_, _, hitem⟩ := Option.bind_eq_some_iff.1 hitem
        cases hitem
        rfl
      rw [ListLine.ofText, htask, hitem, Option.none_or, Option.getD_some] at h
      rw [h] at hbullet
      cases hbullet

end BulletScript.Outline

namespace BulletScript.Tasks

open Text Outline Files

variable {line s : String} {u : Update} {before after : List String}

/-- What stands in front of the content of a line: the decoration of a list line, and the indentation
of any other. -/
def opening (line : String) : String :=
  if (ListLine.ofText line).bullet.isSome then decoration line else leadingBlanks line

/-- A line with nothing behind its content: a list line, or one that is blank or has no blanks at its
end. -/
def Tidy (line : String) : Prop :=
  (ListLine.ofText line).bullet.isSome ∨ isBlankText line ∨ trimRight line = line

/-- The characters of a text that are not blank. -/
def visible (s : String) : List Char := s.toList.filter (!isBlank ·)

@[simp] theorem visible_append (s t : String) : visible (s ++ t) = visible s ++ visible t := by
  simp [visible]

theorem visible_eq_nil_iff : visible s = [] ↔ isBlankText s := by
  simp [visible, isBlankText, List.filter_eq_nil_iff]

theorem opening_of_bullet (h : (ListLine.ofText line).bullet.isSome) : opening line = decoration line :=
  if_pos h

theorem opening_of_no_bullet (h : (ListLine.ofText line).bullet = none) :
    opening line = leadingBlanks line :=
  if_neg (by simp [h])

/-- A line is what stands in front of its content, the content, and blanks. -/
theorem exists_parted (hline : '\n' ∉ line.toList) :
    ∃ blanks, isBlankText blanks ∧ opening line ++ (ListLine.ofText line).content ++ blanks = line := by
  cases hbullet : (ListLine.ofText line).bullet with
  | some b =>
    have hlist : (ListLine.ofText line).bullet.isSome := by rw [hbullet]; rfl
    refine ⟨"", rfl, ?_⟩
    rw [opening_of_bullet hlist, String.append_empty]
    exact decoration_append_content hlist hline
  | none =>
    obtain ⟨blanks, hback, hblank⟩ := exists_eq_trimRightChars_append (trimLeftChars line.toList)
    refine ⟨.ofList blanks, by simpa [isBlankText] using hblank, ?_⟩
    rw [opening_of_no_bullet hbullet, ofText_of_no_bullet hbullet]
    apply String.toList_injective
    simp only [leadingBlanks, trim, trimChars, String.toList_append, String.toList_ofList]
    rw [List.append_assoc, ← hback, trimLeftChars, List.takeWhile_append_dropWhile]

/-- Nothing is behind the content of a tidy line. -/
theorem Tidy.parted (h : Tidy line) (hline : '\n' ∉ line.toList) :
    opening line ++ (ListLine.ofText line).content = line := by
  obtain ⟨blanks, hblanks, hparted⟩ := exists_parted hline
  suffices hnil : blanks = "" by rwa [hnil, String.append_empty] at hparted
  cases hbullet : (ListLine.ofText line).bullet with
  | some b =>
    have hlist : (ListLine.ofText line).bullet.isSome := by rw [hbullet]; rfl
    rw [opening_of_bullet hlist, decoration_append_content hlist hline] at hparted
    exact String.append_eq_left_iff.1 hparted
  | none =>
    rcases h with hlist | hblank | hright
    · rw [hbullet] at hlist
      cases hlist
    · have hleading : leadingBlanks line = line := by
        rw [leadingBlanks, List.takeWhile_eq_self_iff.2 (List.all_eq_true.1 hblank),
          String.ofList_toList]
      rw [opening_of_no_bullet hbullet, hleading, String.append_assoc] at hparted
      exact (String.append_eq_empty_iff.1 (String.append_eq_left_iff.1 hparted)).2
    · rw [← hparted, trimRight, String.toList_append,
        trimRightChars_append_blanks (List.all_eq_true.1 hblanks)] at hright
      obtain ⟨more, hmore, -⟩ := exists_eq_trimRightChars_append
        (opening line ++ (ListLine.ofText line).content).toList
      have hlength := congrArg List.length hmore
      have hlength' := congrArg String.length hright
      simp only [String.length_append, String.length_ofList, List.length_append,
        String.length_toList] at hlength hlength'
      exact String.length_eq_zero_iff.1 (by omega)

/-- The decoration of a tidy line is what stands in front of its content. -/
theorem Tidy.decoration_eq (h : Tidy line) (hline : '\n' ∉ line.toList) :
    decoration line = opening line := by
  have hparted := congrArg String.toList (h.parted hline)
  apply String.toList_injective
  rw [decoration, dropEnd, String.toList_ofList, ← hparted, String.toList_append, List.length_append,
    String.length_toList, String.length_toList, Nat.add_sub_cancel, ← String.length_toList,
    List.take_left]

/-- A line with nothing but blanks in its decoration is tidy: otherwise the decoration takes in the
first character of the content. -/
theorem tidy_of_blank_decoration (hline : '\n' ∉ line.toList) (h : isBlankText (decoration line)) :
    Tidy line := by
  obtain ⟨blanks, hblanks, hparted⟩ := exists_parted hline
  cases hbullet : (ListLine.ofText line).bullet with
  | some b => exact .inl (by rw [hbullet]; rfl)
  | none =>
    have hcontent : (ListLine.ofText line).content = trim line := by rw [ofText_of_no_bullet hbullet]
    have hleading := leadingBlanks_blank line
    rw [← opening_of_no_bullet hbullet] at hleading
    obtain ⟨hfirst, hlast⟩ := trimChars_eq_self_iff.1 (trimChars_trimChars line.toList)
    rw [← String.toList_ofList (l := trimChars line.toList), ← trim, ← hcontent] at hfirst hlast
    cases hchars : (ListLine.ofText line).content.toList with
    | nil =>
      -- a line without a content is blank
      refine .inr (.inl ?_)
      rw [String.toList_eq_nil_iff.1 hchars, String.append_empty] at hparted
      rw [← visible_eq_nil_iff, ← hparted, visible_append, List.append_eq_nil_iff, visible_eq_nil_iff,
        visible_eq_nil_iff]
      exact ⟨List.all_eq_true.2 hleading, hblanks⟩
    | cons c more =>
      cases hback : blanks.toList with
      | nil =>
        refine .inr (.inr ?_)
        rw [String.toList_eq_nil_iff.1 hback, String.append_empty] at hparted
        have hend : ∀ d ∈ line.toList.getLast?, isBlank d = false := by
          intro d hd
          refine hlast d ?_
          rw [← hparted, String.toList_append, List.getLast?_append] at hd
          rw [hchars] at hd ⊢
          simpa using hd
        have hcut := trimRightChars_append hend []
        rw [trimRight, ← List.append_nil line.toList, hcut]
        simp [trimRightChars]
      | cons d rest =>
        -- as many characters as there are blanks are taken from the content
        have hc : isBlank c = false := hfirst c (by simp [hchars])
        have hmem : c ∈ (decoration line).toList := by
          have hwhole := congrArg String.toList hparted
          simp only [String.toList_append, hchars, hback] at hwhole
          rw [decoration, dropEnd, String.toList_ofList, ← String.length_toList, hchars, ← hwhole]
          simp only [List.length_append, List.length_cons]
          rw [show (opening line).toList.length + (more.length + 1) + (rest.length + 1) -
            (more.length + 1) = (opening line).toList.length + (rest.length + 1) by omega,
            List.append_assoc, List.take_length_add_append]
          simp
        rw [List.all_eq_true.1 h c hmem] at hc
        cases hc

/-- A line is written with no more and no fewer characters than it has, blanks apart, exactly if it is
tidy. -/
theorem visible_decoration_iff (hline : '\n' ∉ line.toList) :
    visible (decoration line ++ (ListLine.ofText line).content) = visible line ↔ Tidy line := by
  constructor
  · intro h
    cases hbullet : (ListLine.ofText line).bullet with
    | some b => exact .inl (by rw [hbullet]; rfl)
    | none =>
      obtain ⟨blanks, hblanks, hparted⟩ := exists_parted hline
      have hleading : isBlankText (opening line) := by
        rw [opening_of_no_bullet hbullet]
        exact List.all_eq_true.2 (leadingBlanks_blank line)
      refine tidy_of_blank_decoration hline (visible_eq_nil_iff.1 ?_)
      rw [← visible_eq_nil_iff] at hblanks hleading
      have hcontent := congrArg visible hparted
      rw [visible_append, visible_append, hblanks, hleading, List.append_nil, List.nil_append]
        at hcontent
      rw [visible_append, ← hcontent] at h
      exact List.append_left_eq_self.1 h
  · intro h
    rw [h.decoration_eq hline, h.parted hline]

/-- A line is its decoration and its content, blanks at its end apart, exactly if it is tidy. -/
theorem decoration_parted_iff (hline : '\n' ∉ line.toList) :
    (∃ blanks, isBlankText blanks ∧
      decoration line ++ (ListLine.ofText line).content ++ blanks = line) ↔ Tidy line := by
  constructor
  · rintro ⟨blanks, hblanks, hparted⟩
    have hvisible := congrArg visible hparted
    rw [visible_append, visible_eq_nil_iff.2 hblanks, List.append_nil] at hvisible
    exact (visible_decoration_iff hline).1 hvisible
  · intro h
    exact ⟨"", rfl, by rw [String.append_empty, h.decoration_eq hline, h.parted hline]⟩

theorem decoration_eq_opening_iff (hline : '\n' ∉ line.toList) :
    decoration line = opening line ↔ Tidy line := by
  constructor
  · intro h
    refine (decoration_parted_iff hline).1 ?_
    rw [h]
    exact exists_parted hline
  · exact fun h => h.decoration_eq hline

theorem visible_unlines (ls : List String) : visible (unlines ls) = ls.flatMap visible := by
  induction ls with
  | nil => rfl
  | cons l rest ih =>
    by_cases hrest : rest = []
    · subst hrest
      simp [unlines, join, joinChars]
    · have hnewline : visible "\n" = [] := by decide
      rw [unlines_cons l hrest, visible_append, visible_append, hnewline, ih, List.flatMap_cons,
        List.append_nil]

theorem visible_joinLines (ls : List String) (trailing : Bool) :
    visible (joinLines ls trailing) = ls.flatMap visible := by
  have hnewline : visible "\n" = [] := by decide
  rw [joinLines]
  split <;> simp [visible_unlines, hnewline]

/-- An edit that asks for nothing leaves a document with all its characters, and none more, blanks
apart, exactly if the item's line is tidy. -/
theorem visible_editText_iff (unit : String) (hs : lines s = before ++ line :: after) :
    visible (editText unit {} s before.length) = visible s ↔ Tidy line := by
  have hline : '\n' ∉ line.toList := no_newline_of_mem_lines (by rw [hs]; simp)
  have hchildren (base : String) (old : List String) :
      Update.children {} unit base old = old := by
    simp [Update.children, Update.arrange, kept_of_no_offsets]
  have hcontent (old : String) : Update.content {} old = old := by simp [Update.content]
  have hold := visible_unlines (lines s)
  rw [unlines_lines, hs] at hold
  rw [editText, visible_joinLines, hs, editLines_append, hchildren, hcontent, hold,
    ← visible_decoration_iff hline, List.append_assoc, List.cons_append, List.take_append_drop]
  simp only [List.flatMap_append, List.flatMap_cons, List.append_cancel_left_eq,
    List.append_cancel_right_eq]

end BulletScript.Tasks

namespace BulletScript.Engine

open Script Tasks Outline ChildText Act

/-- A line without a mark for the cursor stays the first of the block that it opens. -/
theorem lines_block {first : String} (hnewline : '\n' ∉ first.toList)
    (hunmarked : Text.cut? Template.cursorMarker first = none) (below : List String) :
    ∃ more, Text.lines (dropMarkers (Template.stripCursor (Text.unlines (first :: below))).1) =
      first :: more := by
  have hnone : Text.cutChars Template.cursorMarker.toList first.toList = none :=
    Option.map_eq_none_iff.1 hunmarked
  have hmarker : '\n' ∉ Template.cursorMarker.toList := by decide
  by_cases hbelow : below = []
  · subst hbelow
    have hone : Text.unlines [first] = first := by simp [Text.unlines, Text.join, Text.joinChars]
    rw [hone, Template.stripCursor, hunmarked, dropMarkers, Text.replace_of_cut?_none _ hunmarked,
      Text.lines_of_no_newline hnewline]
    exact ⟨[], rfl⟩
  · have hdrop (rest : String) : dropMarkers (first ++ "\n" ++ rest) =
        first ++ "\n" ++ dropMarkers rest := by
      apply String.toList_injective
      have hreplace := Text.replaceChars_append_cons hmarker hnone [] rest.toList
      simpa [dropMarkers, Text.replace] using hreplace
    have hstrip : ∃ rest, (Template.stripCursor (Text.unlines (first :: below))).1 =
        first ++ "\n" ++ rest := by
      have hcut := Text.cutChars_append_cons hmarker hnone (Text.unlines below).toList
      have hchars : (first ++ "\n" ++ Text.unlines below).toList =
          first.toList ++ '\n' :: (Text.unlines below).toList := by simp
      rw [Text.unlines_cons first hbelow, Template.stripCursor, Text.cut?, hchars, hcut]
      cases Text.cutChars Template.cursorMarker.toList (Text.unlines below).toList with
      | none => exact ⟨Text.unlines below, rfl⟩
      | some found =>
        refine ⟨.ofList (found.1 ++ found.2), ?_⟩
        apply String.toList_injective
        simp
    obtain ⟨rest, hrest⟩ := hstrip
    rw [hrest, hdrop, Text.lines_append, Text.lines_of_no_newline hnewline]
    exact ⟨_, rfl⟩

/-- A block takes the place of the cursor's line, and its first line becomes the line of the run. -/
theorem run_writeBlock {engine : Runner} {b : Buffer} {line first : String} {s : Scene}
    {entries : List (Int × String)} (hline : b.line s.cursor.line = .ok line)
    (hnewline : '\n' ∉ first.toList) (hunmarked : Text.cut? Template.cursorMarker first = none) :
    ∃ s' b', (writeBlock engine b s.cursor line first entries).run s = (.ok (), s') ∧
      s'.buffer = some b' ∧ b'.line s.cursor.line = .ok first ∧ s'.context.line = first := by
  obtain ⟨above, _, behind, hb, hindex⟩ := (Buffer.hasLine_of_line_ok hline).exists_append
  obtain ⟨below, position, heq⟩ : ∃ below position,
      writeBlock engine b s.cursor line first entries = (do
        let new := Text.lines
          (dropMarkers (Template.stripCursor (Text.unlines (first :: below))).1)
        setBuffer (b.replaceLines s.cursor.line s.cursor.line new)
        moveCursor position
        setLine (new.headD "")) := ⟨_, _, rfl⟩
  obtain ⟨more, hnew⟩ := lines_block hnewline hunmarked below
  obtain ⟨written, hwritten⟩ :
      ∃ written, b.replaceLines s.cursor.line s.cursor.line (first :: more) = written := ⟨_, rfl⟩
  have hlines : written.lines = above ++ first :: (more ++ behind) := by
    rw [← hwritten, hindex, Buffer.replaceLines_append hb, List.append_assoc, List.cons_append]
  have hsturdy : OnEdit Sturdy { s with buffer := some written } := by
    intro b' hb'
    obtain rfl := Option.some.inj hb'
    intro hnil
    simp [hlines] at hnil
  obtain ⟨moved, hmove, hsame⟩ := run_moveCursor hsturdy position
  obtain ⟨b', rfl, hb'⟩ := Option.map_eq_some_iff.1 hsame
  have hlines' : b'.lines = written.lines := congrArg Prod.fst hb'
  let moved : Scene :=
    { s with context := { s.context with cursor := some position }, buffer := some b' }
  refine ⟨((setLine first).run moved).2, b', ?_, rfl, ?_, rfl⟩
  · simp only [heq, hnew, run_bind, setBuffer, run_modify, hwritten, hmove, List.headD_cons]
    rfl
  · rw [hindex, Buffer.line, hlines', hlines]
    simp

/-- What a transform in a buffer puts in front of a line goes between what stands in front of the
line's content and the content exactly if the line is tidy. -/
theorem run_prepend {engine : Runner} {b : Buffer} {line template text : String} {s : Scene}
    {children : List ChildTemplate} {forest : List ChildText} (hline : '\n' ∉ line.toList)
    (hitem : s.item = none) (hbuffer : s.buffer = some b) (hcursor : b.line s.cursor.line = .ok line)
    (htemplate : template ≠ "") (htext : Template.interpolate template s.context.vars = .ok text)
    (hforest : ofTemplates s.context.vars children = .ok forest) :
    let first := editedLine .prepend line (Text.trim text)
    (first = opening line ++ Text.trim text ++ " " ++ (ListLine.ofText line).content ↔ Tidy line) ∧
      ('\n' ∉ first.toList → Text.cut? Template.cursorMarker first = none →
        ∃ s' b', (transform engine (some template) .prepend children).run s = (.ok (), s') ∧
          s'.buffer = some b' ∧ b'.line s.cursor.line = .ok first ∧ s'.context.line = first) := by
  intro first
  constructor
  · rw [← decoration_eq_opening_iff hline]
    simp only [first, editedLine, String.append_left_inj]
  · intro hnewline hunmarked
    have hrun : (transform engine (some template) .prepend children).run s =
        (writeBlock engine b s.cursor line first (entriesOf 0 forest)).run s := by
      rw [← run_transformBuffer .prepend htemplate htext hforest hcursor]
      simp [transform, run_bind, hitem, hbuffer]
    rw [hrun]
    exact run_writeBlock hcursor hnewline hunmarked

/-- A line without a newline is what stands in front of its content, the content, and blanks. Its
decoration and its content make up the line, an edit that asks for nothing keeps the characters of its
document, and a text is put between what stands in front of the content and the content, exactly if the
line is a list line, or blank, or has no blanks at its end. -/
theorem parted_line_iff {line : String} (hline : '\n' ∉ line.toList) :
    let content := (ListLine.ofText line).content
    (∃ blanks, Text.isBlankText blanks ∧ opening line ++ content ++ blanks = line) ∧
      ((∃ blanks, Text.isBlankText blanks ∧ decoration line ++ content ++ blanks = line) ↔
        Tidy line) ∧
      (∀ (editor : Editor) tree item s index item' tree', editor.find tree item = .ok (s, index) →
        (Text.lines s).getD index "" = line → editor.update tree item {} = (item', .ok tree') →
        ∃ text, (∀ missing, editor.store.content tree' item.path missing = .ok (.text text)) ∧
          (visible text = visible s ↔ Tidy line)) ∧
      ∀ (engine : Runner) (s : Scene) b template children text forest, s.item = none →
        s.buffer = some b → b.line s.cursor.line = .ok line → template ≠ "" →
        Template.interpolate template s.context.vars = .ok text →
        ofTemplates s.context.vars children = .ok forest →
        let first := editedLine .prepend line (Text.trim text)
        (first = opening line ++ Text.trim text ++ " " ++ content ↔ Tidy line) ∧
          ('\n' ∉ first.toList → Text.cut? Template.cursorMarker first = none →
            ∃ s' b', (transform engine (some template) .prepend children).run s = (.ok (), s') ∧
              s'.buffer = some b' ∧ b'.line s.cursor.line = .ok first ∧
              s'.context.line = first) := by
  refine ⟨exists_parted hline, decoration_parted_iff hline, ?_, ?_⟩
  · rintro editor tree item s index item' tree' hfind rfl hupdate
    obtain ⟨before, line, after, hs, rfl⟩ := Editor.find_split hfind
    have hwrite := ((Editor.update_eq_ok hfind).1 hupdate).1
    refine ⟨_, Documents.Store.content_write hwrite, ?_⟩
    rw [show (Text.lines s).getD before.length "" = line by rw [hs, getD_length_append]]
    exact visible_editText_iff editor.indentUnit hs
  · intro engine s b template children text forest hitem hbuffer hcursor htemplate htext hforest
    exact run_prepend hline hitem hbuffer hcursor htemplate htext hforest

/-- A buffer of one line. -/
def lineScene (line : String) : Scene where
  world := goneItem.world
  buffer := some { lines := [line] }

/-- The blank at the end belongs to the content of a task. -/
theorem parted_line_iff_task :
    let line := "  - [x] T "
    '\n' ∉ line.toList ∧ Tidy line ∧ opening line = "  - [x] " ∧
      (∃ blanks, Text.isBlankText blanks ∧
        decoration line ++ (ListLine.ofText line).content ++ blanks = line) ∧
      ∃ s' b', (transform goneEngine (some "X") .prepend []).run (lineScene line) = (.ok (), s') ∧
        s'.buffer = some b' ∧ b'.line 0 = .ok "  - [x] X T " := by
  have hline : '\n' ∉ "  - [x] T ".toList := by decide
  have htidy : Tidy "  - [x] T " := .inl (by decide +kernel)
  have htext : Template.interpolate "X" (lineScene "  - [x] T ").context.vars = .ok "X" :=
    eq_ok_of_toOption (by decide +kernel)
  have hfirst : editedLine .prepend "  - [x] T " (Text.trim "X") = "  - [x] X T " := by
    decide +kernel
  obtain ⟨-, hparted, -, hprepend⟩ := parted_line_iff hline
  obtain ⟨-, hrun⟩ := hprepend goneEngine (lineScene "  - [x] T ") _ "X" [] "X" [] rfl rfl rfl
    (by decide) htext rfl
  rw [hfirst] at hrun
  obtain ⟨s', b', hs', hb', hwritten, -⟩ := hrun (by decide) (by decide +kernel)
  exact ⟨hline, htidy, by decide +kernel, hparted.2 htidy, s', b', hs', hb', hwritten⟩

/-- A plain line with a blank at its end: its first letter is taken for decoration, and is written
again with the content. -/
theorem plain_line_written_twice :
    let item : WorkItem :=
      { text := "Hello", path := "a.md", line := 0, status := " ", tags := [], indent := "" }
    let editor : Editor := { store := {}, indentUnit := "  " }
    let tree : Files.Tree := { root := "/", files := [(["a.md"], .text "Hello \n")] }
    ListLine.ofText "Hello " = ⟨"", none, none, "Hello"⟩ ∧ decoration "Hello " = "H" ∧
      ((editor.update tree item {}).2.toOption.bind fun tree =>
        (editor.store.read tree "a.md").toOption) = some "HHello\n" ∧
      ((transform goneEngine (some "X") .prepend []).run (lineScene "Hello ")).2.buffer.map
        (·.lines) = some ["HX Hello"] := by
  decide +kernel

end BulletScript.Engine
