import BulletScript.Proofs.Engine.Footing
import Mathlib.Data.List.Infix

/-! Where a transform in a buffer leaves the cursor. It takes out the first mark of its block, notes
where that stood, and then takes out the others; a mark whose two parts stood on both sides of the
first one is taken out with them, and the place that was noted is no longer the right one. -/
namespace BulletScript

/-- A cursor is put where it is asked for if its line is long enough. -/
theorem Buffer.setCursor_of_le {b : Buffer} {line column : Nat} {text : String}
    (hline : b.lines[line]? = some text) (hcolumn : column ≤ text.length) :
    b.setCursor ⟨line, column⟩ = .ok { b with cursor := ⟨line, column⟩ } := by
  obtain ⟨hlt, -⟩ := List.getElem?_eq_some_iff.1 hline
  have hkept : min (max (line : Int) 0) ((b.lines.length : Int) - 1) = line := by omega
  have hkept' : min (max (column : Int) 0) text.length = column := by omega
  simp only [setCursor, hkept, Int.toNat_natCast, hline, hkept']

namespace Engine

open Script Tasks Act ChildText

/-- The text of a transform's own template, if it has one. -/
def ownText (vars : Record) (template : String) : Result (Option String) :=
  if template = "" then return none
  else do return some (Text.trim (← Template.interpolate template vars))

/-- The first line that these texts put in place of another, and the lines below it, each with its
depth. Without a text of its own the first child takes the place of the line. -/
def writtenLines (mode : TransformMode) (line : String) :
    Option String → List ChildText → String × List (Int × String)
  | some text, forest => (editedLine mode line text, entriesOf 0 forest)
  | none, [] => (line, [])
  | none, ⟨text, _, below⟩ :: rest =>
    (Text.leadingBlanks line ++ "- " ++ text, entriesOf 1 below ++ entriesOf 0 rest)

/-- The block of these lines, with the marks for the cursor in it. -/
def markedBlock (indentUnit line : String) (written : String × List (Int × String)) : String :=
  Text.unlines (written.1 :: written.2.map fun (depth, text) =>
    Text.leadingBlanks line ++ Text.repeated indentUnit depth.toNat ++ "- " ++ text)

/-- Where the first mark of a block stands, with the number of the block's first line: the newlines
in front of it are counted, and the characters after the last of these. In a block without a mark it
is the end of the last line. -/
def markedPlace (line : Nat) (block : String) : Cursor :=
  match Text.cut? Template.cursorMarker block with
  | some (before, _) =>
    ⟨line + before.toList.count '\n', (before.toList.rtakeWhile (· ≠ '\n')).length⟩
  | none =>
    let new := Text.lines block
    ⟨line + (new.length - 1 : Nat), (new.getLast?.getD "").length⟩

/-- A block stands, without marks, between the lines that were around another, the cursor stands
where its first mark was, and its first line is the line of the run. -/
structure Placed (before after : List String) (block : String) (s : Scene) : Prop where
  buffer : ∃ b, s.buffer = some b ∧ b.lines = before ++ Text.lines (dropMarkers block) ++ after ∧
    b.cursor = markedPlace before.length block
  cursor : s.context.cursor = some (markedPlace before.length block)
  line : (Text.lines (dropMarkers block)).head? = some s.context.line
  named : s.context.vars.get? (.str "line") = some (.str s.context.line)

/-- The first mark of a block stands between the two parts of another one. -/
def Nested (block : String) : Prop :=
  ∃ before after, Text.cut? Template.cursorMarker block = some (before, after) ∧
    Text.Straddles Template.cursorMarker.toList before.toList after.toList

/-- What a transform leaves of a block: the first mark is taken out before the others. -/
def unmarked (block : String) : String := dropMarkers (Template.stripCursor block).1

/-- What it puts the cursor behind: as many characters as stood in front of the first mark. -/
def aheadOfCursor (block : String) : String :=
  match (Template.stripCursor block).2 with
  | some offset => Text.take offset (unmarked block)
  | none => unmarked block

section Marks

variable {block : String}

theorem cursorMarker_ne_nil : Template.cursorMarker.toList ≠ [] := by decide +kernel

theorem unbordered_cursorMarker : Text.Unbordered Template.cursorMarker.toList := by
  have hparts : ∀ w ∈ Template.cursorMarker.toList.inits, w ≠ [] →
      w.isSuffixOf Template.cursorMarker.toList → w = Template.cursorMarker.toList := by
    decide +kernel
  intro w hw hstart hend
  exact hparts w ((List.mem_inits _ _).2 hstart) hw (List.isSuffixOf_iff_suffix.2 hend)

theorem unmarked_of_none (h : Text.cut? Template.cursorMarker block = none) :
    unmarked block = block ∧ dropMarkers block = block ∧ aheadOfCursor block = block := by
  have hdrop : dropMarkers block = block := Text.replace_of_cut?_none _ h
  simp [unmarked, aheadOfCursor, Template.stripCursor, h, hdrop]

theorem cutChars_of_cut? {before after : String}
    (h : Text.cut? Template.cursorMarker block = some (before, after)) :
    Text.cutChars Template.cursorMarker.toList block.toList =
      some (before.toList, after.toList) := by
  obtain ⟨⟨front, back⟩, hcut, heq⟩ := Option.map_eq_some_iff.1 h
  cases heq
  simpa using hcut

/-- The two ways to take the marks out of a block are the same exactly if none is nested. -/
theorem unmarked_eq_iff : unmarked block = dropMarkers block ↔ ¬ Nested block := by
  cases h : Text.cut? Template.cursorMarker block with
  | none =>
    obtain ⟨hunmarked, hdrop, -⟩ := unmarked_of_none h
    simp [hunmarked, hdrop, Nested, h]
  | some found =>
    obtain ⟨before, after⟩ := found
    have hjoined := unbordered_cursorMarker.replaceChars_joined_iff cursorMarker_ne_nil
      (cutChars_of_cut? h)
    have hnested : Nested block ↔
        Text.Straddles Template.cursorMarker.toList before.toList after.toList := by
      simp [Nested, h]
    rw [hnested, ← hjoined]
    simp [unmarked, dropMarkers, Template.stripCursor, h, Text.replace, ← String.toList_inj]

/-- What the cursor is put behind is a part at the start of what is left. -/
theorem exists_unmarked_eq (block : String) :
    ∃ rest, unmarked block = aheadOfCursor block ++ rest := by
  unfold aheadOfCursor
  split
  · rename_i offset _
    refine ⟨Text.drop offset (unmarked block), ?_⟩
    apply String.toList_injective
    simp [Text.take, Text.drop]
  · exact ⟨"", by simp⟩

theorem aheadOfCursor_of_not_nested {before after : String} (hnested : ¬ Nested block)
    (h : Text.cut? Template.cursorMarker block = some (before, after)) :
    aheadOfCursor block = before := by
  have hcut := cutChars_of_cut? h
  have hdrop : (dropMarkers block).toList = before.toList ++
      Text.replaceChars Template.cursorMarker.toList [] after.toList := by
    rw [dropMarkers, Text.replace, String.toList_ofList,
      Text.replaceChars_of_cutChars_some cursorMarker_ne_nil hcut]
    simp
  apply String.toList_injective
  simp [aheadOfCursor, Template.stripCursor, h, unmarked_eq_iff.2 hnested, Text.take, hdrop,
    ← String.length_toList]

/-- A position below a line by the newlines of a text and the characters after the last of these. -/
theorem positionAfter_eq (line : Int) (text : String) : positionAfter line text =
    ⟨line + text.toList.count '\n', (text.toList.rtakeWhile (· ≠ '\n')).length⟩ := by
  obtain ⟨front, tail, -, -, hlines, -, -⟩ := Text.exists_lines_append text ""
  rw [positionAfter, Text.length_lines, Text.rtakeWhile_of_lines hlines, hlines]
  simp [String.length_toList]

/-- Where no mark is nested the cursor is put where the first one stood. -/
theorem positionAfter_aheadOfCursor (line : Nat) (hnested : ¬ Nested block) :
    positionAfter line (aheadOfCursor block) = markedPlace line block := by
  cases h : Text.cut? Template.cursorMarker block with
  | none =>
    rw [(unmarked_of_none h).2.2, markedPlace, h]
    rfl
  | some found =>
    rw [aheadOfCursor_of_not_nested hnested h, positionAfter_eq, markedPlace, h]

end Marks

section Run

variable {engine : Runner} {s : Scene} {b : Buffer} {before after : List String} {line : String}

theorem run_bufferEntries_texts {template : String} {children : List ChildTemplate}
    {own : Option String} {forest : List ChildText} (line : String) (mode : TransformMode)
    (hown : ownText s.context.vars template = .ok own)
    (hforest : ofTemplates s.context.vars children = .ok forest) :
    (bufferEntries line template mode children).run s =
      (.ok (writtenLines mode line own forest), s) := by
  unfold ownText at hown
  by_cases htemplate : template = ""
  · rw [if_pos htemplate] at hown
    cases hown
    cases children with
    | nil =>
      obtain rfl : [] = forest := by simpa [ofTemplates, pure, Except.pure] using hforest
      simp [bufferEntries, htemplate, writtenLines]
    | cons head rest =>
      obtain ⟨first, others, hfirst, hothers, rfl⟩ := ofTemplates_cons_ok hforest
      obtain ⟨template', indent, below⟩ := head
      obtain ⟨text, texts, htext, hbelow, rfl⟩ := ofTemplate_ok hfirst
      simp only [bufferEntries, htemplate, ne_eq, not_true_eq_false, if_false, Act.run_bind,
        run_render, htext, run_bufferChildren 1 s hbelow, run_bufferChildren 0 s hothers,
        Act.run_pure, writtenLines]
  · rw [if_neg htemplate] at hown
    cases htext : Template.interpolate template s.context.vars with
    | error f => simp [htext, bind, Except.bind] at hown
    | ok text =>
      simp only [htext, bind, Except.bind, pure, Except.pure, Except.ok.injEq] at hown
      subst hown
      exact run_bufferEntries line mode htemplate htext hforest

/-- The cursor is put on a line that was written, and no further than its end. -/
theorem run_moveCursor_written {text pre rest : String} (htext : text = pre ++ rest)
    (hbuffer : s.buffer = some b) (hb : b.lines = before ++ Text.lines text ++ after) :
    (moveCursor (positionAfter before.length pre)).run s =
      (.ok (), { s with
        buffer := some { b with cursor := positionAfter before.length pre }
        context := { s.context with cursor := some (positionAfter before.length pre) } }) := by
  obtain ⟨front, tail, first, others, hpre, -, hboth⟩ := Text.exists_lines_append pre rest
  have hposition : positionAfter before.length pre =
      ⟨(before.length + front.length : Nat), tail.length⟩ := by
    simp [positionAfter, hpre]
  have hline : b.lines[before.length + front.length]? = some (tail ++ first) := by
    simp [hb, htext, hboth]
  have hcolumn : tail.length ≤ (tail ++ first).length := by simp
  have hset := Buffer.setCursor_of_le hline hcolumn
  simp only [moveCursor, Act.run_bind, run_modifyContext, run_get, hbuffer, run_ofResult,
    run_modify, hposition, hset]

/-- A scene after a block has taken the place of a line of its buffer. -/
def writtenScene (s : Scene) (b : Buffer) (before after : List String) (block : String) : Scene :=
  let position := positionAfter before.length (aheadOfCursor block)
  let first := (Text.lines (unmarked block)).headD ""
  { s with
    buffer := some
      { b with lines := before ++ Text.lines (unmarked block) ++ after, cursor := position }
    context :=
      { s.context with
        cursor := some position, line := first, vars := s.context.vars.set "line" (.str first) } }

theorem run_writeBlock_eq (first : String) (entries : List (Int × String))
    (hb : b.lines = before ++ line :: after) {cursor : Cursor}
    (hcursor : cursor.line = before.length) {block : String}
    (hblock : markedBlock engine.settings.indentUnit line (first, entries) = block) :
    (writeBlock engine b cursor line first entries).run s =
      (.ok (), writtenScene s b before after block) := by
  have hacts : writeBlock engine b cursor line first entries = (do
      setBuffer (b.replaceLines cursor.line cursor.line (Text.lines (unmarked block)))
      moveCursor (positionAfter cursor.line (aheadOfCursor block))
      setLine ((Text.lines (unmarked block)).headD "")) := by
    rw [← hblock]
    rfl
  have hlines := Buffer.replaceLines_append hb (Text.lines (unmarked block))
  have hreplace : b.replaceLines before.length before.length (Text.lines (unmarked block)) =
      { b with lines := before ++ Text.lines (unmarked block) ++ after } :=
    congrArg (fun lines => { b with lines }) hlines
  obtain ⟨rest, hrest⟩ := exists_unmarked_eq block
  have hmove := run_moveCursor_written (s := { s with
    buffer := some { b with lines := before ++ Text.lines (unmarked block) ++ after } })
    hrest rfl rfl
  rw [hacts, hcursor, hreplace]
  simp only [Act.run_bind, setBuffer, run_modify, hmove, setLine, run_modifyContext, run_set]
  rfl

theorem placed_writtenScene_iff (s : Scene) (b : Buffer) (before after : List String)
    (block : String) :
    Placed before after block (writtenScene s b before after block) ↔ ¬ Nested block := by
  constructor
  · rintro ⟨⟨b', hb', hlines, -⟩, -, -, -⟩
    obtain rfl := Option.some.inj hb'
    have hsame : Text.lines (unmarked block) = Text.lines (dropMarkers block) :=
      List.append_cancel_left (List.append_cancel_right hlines)
    rw [← unmarked_eq_iff, ← Text.unlines_lines (unmarked block), hsame, Text.unlines_lines]
  · intro hnested
    have hunmarked := unmarked_eq_iff.2 hnested
    have hposition := positionAfter_aheadOfCursor before.length hnested
    obtain ⟨first, others, hlines⟩ :=
      List.exists_cons_of_ne_nil (Text.lines_ne_nil (dropMarkers block))
    constructor
    · exact ⟨_, rfl, by rw [hunmarked], hposition⟩
    · exact congrArg some hposition
    · simp [writtenScene, hunmarked, hlines]
    · simp [writtenScene, Record.get?_set_str]

end Run

/-- A transform in a buffer puts its block, without marks, in place of the cursor's line, and the
cursor where the first mark stood, exactly if that mark is not nested in another one. -/
theorem transform_placed_iff {engine : Runner} {s : Scene} {b : Buffer}
    {before after : List String} {line : String} {template : Option String}
    {children : List ChildTemplate} {own : Option String} {forest : List ChildText}
    (mode : TransformMode) (hitem : s.item = none) (hbuffer : s.buffer = some b)
    (hb : b.lines = before ++ line :: after) (hcursor : s.cursor.line = before.length)
    (hown : ownText s.context.vars (template.getD "") = .ok own)
    (hforest : ofTemplates s.context.vars children = .ok forest) :
    let block := markedBlock engine.settings.indentUnit line (writtenLines mode line own forest)
    ∃ s', (transform engine template mode children).run s = (.ok (), s') ∧
      (Placed before after block s' ↔ ¬ Nested block) := by
  intro block
  refine ⟨writtenScene s b before after block, ?_, placed_writtenScene_iff s b before after block⟩
  have hline : b.line s.cursor.line = .ok line := by simp [Buffer.line, hb, hcursor]
  have hcurrent : currentCursor.run s = (.ok s.cursor, s) := rfl
  have hentries := run_bufferEntries_texts line mode hown hforest
  rw [← run_writeBlock_eq (writtenLines mode line own forest).1
    (writtenLines mode line own forest).2 hb hcursor rfl]
  simp only [transform, transformBuffer_eq, Act.run_bind, run_get, hitem, hbuffer,
    Option.isSome_none, Bool.false_eq_true, if_false, hcurrent, run_ofResult, hline, hentries]

/-- A link between two other lines of a buffer, with the cursor on it. -/
def linkScene : Scene where
  world := { tree := { root := "/", files := [] } }
  buffer := some { lines := ["a", "- https://x.test", "b"], cursor := ⟨1, 5⟩ }
  context := { vars := [("url", .str "https://x.test")] }

/-- Two marks below the line: the cursor goes where the first one stood, behind the note. -/
theorem transform_placed_iff_link :
    let block := markedBlock "  " "- https://x.test" (writtenLines .replace "- https://x.test"
      (some "[site](https://x.test)")
      [.mk "note \x7b\x7bcursor\x7d\x7d" 0 [.mk "\x7b\x7bcursor\x7d\x7dmore" 1 []]])
    ∃ s', (transform goneEngine (some "[site](\x7b\x7burl\x7d\x7d)") .replace
        [⟨"note \x7b\x7bcursor\x7d\x7d", 0, [⟨"\x7b\x7bcursor\x7d\x7dmore", 1, []⟩]⟩]).run
          linkScene = (.ok (), s') ∧
      Placed ["a"] ["b"] block s' ∧ s'.context.cursor = some ⟨2, 9⟩ := by
  intro block
  have htext : Template.interpolate "[site](\x7b\x7burl\x7d\x7d)" linkScene.context.vars =
      .ok "[site](https://x.test)" := eq_ok_of_toOption (by decide +kernel)
  have hnote : Template.interpolate "note \x7b\x7bcursor\x7d\x7d" linkScene.context.vars =
      .ok "note \x7b\x7bcursor\x7d\x7d" := eq_ok_of_toOption (by decide +kernel)
  have hmore : Template.interpolate "\x7b\x7bcursor\x7d\x7dmore" linkScene.context.vars =
      .ok "\x7b\x7bcursor\x7d\x7dmore" := eq_ok_of_toOption (by decide +kernel)
  have hown : ownText linkScene.context.vars ((some "[site](\x7b\x7burl\x7d\x7d)").getD "") =
      .ok (some "[site](https://x.test)") := by
    rw [Option.getD_some, ownText, if_neg (by decide), htext]
    rfl
  have hforest : ofTemplates linkScene.context.vars
      [⟨"note \x7b\x7bcursor\x7d\x7d", 0, [⟨"\x7b\x7bcursor\x7d\x7dmore", 1, []⟩]⟩] =
        .ok [.mk "note \x7b\x7bcursor\x7d\x7d" 0 [.mk "\x7b\x7bcursor\x7d\x7dmore" 1 []]] := by
    simp only [ofTemplates, ofTemplate, hnote, hmore]
    rfl
  have hnested : ¬ Nested block := unmarked_eq_iff.1 (by decide +kernel)
  have hplace : markedPlace 1 block = ⟨2, 9⟩ := by decide +kernel
  obtain ⟨s', hrun, hplaced⟩ := @transform_placed_iff goneEngine linkScene _ ["a"] ["b"] _ _ _ _ _
    .replace rfl rfl rfl rfl hown hforest
  have hput := hplaced.2 hnested
  exact ⟨s', hrun, hput, hput.cursor.trans (congrArg some hplace)⟩

/-- A line that holds a mark between the two parts of another one. -/
def nestedLine : String := "\x7b\x7bcur\x7b\x7bcursor\x7d\x7dsor\x7d\x7d"

def markedScene : Scene where
  world := linkScene.world
  buffer := some (Buffer.ofText nestedLine)

/-- The mark that comes about is taken out with the first one, and the cursor is not where that
stood. -/
theorem transform_takes_nested_marks :
    let block := markedBlock "  " nestedLine (writtenLines .append nestedLine (some "X") [])
    let s' := ((transform goneEngine (some "X") .append []).run markedScene).2
    s'.buffer.map (fun b => (b.lines, b.cursor)) = some ([" X"], ⟨0, 2⟩) ∧
      Text.lines (dropMarkers block) = ["\x7b\x7bcursor\x7d\x7d X"] ∧
      markedPlace 0 block = ⟨0, 5⟩ ∧ ¬ Placed [] [] block s' := by
  have hrun : ((transform goneEngine (some "X") .append []).run markedScene).2.buffer.map
      (fun b => (b.lines, b.cursor)) = some ([" X"], ⟨0, 2⟩) := by
    decide +kernel
  have hlines : Text.lines (dropMarkers (markedBlock "  " nestedLine
      (writtenLines .append nestedLine (some "X") []))) = ["\x7b\x7bcursor\x7d\x7d X"] := by
    decide +kernel
  refine ⟨hrun, hlines, by decide +kernel, ?_⟩
  rintro ⟨⟨b, hb, hplaced, -⟩, -, -, -⟩
  rw [hb, Option.map_some, hplaced, hlines] at hrun
  simp at hrun

end Engine

end BulletScript
