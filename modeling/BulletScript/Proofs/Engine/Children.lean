import BulletScript.Proofs.Tasks.Edit
import BulletScript.Proofs.Engine.Act
import BulletScript.Proofs.Text.Search

/-! The lines that a transform writes below its own. A work item and a line of a buffer get them from
the same templates, each by a walk of its own: where a template renders to nothing, the item also
leaves out what stands below it, and the buffer does not. -/
namespace BulletScript.Engine

open Script Tasks

/-- A line that a transform writes, once its template is rendered, with the lines below it. -/
inductive ChildText where
  | mk (text : String) (indent : Nat) (children : List ChildText)

namespace ChildText

mutual

def ofTemplate (vars : Record) : ChildTemplate → Result ChildText
  | ⟨template, indent, children⟩ => do
    let text ← Template.interpolate template vars
    return ⟨Text.trim text, indent, ← ofTemplates vars children⟩

def ofTemplates (vars : Record) : List ChildTemplate → Result (List ChildText)
  | [] => return []
  | child :: rest => do return (← ofTemplate vars child) :: (← ofTemplates vars rest)

end

mutual

/-- The lines that a work item gets. -/
def lines : ChildText → List ChildLine
  | ⟨text, indent, children⟩ =>
    if text = "" then [] else { text, indent } :: linesOf children

def linesOf : List ChildText → List ChildLine
  | [] => []
  | child :: rest => child.lines ++ linesOf rest

end

mutual

/-- The lines that a buffer gets, each with its depth. -/
def entries (shift : Int) : ChildText → List (Int × String)
  | ⟨text, indent, children⟩ =>
    (if text = "" then [] else [((indent : Int) + 1 - shift, text)]) ++ entriesOf shift children

def entriesOf (shift : Int) : List ChildText → List (Int × String)
  | [] => []
  | child :: rest => child.entries shift ++ entriesOf shift rest

end

mutual

/-- No text holds a mark for where the cursor goes. -/
def Unmarked : ChildText → Prop
  | ⟨text, _, children⟩ => Text.cut? Template.cursorMarker text = none ∧ UnmarkedAll children

def UnmarkedAll : List ChildText → Prop
  | [] => True
  | child :: rest => child.Unmarked ∧ UnmarkedAll rest

end

mutual

/-- There is no text, here or below. -/
def Silent : ChildText → Prop
  | ⟨text, _, children⟩ => text = "" ∧ SilentAll children

def SilentAll : List ChildText → Prop
  | [] => True
  | child :: rest => child.Silent ∧ SilentAll rest

end

mutual

/-- Below a line without a text there is none either. -/
def Rooted : ChildText → Prop
  | ⟨text, _, children⟩ => if text = "" then SilentAll children else RootedAll children

def RootedAll : List ChildText → Prop
  | [] => True
  | child :: rest => child.Rooted ∧ RootedAll rest

end

mutual

theorem entries_eq_nil_iff (child : ChildText) : child.entries 0 = [] ↔ child.Silent := by
  obtain ⟨text, indent, children⟩ := child
  rw [entries, Silent, List.append_eq_nil_iff, entriesOf_eq_nil_iff children]
  by_cases h : text = "" <;> simp [h]

theorem entriesOf_eq_nil_iff (children : List ChildText) :
    entriesOf 0 children = [] ↔ SilentAll children := by
  cases children with
  | nil => simp [entriesOf, SilentAll]
  | cons child rest =>
    rw [entriesOf, SilentAll, List.append_eq_nil_iff, entries_eq_nil_iff child,
      entriesOf_eq_nil_iff rest]

end

/-- A child line with its depth below the item. -/
def entryOf (child : ChildLine) : Int × String := (child.indent + 1, child.text)

mutual

theorem lines_sublist (child : ChildText) : (child.lines.map entryOf).Sublist (child.entries 0) := by
  obtain ⟨text, indent, children⟩ := child
  rw [lines, entries]
  split
  · simp
  · simpa [entryOf] using linesOf_sublist children

theorem linesOf_sublist (children : List ChildText) :
    ((linesOf children).map entryOf).Sublist (entriesOf 0 children) := by
  cases children with
  | nil => simp [linesOf]
  | cons child rest =>
    rw [linesOf, entriesOf, List.map_append]
    exact (lines_sublist child).append (linesOf_sublist rest)

end

end ChildText

theorem append_eq_append_iff_of_sublist {α : Type} {xs xs' ys ys' : List α} (hx : xs.Sublist xs')
    (hy : ys.Sublist ys') : xs ++ ys = xs' ++ ys' ↔ xs = xs' ∧ ys = ys' := by
  constructor
  · intro h
    have hlength := congrArg List.length h
    rw [List.length_append, List.length_append] at hlength
    have hle := hx.length_le
    have hle' := hy.length_le
    exact List.append_inj h (by omega)
  · rintro ⟨rfl, rfl⟩
    rfl

namespace ChildText

mutual

theorem lines_eq_iff (child : ChildText) :
    child.lines.map entryOf = child.entries 0 ↔ child.Rooted := by
  obtain ⟨text, indent, children⟩ := child
  rw [lines, entries, Rooted]
  split
  · rw [List.map_nil, List.nil_append, ← entriesOf_eq_nil_iff]
    exact eq_comm
  · simpa [entryOf] using linesOf_eq_iff children

theorem linesOf_eq_iff (children : List ChildText) :
    (linesOf children).map entryOf = entriesOf 0 children ↔ RootedAll children := by
  cases children with
  | nil => simp [linesOf, entriesOf, RootedAll]
  | cons child rest =>
    rw [linesOf, entriesOf, RootedAll, List.map_append,
      append_eq_append_iff_of_sublist (lines_sublist child) (linesOf_sublist rest),
      lines_eq_iff child, linesOf_eq_iff rest]

end

end ChildText

section Run

open Act ChildText

variable {vars : Record} {s : Scene}

theorem run_render (template : String) (s : Scene) :
    (render template).run s = (Template.interpolate template s.context.vars, s) := rfl

theorem ofTemplate_ok {template : String} {indent : Nat} {children : List ChildTemplate}
    {child : ChildText} (h : ofTemplate vars ⟨template, indent, children⟩ = .ok child) :
    ∃ text below, Template.interpolate template vars = .ok text ∧
      ofTemplates vars children = .ok below ∧ child = ⟨Text.trim text, indent, below⟩ := by
  rw [ofTemplate] at h
  cases htext : Template.interpolate template vars with
  | error f => simp [htext, bind, Except.bind] at h
  | ok text =>
    cases hbelow : ofTemplates vars children with
    | error f => simp [htext, hbelow, bind, Except.bind] at h
    | ok below =>
      simp only [htext, hbelow, bind, Except.bind, pure, Except.pure, Except.ok.injEq] at h
      exact ⟨text, below, rfl, rfl, h.symm⟩

theorem ofTemplates_cons_ok {child : ChildTemplate} {rest : List ChildTemplate}
    {children : List ChildText} (h : ofTemplates vars (child :: rest) = .ok children) :
    ∃ first others, ofTemplate vars child = .ok first ∧ ofTemplates vars rest = .ok others ∧
      children = first :: others := by
  rw [ofTemplates] at h
  cases hfirst : ofTemplate vars child with
  | error f => simp [hfirst, bind, Except.bind] at h
  | ok first =>
    cases hothers : ofTemplates vars rest with
    | error f => simp [hfirst, hothers, bind, Except.bind] at h
    | ok others =>
      simp only [hfirst, hothers, bind, Except.bind, pure, Except.pure, Except.ok.injEq] at h
      exact ⟨first, others, rfl, rfl, h.symm⟩

mutual

theorem run_itemChild {child : ChildText} (s : Scene) : ∀ {template : ChildTemplate},
    ofTemplate s.context.vars template = .ok child → child.Unmarked →
    (itemChild template).run s = (.ok child.lines, s)
  | ⟨template, indent, children⟩, h, hunmarked => by
    obtain ⟨text, below, htext, hbelow, rfl⟩ := ofTemplate_ok h
    rw [Unmarked] at hunmarked
    have hne : Text.trim text ≠ Template.cursorMarker := by
      intro heq
      rw [heq] at hunmarked
      exact absurd hunmarked.1 (by decide)
    have hrest := run_itemChildren s hbelow hunmarked.2
    by_cases hempty : Text.trim text = ""
    · simp [itemChild, Act.run_bind, run_render, htext, hempty, ChildText.lines]
    · have hown : Text.trim (dropMarkers (Text.trim text)) = Text.trim text := by
        rw [dropMarkers, Text.replace_of_cut?_none _ hunmarked.1, Text.trim_trim]
      simp only [itemChild, Act.run_bind, run_render, htext, hempty, hne, or_self, if_false, hown,
        hrest, Act.run_pure, ChildText.lines]

theorem run_itemChildren {children : List ChildText} (s : Scene) :
    ∀ {templates : List ChildTemplate}, ofTemplates s.context.vars templates = .ok children →
    UnmarkedAll children → (itemChildren templates).run s = (.ok (linesOf children), s)
  | [], h, _ => by
    obtain rfl : [] = children := by simpa [ofTemplates, pure, Except.pure] using h
    rfl
  | template :: rest, h, hunmarked => by
    obtain ⟨first, others, hfirst, hothers, rfl⟩ := ofTemplates_cons_ok h
    rw [UnmarkedAll] at hunmarked
    simp only [itemChildren, Act.run_bind, run_itemChild s hfirst hunmarked.1,
      run_itemChildren s hothers hunmarked.2, Act.run_pure, linesOf]

end

mutual

theorem run_bufferChild {child : ChildText} (shift : Int) (s : Scene) :
    ∀ {template : ChildTemplate}, ofTemplate s.context.vars template = .ok child →
    (bufferChild shift template).run s = (.ok (child.entries shift), s)
  | ⟨template, indent, children⟩, h => by
    obtain ⟨text, below, htext, hbelow, rfl⟩ := ofTemplate_ok h
    simp only [bufferChild, Act.run_bind, run_render, htext, run_bufferChildren shift s hbelow,
      Act.run_pure, ChildText.entries]

theorem run_bufferChildren {children : List ChildText} (shift : Int) (s : Scene) :
    ∀ {templates : List ChildTemplate}, ofTemplates s.context.vars templates = .ok children →
    (bufferChildren shift templates).run s = (.ok (entriesOf shift children), s)
  | [], h => by
    obtain rfl : [] = children := by simpa [ofTemplates, pure, Except.pure] using h
    rfl
  | template :: rest, h => by
    obtain ⟨first, others, hfirst, hothers, rfl⟩ := ofTemplates_cons_ok h
    simp only [bufferChildren, Act.run_bind, run_bufferChild shift s hfirst,
      run_bufferChildren shift s hothers, Act.run_pure, entriesOf]

end

end Run

/-- What a transform makes of the item's own line. -/
def transformEdit (mode : TransformMode) (text : String) : Update :=
  match mode with
  | .append => { append := text }
  | .prepend => { prepend := text }
  | .replace => { replace := some fun _ => text }

/-- Edits an item and the lines below it, and makes its text the line of the run. -/
def Act.writeItem (editor : Editor) (own : Update) (below : List ChildLine) : Act Unit := do
  updateItem editor { own with appendChildren := below }
  setLine (((← get).item.map (·.text)).getD "")

/-- Writes a block with its first line and what stands below it in place of the cursor's line, whose
text is given. -/
def Act.writeBlock (engine : Runner) (buffer : Buffer) (cursor : Cursor) (line first : String)
    (entries : List (Int × String)) : Act Unit := do
  let below := entries.map fun (depth, text) =>
    Text.leadingBlanks line ++ Text.repeated engine.settings.indentUnit depth.toNat ++ "- " ++ text
  let (block, mark) := Template.stripCursor (Text.unlines (first :: below))
  let block := dropMarkers block
  let new := Text.lines block
  setBuffer (buffer.replaceLines cursor.line cursor.line new)
  moveCursor (positionAfter cursor.line (match mark with
    | some offset => Text.take offset block
    | none => block))
  setLine (new.headD "")

/-- The cursor of the run, or else that of its buffer. -/
def Scene.cursor (s : Scene) : Cursor :=
  (s.context.cursor.or (s.buffer.map (·.cursor))).getD ⟨0, 0⟩

section Transform

open Act ChildText

variable {engine : Runner} {editor : Editor} {template : String} {children : List ChildTemplate}
  {s : Scene} {text : String} {forest : List ChildText}

theorem run_transformItem (mode : TransformMode) (htemplate : template ≠ "")
    (htext : Template.interpolate template s.context.vars = .ok text)
    (hforest : ofTemplates s.context.vars children = .ok forest) (hunmarked : UnmarkedAll forest) :
    (transformItem editor template mode children).run s =
      (writeItem editor (transformEdit mode (Text.trim (dropMarkers text)))
        (linesOf forest)).run s := by
  have hchildren := run_itemChildren s hforest hunmarked
  simp only [transformItem, writeItem, if_neg htemplate, if_pos htemplate, Act.run_bind, run_render,
    htext, Act.run_pure, hchildren]
  rfl

theorem run_bufferEntries (line : String) (mode : TransformMode) (htemplate : template ≠ "")
    (htext : Template.interpolate template s.context.vars = .ok text)
    (hforest : ofTemplates s.context.vars children = .ok forest) :
    (bufferEntries line template mode children).run s =
      (.ok (editedLine mode line (Text.trim text), entriesOf 0 forest), s) := by
  simp only [bufferEntries, if_pos htemplate, Act.run_bind, run_render, htext,
    run_bufferChildren 0 s hforest, Act.run_pure]

theorem transformBuffer_eq (b : Buffer) (mode : TransformMode) :
    transformBuffer engine b template mode children = (do
      let cursor ← currentCursor
      let line ← ofResult (b.line cursor.line)
      let (first, entries) ← bufferEntries line template mode children
      writeBlock engine b cursor line first entries) :=
  rfl

theorem run_transformBuffer {b : Buffer} {line : String} (mode : TransformMode)
    (htemplate : template ≠ "")
    (htext : Template.interpolate template s.context.vars = .ok text)
    (hforest : ofTemplates s.context.vars children = .ok forest)
    (hline : b.line s.cursor.line = .ok line) :
    (transformBuffer engine b template mode children).run s =
      (writeBlock engine b s.cursor line (editedLine mode line (Text.trim text))
        (entriesOf 0 forest)).run s := by
  have hentries := run_bufferEntries line mode htemplate htext hforest
  have hcursor : currentCursor.run s = (.ok s.cursor, s) := rfl
  simp only [transformBuffer_eq, Act.run_bind, hcursor, Act.run_ofResult, hline, hentries]

/-- A transform with a template of its own writes lines below an item, or below a line of a buffer.
They are the same, with the same depths, exactly if there is no text below a line without one. -/
theorem transform_children_agree_iff {b : Buffer} {line : String} {t : Scene} (mode : TransformMode)
    (htemplate : template ≠ "") (hitem : s.item.isSome) (heditor : engine.tasks = some editor)
    (hnone : t.item = none) (hbuffer : t.buffer = some b) (hline : b.line t.cursor.line = .ok line)
    (hvars : t.context.vars = s.context.vars)
    (htext : Template.interpolate template s.context.vars = .ok text)
    (hforest : ofTemplates s.context.vars children = .ok forest) (hunmarked : UnmarkedAll forest) :
    (transform engine (some template) mode children).run s =
        (writeItem editor (transformEdit mode (Text.trim (dropMarkers text))) (linesOf forest)).run s ∧
      (transform engine (some template) mode children).run t =
        (writeBlock engine b t.cursor line (editedLine mode line (Text.trim text))
          (entriesOf 0 forest)).run t ∧
      ((linesOf forest).map (fun child => (child.indent + 1, child.text)) = entriesOf 0 forest ↔
        RootedAll forest) := by
  refine ⟨?_, ?_, linesOf_eq_iff forest⟩
  · rw [← run_transformItem mode htemplate htext hforest hunmarked]
    simp [transform, Act.run_bind, hitem, require, heditor]
  · rw [← hvars] at htext hforest
    rw [← run_transformBuffer mode htemplate htext hforest hline]
    simp [transform, Act.run_bind, hnone, hbuffer]

/-- A text below a template that renders to nothing. -/
def goneChildren : List ChildTemplate := [⟨"\x7b\x7bgone\x7d\x7d", 0, [⟨"kept", 1, []⟩]⟩]

def goneEngine : Runner where
  settings := { documentRoot := "" }
  tasks := some { store := {}, indentUnit := "  " }
  now := ⟨⟨2026, 1, 1⟩, none, some 0⟩

/-- A document of one task, and the task. -/
def goneItem : Scene where
  world := { tree := { root := "/", files := [(["a.md"], .text "- [ ] T\n")] } }
  item := some { text := "T", path := "a.md", line := 0, status := " ", tags := [], indent := "" }
  context := { vars := [("gone", .str "")] }

/-- A buffer with the same text. -/
def goneBuffer : Scene where
  world := goneItem.world
  buffer := some (Buffer.ofText "- [ ] T\n")
  context := goneItem.context

/-- What is written below the item and below the line of the buffer is not the same. -/
theorem transform_children_agree_iff_gone :
    let forest := [ChildText.mk "" 0 [.mk "kept" 1 []]]
    (transform goneEngine (some "done") .replace goneChildren).run goneItem =
        (writeItem { store := {}, indentUnit := "  " }
          (transformEdit .replace (Text.trim (dropMarkers "done"))) (linesOf forest)).run goneItem ∧
      (transform goneEngine (some "done") .replace goneChildren).run goneBuffer =
        (writeBlock goneEngine (Buffer.ofText "- [ ] T\n") ⟨0, 0⟩ "- [ ] T"
          (editedLine .replace "- [ ] T" (Text.trim "done")) (entriesOf 0 forest)).run goneBuffer ∧
      (linesOf forest).map (fun child => (child.indent + 1, child.text)) ≠ entriesOf 0 forest := by
  have htext : Template.interpolate "done" goneItem.context.vars = .ok "done" :=
    eq_ok_of_toOption (by decide +kernel)
  have hgone : Template.interpolate "\x7b\x7bgone\x7d\x7d" goneItem.context.vars = .ok "" :=
    eq_ok_of_toOption (by decide +kernel)
  have hkept : Template.interpolate "kept" goneItem.context.vars = .ok "kept" :=
    eq_ok_of_toOption (by decide +kernel)
  have hforest : ofTemplates goneItem.context.vars goneChildren =
      .ok [ChildText.mk "" 0 [.mk "kept" 1 []]] := by
    simp only [goneChildren, ofTemplates, ofTemplate, hgone, hkept]
    rfl
  have hunmarked : UnmarkedAll [ChildText.mk "" 0 [.mk "kept" 1 []]] := by
    simp only [UnmarkedAll, Unmarked]
    decide +kernel
  have hrooted : ¬ RootedAll [ChildText.mk "" 0 [.mk "kept" 1 []]] := by
    simp [RootedAll, Rooted, SilentAll, Silent]
  have htasks : goneEngine.tasks = some { store := {}, indentUnit := "  " } := rfl
  have hbuffer : goneBuffer.buffer = some (Buffer.ofText "- [ ] T\n") := rfl
  have hline : (Buffer.ofText "- [ ] T\n").line goneBuffer.cursor.line = .ok "- [ ] T" :=
    eq_ok_of_toOption (by decide +kernel)
  obtain ⟨hitem, hblock, hiff⟩ := transform_children_agree_iff (s := goneItem) .replace (by decide)
    rfl htasks rfl hbuffer hline rfl htext hforest hunmarked
  exact ⟨hitem, hblock, mt hiff.1 hrooted⟩

/-- The item gets no line, and the buffer gets one. -/
theorem transform_drops_below_gone :
    (Documents.Store.read {} ((transform goneEngine (some "done") .replace goneChildren).run
        goneItem).2.world.tree "a.md").toOption = some "- [ ] done\n" ∧
      ((transform goneEngine (some "done") .replace goneChildren).run goneBuffer).2.buffer.map
        (·.lines) = some ["- done", "    - kept", ""] := by
  decide +kernel

end Transform

end BulletScript.Engine
