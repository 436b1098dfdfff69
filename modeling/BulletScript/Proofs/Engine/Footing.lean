import BulletScript.Proofs.Engine.Adding
import BulletScript.Proofs.Engine.Children
import BulletScript.Proofs.Engine.Deal
import BulletScript.Proofs.Engine.Routing
import BulletScript.Proofs.Template.Faults

/-! Where the cursor of a run stands. In a run without a work item it stays on a line of the buffer,
and the buffer never gets shorter, so that no line is looked for where there is none. -/
namespace BulletScript

/-- The buffer has a line at an index. -/
def Buffer.HasLine (b : Buffer) (index : Int) : Prop := 0 ≤ index ∧ index < b.lines.length

namespace Buffer

variable {b : Buffer} {index : Int}

theorem HasLine.exists_append (h : b.HasLine index) :
    ∃ before line after, b.lines = before ++ line :: after ∧ index = before.length := by
  obtain ⟨hlow, hhigh⟩ := h
  have hlt : index.toNat < b.lines.length := by omega
  refine ⟨b.lines.take index.toNat, b.lines[index.toNat], b.lines.drop (index.toNat + 1), ?_, ?_⟩
  · rw [← List.drop_eq_getElem_cons hlt, List.take_append_drop]
  · rw [List.length_take]
    omega

theorem HasLine.line_ok (h : b.HasLine index) : ∃ line, b.line index = .ok line := by
  obtain ⟨before, line, after, hb, rfl⟩ := h.exists_append
  exact ⟨line, by simp [Buffer.line, hb]⟩

theorem hasLine_of_line_ok {line : String} (h : b.line index = .ok line) : b.HasLine index := by
  unfold Buffer.line at h
  split at h
  · rename_i hfound
    rw [Option.ite_none_right_eq_some] at hfound
    obtain ⟨hlow, hfound⟩ := hfound
    obtain ⟨hlt, -⟩ := List.getElem?_eq_some_iff.1 hfound
    exact ⟨hlow, by omega⟩
  · cases h

/-- A block that takes the place of a line. -/
theorem replaceLines_append {before after : List String} {line : String}
    (hb : b.lines = before ++ line :: after) (new : List String) :
    (b.replaceLines before.length before.length new).lines = before ++ new ++ after := by
  have hfirst : clampIndex b.lines.length before.length = before.length := by
    rw [hb, List.length_append, clampIndex, if_neg (by omega)]
    omega
  have hlast : clampIndex b.lines.length ((before.length : Int) + 1) = before.length + 1 := by
    rw [hb, List.length_append, List.length_cons, clampIndex, if_neg (by omega)]
    omega
  simp only [replaceLines, splice, hfirst, hlast, Nat.max_eq_right (Nat.le_add_right _ 1)]
  rw [hb, List.take_left, List.drop_length_add_append]
  rfl

/-- Lines that are put in go between two parts of the others. -/
theorem insertLines_eq (b : Buffer) (place : Int) (new : List String) :
    ∃ before after, b.lines = before ++ after ∧
      (b.insertLines place new).lines = before ++ new ++ after := by
  refine ⟨b.lines.take (clampIndex b.lines.length (place + 1)),
    b.lines.drop (clampIndex b.lines.length (place + 1)), (List.take_append_drop _ _).symm, ?_⟩
  simp only [insertLines, splice, Nat.max_self]

theorem length_insertLines (b : Buffer) (place : Int) (new : List String) :
    (b.insertLines place new).lines.length = b.lines.length + new.length := by
  obtain ⟨before, after, hb, hnew⟩ := b.insertLines_eq place new
  simp only [hb, hnew, List.length_append]
  omega

end Buffer

namespace Engine

open Script Tasks Act

/-- How many lines the buffer has. -/
def Scene.height (s : Scene) : Nat := (s.buffer.map (·.lines.length)).getD 0

theorem Scene.height_eq {s : Scene} {b : Buffer} (h : s.buffer = some b) :
    s.height = b.lines.length := by
  simp [height, h]

/-- There is no item, but a buffer with so many lines or more, and the cursor of the run, or else that
of the buffer, is on one of them. -/
def Footing (n : Nat) (path : Option String) (buffer : Option Buffer) (cursor : Option Cursor) :
    Prop :=
  path = none ∧
    ∃ b, buffer = some b ∧ n ≤ b.lines.length ∧ b.HasLine (cursor.getD b.cursor).line

abbrev Stands (n : Nat) : Scene → Prop := OnSite (Footing n)

/-- What a scene can lead to: the cursor is on a line, and no line is lost. -/
abbrev Onward (s s' : Scene) : Prop := Stands s.height s'

section Stands

variable {n m : Nat} {s s' s'' : Scene} {b : Buffer}

theorem Stands.item (h : Stands n s) : s.item = none := Option.map_eq_none_iff.1 h.1

theorem Stands.le_height (h : Stands n s) : n ≤ s.height := by
  obtain ⟨-, b, hb, hn, -⟩ := h
  simpa [Scene.height, hb] using hn

theorem Stands.mono (h : Stands n s) (hm : m ≤ n) : Stands m s := by
  obtain ⟨hitem, b, hb, hn, hline⟩ := h
  exact ⟨hitem, b, hb, hm.trans hn, hline⟩

theorem Stands.refl (h : Stands n s) : Onward s s := by
  obtain ⟨hitem, b, hb, -, hline⟩ := h
  exact ⟨hitem, b, hb, by simp [Scene.height, hb], hline⟩

theorem Stands.trans (h : Stands n s) (h' : Onward s s') : Stands n s' := h'.mono h.le_height

theorem Stands.of_keeps {α : Type} {m : Act α} (h : Stands n s) (hm : ∀ n, Keeps (Stands n) m) :
    Onward s (m.run s).2 := hm _ s h.refl

theorem Stands.cursor (h : Stands n s) : ∃ b, s.buffer = some b ∧ b.HasLine s.cursor.line := by
  obtain ⟨-, b, hb, -, hline⟩ := h
  refine ⟨b, hb, ?_⟩
  rw [Scene.cursor, hb]
  cases hc : s.context.cursor <;> simpa [hc] using hline

end Stands

/-- The position, if there is one, is on one of the first `n` lines. -/
def Onto (n : Nat) (position : Option Cursor) : Prop :=
  ∀ p, position = some p → 0 ≤ p.line ∧ p.line < n

theorem Onto.mono {n m : Nat} {position : Option Cursor} (h : Onto n position) (hm : n ≤ m) :
    Onto m position := by
  intro p hp
  obtain ⟨hlow, hhigh⟩ := h p hp
  exact ⟨hlow, by omega⟩

theorem Stands.onto {n : Nat} {s : Scene} (h : Stands n s) : Onto s.height s.context.cursor := by
  obtain ⟨-, b, hb, -, hline⟩ := h
  intro p hp
  simpa [Scene.height, hb, hp, Buffer.HasLine] using hline

theorem Stands.onto_anchor {n : Nat} {s : Scene} (h : Stands n s) :
    Onto s.height (s.context.cursor.or (s.buffer.map (·.cursor))) := by
  cases hc : s.context.cursor with
  | some position => simpa [hc] using h.onto
  | none =>
    obtain ⟨-, b, hb, -, hline⟩ := h
    intro p hp
    obtain rfl : b.cursor = p := by simpa [hb] using hp
    simpa [Scene.height, hb, hc, Buffer.HasLine] using hline

/-- An act that, from a scene, keeps the run standing and does not fail by an index that is out of
range. -/
structure Firm {α : Type} (m : Act α) (s : Scene) : Prop where
  onward : Onward s (m.run s).2
  inRange : Result.InRange (m.run s).1

namespace Firm

variable {α β : Type} {n : Nat} {s s' : Scene}

theorem of_run {m : Act α} {a : α} (h : m.run s = (.ok a, s')) (hs : Onward s s') : Firm m s :=
  ⟨by rwa [h], by simp [h]⟩

theorem pure (a : α) (hs : Stands n s) : Firm (pure a : Act α) s := .of_run rfl hs.refl

theorem fail (fault : ActionFault) (hs : Stands n s) : Firm (fail fault : Act α) s :=
  ⟨hs.refl, .error (by simp)⟩

theorem ofResult {r : Result α} (hr : Result.InRange r) (hs : Stands n s) : Firm (ofResult r) s :=
  ⟨hs.refl, hr⟩

theorem get (hs : Stands n s) : Firm get s := .of_run rfl hs.refl

theorem context (hs : Stands n s) : Firm context s := .of_run rfl hs.refl

theorem congr {m m' : Act α} (h : m.run s = m'.run s) (hm : Firm m' s) : Firm m s :=
  ⟨by rw [h]; exact hm.onward, by rw [h]; exact hm.inRange⟩

theorem bind_of_run {m : Act α} {k : α → Act β} (hm : Firm m s)
    (hk : ∀ a s', m.run s = (.ok a, s') → Onward s s' → Firm (k a) s') : Firm (m >>= k) s := by
  obtain ⟨honward, hrange⟩ := hm
  have hrun := run_bind m k s
  rcases h : m.run s with ⟨f | a, s'⟩
  · simp only [h] at honward hrange hrun
    exact ⟨by rwa [hrun], by rw [hrun]; exact .error (hrange f rfl)⟩
  · simp only [h] at honward hrun
    have hnext := hk a s' h honward
    exact ⟨by rw [hrun]; exact honward.trans hnext.onward, by rw [hrun]; exact hnext.inRange⟩

theorem bind {m : Act α} {k : α → Act β} (hm : Firm m s)
    (hk : ∀ a s', Onward s s' → Firm (k a) s') : Firm (m >>= k) s :=
  hm.bind_of_run fun a s' _ => hk a s'

theorem ite {c : Prop} [Decidable c] {m m' : Act α} (hm : Firm m s) (hm' : Firm m' s) :
    Firm (if c then m else m') s := by
  split
  · exact hm
  · exact hm'

/-- Acts that keep the site of a run and always succeed. -/
theorem of_keeps {m : Act α} (hs : Stands n s) (hm : ∀ n, Keeps (Stands n) m)
    (hok : ∃ a, (m.run s).1 = .ok a) : Firm m s := by
  obtain ⟨a, ha⟩ := hok
  exact ⟨hs.of_keeps hm, by simp [ha]⟩

end Firm

section Acts

variable {n : Nat} {s : Scene} {engine : Runner} {b : Buffer} {position : Cursor}

theorem exists_moveCursor (position : Cursor) (hitem : s.item = none)
    (hbuffer : s.buffer = some b) (h : b.HasLine position.line) :
    ∃ s', (moveCursor position).run s = (.ok (), s') ∧ Stands b.lines.length s' := by
  have hsturdy : OnEdit Sturdy s := by
    intro b' hb'
    obtain rfl := Option.some.inj (hbuffer.symm.trans hb')
    intro hnil
    obtain ⟨hlow, hhigh⟩ := h
    simp only [hnil, List.length_nil] at hhigh
    omega
  obtain ⟨moved, hrun, hsame⟩ := run_moveCursor hsturdy position
  rw [hbuffer] at hsame
  obtain ⟨b', rfl, hb'⟩ := Option.map_eq_some_iff.1 hsame
  have hlines : b'.lines = b.lines := congrArg Prod.fst hb'
  refine ⟨_, hrun, by simp [hitem], b', rfl, by rw [hlines], ?_⟩
  simpa [Buffer.HasLine, hlines] using h

theorem exists_insertBelow (engine : Runner) (bullet : String) (entries : List (Int × String))
    (hs : Stands n s) :
    ∃ s', (insertBelow engine bullet entries).run s = (.ok (), s') ∧ Onward s s' := by
  obtain ⟨b, hbuffer, hline⟩ := hs.cursor
  obtain ⟨before, line, after, hb, hindex⟩ := hline.exists_append
  have hcurrent : currentCursor.run s = (.ok s.cursor, s) := rfl
  generalize hnew : (entries.map fun entry => Text.leadingBlanks line ++
    Text.repeated engine.settings.indentUnit entry.1.toNat ++ bullet ++ " " ++ entry.2) = new
  cases hlast : new.getLast? with
  | none =>
    refine ⟨s, ?_, hs.refl⟩
    simp only [insertBelow, Act.buffer, run_bind, run_get, hbuffer, run_pure, hcurrent, hindex, hb,
      lineAt_append, run_ofResult, hnew, hlast]
  | some last =>
    have hstop := Outline.bodyLength_le (Outline.indentWidth line) after
    generalize hwidth : Outline.bodyLength (Outline.indentWidth line) after = width at hstop
    have hlength := b.length_insertLines (before.length + width : Nat) new
    have hplace : (b.insertLines (before.length + width : Nat) new).HasLine
        (((before.length + width : Nat) : Int) + new.length) := by
      rw [Buffer.HasLine, hlength, hb, List.length_append, List.length_cons]
      omega
    obtain ⟨s', hmove, hs'⟩ := exists_moveCursor
      (s := { s with buffer := some (b.insertLines (before.length + width : Nat) new) })
      ⟨((before.length + width : Nat) : Int) + new.length, last.length⟩ hs.item rfl hplace
    refine ⟨s', Eq.trans ?_ hmove, hs'.mono ?_⟩
    · simp only [insertBelow, Act.buffer, run_bind, run_get, hbuffer, run_pure, hcurrent, hindex, hb,
        lineAt_append, run_ofResult, hnew, hlast, blockEndAt_append, hwidth, setBuffer, run_modify]
    · rw [Scene.height_eq hbuffer, hlength]
      omega

/-- A block that is written is split at its newlines, and the cursor goes to a place in it. -/
theorem writeBlock_eq (engine : Runner) (b : Buffer) (cursor : Cursor) (line first : String)
    (entries : List (Int × String)) :
    ∃ block before, (Text.lines before).length ≤ (Text.lines block).length ∧
      writeBlock engine b cursor line first entries = (do
        setBuffer (b.replaceLines cursor.line cursor.line (Text.lines block))
        moveCursor (positionAfter cursor.line before)
        setLine ((Text.lines block).headD "")) := by
  refine ⟨_, _, ?_, rfl⟩
  split
  · exact Text.length_lines_take _ _
  · exact Nat.le_refl _

theorem exists_writeBlock (engine : Runner) (line first : String) (entries : List (Int × String))
    (hs : Stands n s) (hbuffer : s.buffer = some b) (hline : b.HasLine position.line) :
    ∃ s', (writeBlock engine b position line first entries).run s = (.ok (), s') ∧ Onward s s' := by
  obtain ⟨block, before, hbefore, heq⟩ := writeBlock_eq engine b position line first entries
  have hsome := List.length_pos_iff.2 (Text.lines_ne_nil block)
  obtain ⟨above, _, below, hb, hindex⟩ := hline.exists_append
  have hlength : (b.replaceLines position.line position.line (Text.lines block)).lines.length + 1 =
      b.lines.length + (Text.lines block).length := by
    rw [hindex, Buffer.replaceLines_append hb, hb]
    simp only [List.length_append, List.length_cons]
    omega
  have hplace : (b.replaceLines position.line position.line (Text.lines block)).HasLine
      (positionAfter position.line before).line := by
    obtain ⟨hlow, hhigh⟩ := hline
    rw [Buffer.HasLine, positionAfter]
    dsimp only
    omega
  obtain ⟨s', hmove, hs'⟩ := exists_moveCursor
    (s := { s with
      buffer := some (b.replaceLines position.line position.line (Text.lines block)) })
    _ hs.item rfl hplace
  have honward : Onward s s' := hs'.mono (by rw [Scene.height_eq hbuffer]; omega)
  refine ⟨((setLine ((Text.lines block).headD "")).run s').2, ?_, keeps_setLine _ s' honward⟩
  simp only [heq, run_bind, setBuffer, run_modify, hmove]
  rfl

end Acts

section Steps

variable {α : Type} {n : Nat} {s : Scene} (engine : Runner)

theorem firm_render (template : String) (hs : Stands n s) : Firm (render template) s :=
  .bind (.context hs) fun _ _ hs => .ofResult (Template.inRange_interpolateWith _ _ _ _) hs

mutual

theorem firm_bufferChild : ∀ (child : ChildTemplate) {n : Nat} {s : Scene} (shift : Int),
    Stands n s → Firm (bufferChild shift child) s
  | ⟨template, indent, children⟩, _, _, shift, hs => by
    rw [bufferChild]
    refine .bind (firm_render template hs) fun text _ hs => ?_
    exact .bind (firm_bufferChildren children shift hs) fun below _ hs => .pure _ hs

theorem firm_bufferChildren : ∀ (children : List ChildTemplate) {n : Nat} {s : Scene} (shift : Int),
    Stands n s → Firm (bufferChildren shift children) s
  | [], _, _, shift, hs => by
    rw [bufferChildren]
    exact .pure _ hs
  | child :: rest, _, _, shift, hs => by
    rw [bufferChildren]
    refine .bind (firm_bufferChild child shift hs) fun own _ hs => ?_
    exact .bind (firm_bufferChildren rest shift hs) fun below _ hs => .pure _ hs

end

theorem firm_bufferEntries (line template : String) (mode : TransformMode)
    (children : List ChildTemplate) (hs : Stands n s) :
    Firm (bufferEntries line template mode children) s := by
  unfold bufferEntries
  refine .ite (.bind (firm_render _ hs) fun text _ hs => ?_) ?_
  · exact .bind (firm_bufferChildren _ _ hs) fun below _ hs => .pure _ hs
  · cases children with
    | nil => exact .pure _ hs
    | cons head rest =>
      refine .bind (firm_render _ hs) fun text _ hs => ?_
      refine .bind (firm_bufferChildren _ _ hs) fun inner _ hs => ?_
      exact .bind (firm_bufferChildren _ _ hs) fun below _ hs => .pure _ hs

theorem firm_transformBuffer {b : Buffer} (template : String) (mode : TransformMode)
    (children : List ChildTemplate) (hs : Stands n s) (hbuffer : s.buffer = some b) :
    Firm (transformBuffer engine b template mode children) s := by
  obtain ⟨b', hb', hcursor⟩ := hs.cursor
  obtain rfl := Option.some.inj (hbuffer.symm.trans hb')
  obtain ⟨line, hline⟩ := hcursor.line_ok
  have hcurrent : currentCursor.run s = (.ok s.cursor, s) := rfl
  have hrun : (transformBuffer engine b template mode children).run s =
      (bufferEntries line template mode children >>= fun entries =>
        writeBlock engine b s.cursor line entries.1 entries.2).run s := by
    simp only [transformBuffer_eq, run_bind, hcurrent, run_ofResult, hline]
  have hsame := keeps_bufferEntries (P := (· = s)) line template mode children s rfl
  refine .congr hrun (.bind_of_run (firm_bufferEntries _ _ _ _ hs) fun entries s' hentries _ => ?_)
  obtain rfl : s' = s := by rwa [hentries] at hsame
  obtain ⟨s'', hwrite, honward⟩ :=
    exists_writeBlock engine line entries.1 entries.2 hs hbuffer hcursor
  exact .of_run hwrite honward

theorem firm_transform (template : Option String) (mode : TransformMode)
    (children : List ChildTemplate) (hs : Stands n s) :
    Firm (transform engine template mode children) s := by
  obtain ⟨b, hbuffer, -⟩ := hs.cursor
  refine .congr ?_ (firm_transformBuffer engine (template.getD "") mode children hs hbuffer)
  simp only [transform, run_bind, run_get, hs.item, hbuffer, Option.isSome_none,
    Bool.false_eq_true, if_false]

theorem firm_require (service : Option α) (name : String) (hs : Stands n s) :
    Firm (require service name) s := by
  cases service with
  | none => exact .fail _ hs
  | some a => exact .pure a hs

theorem firm_updateItem (editor : Editor) (u : Update) (hs : Stands n s) :
    Firm (updateItem editor u) s := by
  have hrun : (updateItem editor u).run s = (.ok (), s) := by
    simp only [updateItem, edit, run_bind, run_get, hs.item, run_pure]
  exact .of_run hrun hs.refl

theorem firm_insertBelow (bullet : String) (entries : List (Int × String)) (hs : Stands n s) :
    Firm (insertBelow engine bullet entries) s := by
  obtain ⟨s', hrun, honward⟩ := exists_insertBelow engine bullet entries hs
  exact .of_run hrun honward

theorem firm_append (template : String) (indent : Int) (hs : Stands n s) :
    Firm (append engine template indent) s := by
  rw [append]
  refine .bind (firm_render _ hs) fun text _ hs => .bind (.get hs) fun _ _ hs => .ite ?_ ?_
  · exact .bind (firm_require _ _ hs) fun editor _ hs => firm_updateItem editor _ hs
  · exact .bind (.get hs) fun _ _ hs => .ite (firm_insertBelow engine _ _ hs) (.fail _ hs)

theorem firm_addOutput (ls : List String) (hs : Stands n s) : Firm (addOutput engine ls) s := by
  rw [addOutput]
  refine .ite (.pure _ hs) (.bind (.get hs) fun _ _ hs => ?_)
  split
  · exact firm_updateItem _ _ hs
  · exact .bind (.get hs) fun _ _ hs => .ite (firm_insertBelow engine _ _ hs) (.pure _ hs)

theorem firm_timeoutOf (timeoutMs : Option Int) (usual : Float) (hs : Stands n s) :
    Firm (timeoutOf timeoutMs usual) s := by
  rw [timeoutOf]
  split
  · exact .pure _ hs
  · exact .ofResult (.ofNumber _) hs

theorem firm_commandFolder (hs : Stands n s) : Firm (commandFolder engine) s := by
  rw [commandFolder]
  split
  · exact .bind (.get hs) fun _ _ hs => .pure _ hs
  · exact .pure _ hs

theorem firm_runCommand (command folder : String) (timeout : Float) (limit : Nat)
    (hs : Stands n s) : Firm (runCommand command folder timeout limit) s := by
  rw [runCommand]
  refine .bind (.of_keeps hs (fun _ => .modifyGet fun _ h => h) ⟨_, rfl⟩) fun reply _ hs => ?_
  exact .ite (.fail _ hs) (.ite (.fail _ hs) (.pure _ hs))

theorem inRange_variableName (name : Value) : Result.InRange (variableName name) := by
  cases name with
  | str name => exact .ok _
  | _ => exact .error rfl

theorem firm_set (name : String) (v : Value) (hs : Stands n s) : Firm (set name v) s :=
  .of_keeps hs (fun _ => keeps_set name v) ⟨(), rfl⟩

theorem firm_setNamed (name v : Value) (hs : Stands n s) : Firm (setNamed name v) s :=
  .bind (.ofResult (inRange_variableName name) hs) fun name _ hs => firm_set name v hs

theorem firm_storeIn (name : Option Value) (v : Value) (hs : Stands n s) :
    Firm (storeIn name v) s := by
  rw [storeIn]
  split
  · exact firm_setNamed _ v hs
  · exact .pure _ hs

theorem inRange_checkSandbox (command : String) : Result.InRange (Shell.checkSandbox command) := by
  unfold Shell.checkSandbox
  split
  · exact .error (by simp)
  · exact .ok _

theorem firm_shell (command : String) (storeAs : Option Value) (timeoutMs : Option Int)
    (hs : Stands n s) : Firm (shell engine command storeAs timeoutMs) s := by
  rw [shell]
  refine .ite (.bind (.fail _ hs) fun _ _ hs => ?_) ?_
  all_goals
    refine .bind (.context hs) fun _ _ hs => ?_
    refine .bind (.ofResult (Template.inRange_interpolateWith _ _ _ _) hs) fun command _ hs => ?_
    refine .bind (.ofResult (inRange_checkSandbox command) hs) fun _ _ hs => ?_
    refine .bind (firm_commandFolder engine hs) fun folder _ hs => ?_
    refine .bind (firm_timeoutOf _ _ hs) fun timeout _ hs => ?_
    refine .bind (firm_runCommand _ _ _ _ hs) fun output _ hs => ?_
    refine .bind (firm_set _ _ hs) fun _ _ hs => .bind (firm_storeIn _ _ hs) fun _ _ hs => ?_
    exact firm_addOutput engine _ hs

/-- Whatever a step does, the run stands. -/
theorem onward_perform (leaf : Step) (hs : Stands n s) : Onward s ((engine.perform leaf).run s).2 := by
  have hwriting (n : Nat) : KeepsWriting engine (Footing n) :=
    { insertBelow := fun bullet entries s hs =>
        Stands.trans hs (firm_insertBelow engine bullet entries hs).onward
      transformBuffer := fun b template mode children s hbuffer hs =>
        Stands.trans hs (firm_transformBuffer engine template mode children hs hbuffer).onward }
  exact hs.of_keeps fun n => keeps_perform (hwriting n) leaf

/-- The actions that look for lines of the buffer, or go back to one. -/
def seeksLine : Keyword → Bool
  | .append | .transform | .shell | .foreach => true
  | _ => false

theorem firm_perform {leaf : Step} (hs : Stands n s) (hleaf : seeksLine leaf.keyword) :
    Firm (engine.perform leaf) s := by
  cases leaf with
  | append template indent => exact firm_append engine template indent hs
  | transform template mode children => exact firm_transform engine template mode children hs
  | shell command storeAs timeoutMs => exact firm_shell engine command storeAs timeoutMs hs
  | _ => cases hleaf

end Steps

section Loops

variable {n : Nat} {s : Scene}

theorem firm_items (reference : String) (hs : Stands n s) : Firm (items reference) s := by
  rw [items]
  refine .bind (.context hs) fun c _ hs => .bind (.ofResult (inRange_resolvePath _ _) hs) ?_
  intro found _ hs
  split
  · exact .pure _ hs
  · exact .fail _ hs

theorem firm_holds (condition : String) (hs : Stands n s) : Firm (holds condition) s :=
  .bind (.context hs) fun _ _ hs => .ofResult (Template.inRange_condition _ _) hs

theorem firm_moveBack {position : Option Cursor} (hs : Stands n s) (h : Onto s.height position) :
    Firm (moveBack position) s := by
  cases position with
  | none => exact .pure _ hs
  | some p =>
    obtain ⟨b, hbuffer, -⟩ := hs.cursor
    obtain ⟨s', hrun, hs'⟩ := exists_moveCursor p hs.item hbuffer
      (by simpa [Buffer.HasLine, Scene.height_eq hbuffer] using h p rfl)
    exact .of_run hrun (by rwa [Onward, Scene.height_eq hbuffer])

theorem firm_enterRound {itemName indexName item : Value} {anchor : Option Cursor} {k : Nat}
    (hs : Stands n s) (h : Onto s.height anchor) :
    Firm (enterRound itemName indexName anchor k item) s := by
  refine .bind (firm_setNamed _ _ hs) fun _ s₁ h₁ => ?_
  refine .bind (firm_setNamed _ _ h₁) fun _ s₂ h₂ => ?_
  exact firm_moveBack h₂ (h.mono ((Stands.trans h₁ h₂).le_height))

theorem firm_dropNames (itemName indexName : Value) (hs : Stands n s) :
    Firm (dropNames itemName indexName) s := by
  have hunset {n : Nat} {s : Scene} (names : List String) (hs : Stands n s) : Firm (unset names) s :=
    .of_keeps hs (fun _ => keeps_unset names) ⟨(), rfl⟩
  refine .bind (.ofResult (inRange_variableName _) hs) fun a _ hs => ?_
  refine .bind (hunset [a] hs) fun _ _ hs => ?_
  exact .bind (.ofResult (inRange_variableName _) hs) fun b _ hs => hunset [b] hs

end Loops

end Engine
end BulletScript
