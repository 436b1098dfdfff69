import BulletScript.Proofs.Engine.Moves
import BulletScript.Proofs.Tasks.Appending

/-! Steps that add lines. With a work item at hand they edit its document, and else they write the
buffer, each by a computation of its own. Both put the same lines at the end of the block of the same
line, as often as they are repeated. -/
namespace BulletScript.Engine

open Script Tasks Outline

/-- A step that adds lines below the item or the cursor's line. -/
inductive Adding where
  | append (template : String) (indent : Int)
  | shell (command : String) (storeAs : Option Value) (timeoutMs : Option Int)

namespace Adding

def step : Adding → Step
  | .append template indent => .append template indent
  | .shell command storeAs timeoutMs => .shell command storeAs timeoutMs

/-- How deep below the line the step adds lines. -/
def depth : Adding → Int
  | .append _ indent => indent
  | .shell .. => 1

def bullet : Adding → String
  | .append .. => "-"
  | .shell .. => "+"

/-- The texts of the lines that the step adds: one that it renders, or those that a command puts
out. -/
def texts (engine : Runner) : Adding → Act (List String)
  | .append template _ => do return [Text.trim (← Act.render template)]
  | .shell command storeAs timeoutMs => do
    if !engine.settings.shell.enabled then Act.fail .shellDisabled
    let vars := (← Act.context).vars
    let command ← Act.ofResult (Template.interpolateWith Shell.quote true command vars)
    Act.ofResult (Shell.checkSandbox command)
    let folder ← Act.commandFolder engine
    let timeout ← Act.timeoutOf timeoutMs engine.settings.shell.timeout
    let output ← Act.runCommand command folder timeout engine.settings.shell.maxOutput
    Act.set "output" (.str output)
    Act.storeIn storeAs (.str output)
    return (Text.boundaryLines output).filter (!Text.isBlankText ·)

/-- The lines of these texts, as an editor is told of them. -/
def children (a : Adding) (texts : List String) : List ChildLine :=
  texts.map fun text => { text, indent := max (a.depth - 1) 0, marker := a.bullet }

/-- The lines of these texts, as they are written below a line. -/
def written (unit line : String) (a : Adding) (texts : List String) : List String :=
  texts.map fun text =>
    Text.leadingBlanks line ++ Text.repeated unit a.depth.toNat ++ a.bullet ++ " " ++ text

/-- What the step does with its texts. -/
def put (engine : Runner) (texts : List String) : Adding → Act Unit
  | .append template indent => do
    if (← get).item.isSome then
      let editor ← Act.require engine.tasks "task editor"
      Act.updateItem editor (appending ((Adding.append template indent).children texts))
    else if (← get).buffer.isSome then
      Act.insertBelow engine "-" (texts.map fun text => (indent, text))
    else Act.fail (.needsTarget "append")
  | .shell .. => Act.addOutput engine texts

theorem perform_step (engine : Runner) (a : Adding) :
    engine.perform a.step = a.texts engine >>= fun texts => a.put engine texts := by
  cases a with
  | append template indent =>
    simp only [step, Runner.perform, Act.append, texts, put, bind_assoc, pure_bind]
    rfl
  | shell command storeAs timeoutMs =>
    simp only [step, Runner.perform, Act.shell, texts, put]
    split <;> simp only [bind_assoc, pure_bind]

theorem rendered_children {a : Adding} (h : 1 ≤ a.depth) (unit line : String) (texts : List String) :
    rendered unit line (a.children texts) = a.written unit line texts := by
  have hdepth : max (a.depth - 1) 0 + 1 = a.depth := by omega
  simp only [rendered, children, written, List.map_map, Function.comp_def, ChildLine.line, hdepth]

end Adding

section Lines

variable {before after added : List String} {line : String}

theorem extendBlock_nil (width : Nat) (below : List String) : extendBlock width [] below = below := by
  simp [extendBlock]

theorem lineAt_append (before after : List String) (line : String) :
    Act.lineAt (before ++ line :: after) before.length = .ok line := by
  have hnonneg : ¬ (before.length : Int) < 0 := by omega
  simp [Act.lineAt, hnonneg]

theorem blockEndAt_append (before after : List String) (line : String) :
    blockEndAt (before ++ line :: after) before.length =
      .ok (before.length + bodyLength (indentWidth line) after : Nat) := by
  have hnonneg : ¬ (before.length : Int) < 0 := by omega
  have hlt : ¬ (((before ++ line :: after).length : Nat) : Int) ≤ before.length := by
    rw [List.length_append, List.length_cons]
    omega
  rw [blockEndAt, if_neg hnonneg, if_neg (not_or.2 ⟨hnonneg, hlt⟩), if_neg hnonneg]
  rw [Int.toNat_natCast, drop_length_append, getD_length_append, List.append_nil]
  rfl

/-- Lines that are put behind the block of a line extend it. -/
theorem insertLines_extendBlock {b : Buffer} (hb : b.lines = before ++ line :: after)
    (added : List String) :
    (b.insertLines (before.length + bodyLength (indentWidth line) after : Nat) added).lines =
      before ++ line :: extendBlock (indentWidth line) added after := by
  have hle := bodyLength_le (indentWidth line) after
  have hclamp : clampIndex b.lines.length
      ((before.length + bodyLength (indentWidth line) after : Nat) + 1) =
        before.length + (bodyLength (indentWidth line) after + 1) := by
    rw [hb, List.length_append, List.length_cons, clampIndex, if_neg (by omega)]
    omega
  simp only [Buffer.insertLines, splice, hclamp, Nat.max_self]
  rw [hb, List.take_length_add_append, List.drop_length_add_append]
  simp [extendBlock]

end Lines

/-- A scene with the documents, the item, the buffer and the cursor of another one. -/
def Beside (s₀ s : Scene) : Prop :=
  s.world.tree = s₀.world.tree ∧ s.item = s₀.item ∧ s.buffer = s₀.buffer ∧
    s.context.cursor = s₀.context.cursor

namespace Act

variable {s₀ : Scene}

theorem keeps_beside_storeIn (name : Option Value) (v : Value) :
    Keeps (Beside s₀) (storeIn name v) := by
  rw [storeIn]
  split
  · exact .bind (.ofResult _) fun _ _ h => h
  · exact .pure _

theorem keeps_beside_runCommand (command folder : String) (timeout : Float) (limit : Nat) :
    Keeps (Beside s₀) (runCommand command folder timeout limit) := by
  rw [runCommand]
  exact .bind (.modifyGet fun _ h => h) fun reply => by simp

/-- To make its texts a step touches nothing that it will edit. -/
theorem keeps_beside_texts (engine : Runner) : ∀ a : Adding, Keeps (Beside s₀) (a.texts engine)
  | .append template indent => .bind (keeps_render template) fun _ => .pure _
  | .shell command storeAs timeoutMs => by
    have hrun (command : String) : Keeps (Beside s₀) (do
        ofResult (Shell.checkSandbox command)
        let folder ← commandFolder engine
        let timeout ← timeoutOf timeoutMs engine.settings.shell.timeout
        let output ← runCommand command folder timeout engine.settings.shell.maxOutput
        set "output" (.str output)
        storeIn storeAs (.str output)
        return (Text.boundaryLines output).filter (!Text.isBlankText ·)) := by
      refine .bind (.ofResult _) fun _ => .bind (keeps_commandFolder _) fun folder => ?_
      refine .bind (keeps_timeoutOf _ _) fun timeout => ?_
      refine .bind (keeps_beside_runCommand _ _ _ _) fun output => .bind (fun _ h => h) fun _ => ?_
      exact .bind (keeps_beside_storeIn _ _) fun _ => .pure _
    rw [Adding.texts]
    refine .ite (.bind (.fail _) fun _ => ?_) ?_
    all_goals exact .bind .context fun c => .bind (.ofResult _) hrun

end Act

/-- The run has the item of a line, in a document of these lines that can be written. -/
structure OnItem (editor : Editor) (path : String) (before : List String) (line : String)
    (after : List String) (s : Scene) : Prop where
  item : ∃ item, s.item = some item ∧ item.path = path ∧ item.line = before.length ∧
    item.text = (ListLine.ofText line).content
  holds : Holds editor.store s.world.tree path (before ++ line :: after)

/-- The run has a buffer of these lines, and no item. -/
structure OnBuffer (before : List String) (line : String) (after : List String) (s : Scene) :
    Prop where
  item : s.item = none
  buffer : ∃ b, s.buffer = some b ∧ b.lines = before ++ line :: after

/-- A run has put lines at the end of the block of a line, and its cursor at the end of the last of
them. Nothing else of its context has changed. -/
structure Added (before : List String) (line : String) (after added : List String) (s s' : Scene) :
    Prop where
  onBuffer : OnBuffer before line (extendBlock (indentWidth line) added after) s'
  context : s'.context = { s.context with cursor := s'.context.cursor }
  cursor : ∀ last ∈ added.getLast?, s'.context.cursor =
    some ⟨(before.length + bodyLength (indentWidth line) after : Nat) + added.length, last.length⟩

section Step

variable {engine : Runner} {editor : Editor} {path line : String} {before after texts : List String}
  {s s₀ : Scene} {a : Adding}

/-- Without a line to add, nothing has to be done. -/
theorem OnBuffer.added_nil (h : OnBuffer before line after s) : Added before line after [] s s :=
  ⟨by rwa [extendBlock_nil], rfl, nofun⟩

theorem OnItem.of_beside (h : OnItem editor path before line after s₀) (hs : Beside s₀ s) :
    OnItem editor path before line after s := by
  obtain ⟨htree, hitem, -, -⟩ := hs
  exact ⟨hitem ▸ h.item, htree ▸ h.holds⟩

theorem OnBuffer.of_beside (h : OnBuffer before line after s₀) (hs : Beside s₀ s) :
    OnBuffer before line after s := by
  obtain ⟨-, hitem, hbuffer, -⟩ := hs
  exact ⟨hitem ▸ h.item, hbuffer ▸ h.buffer⟩

theorem OnItem.updateItem {children : List ChildLine} (h : OnItem editor path before line after s)
    (hlist : (ListLine.ofText line).bullet.isSome)
    (hsingle : ∀ l ∈ rendered editor.indentUnit line children, Text.SingleLine l) :
    ∃ s', (Act.updateItem editor (appending children)).run s = (.ok (), s') ∧
      OnItem editor path before line
        (extendBlock (indentWidth line) (rendered editor.indentUnit line children) after) s' := by
  obtain ⟨⟨item, hitem, rfl, hline, htext⟩, hholds⟩ := h
  have hlocate : locate (before ++ line :: after) item = some before.length :=
    locate_append hline htext.symm
  obtain ⟨item', tree', hupdate, hnew⟩ := hholds.update_adding_list hlocate hlist hsingle
  have hfind := hholds.find_eq_ok hlocate
  obtain ⟨-, hitem'⟩ := (Editor.update_eq_ok hfind).1 hupdate
  refine ⟨{ s with item := some item', world := { s.world with tree := tree' } }, ?_, ?_, hnew⟩
  · simp only [Act.updateItem, Act.edit, Act.run_bind, Act.run_get, hitem, hupdate]
    rfl
  · refine ⟨item', rfl, ?_⟩
    subst hitem'
    rw [hholds.split, getD_length_append, appending_content]
    exact ⟨rfl, rfl, rfl⟩

/-- With an item at hand, a step puts its lines at the end of the item's block. -/
theorem OnItem.put (h : OnItem editor path before line after s) (heditor : engine.tasks = some editor)
    (hlist : (ListLine.ofText line).bullet.isSome) (hdepth : 1 ≤ a.depth)
    (hsingle : ∀ l ∈ a.written editor.indentUnit line texts, Text.SingleLine l) :
    ∃ s', (a.put engine texts).run s = (.ok (), s') ∧ OnItem editor path before line
      (extendBlock (indentWidth line) (a.written editor.indentUnit line texts) after) s' := by
  obtain ⟨item, hitem, -⟩ := h.item
  have hupdate : ∃ s', (Act.updateItem editor (appending (a.children texts))).run s =
      (.ok (), s') ∧ OnItem editor path before line
        (extendBlock (indentWidth line) (a.written editor.indentUnit line texts) after) s' := by
    rw [← Adding.rendered_children hdepth] at hsingle ⊢
    exact h.updateItem hlist hsingle
  cases a with
  | append template indent =>
    simpa [Adding.put, Act.run_bind, hitem, heditor, Act.require] using hupdate
  | shell command storeAs timeoutMs =>
    cases texts with
    | nil =>
      -- without a line to add, the document is not even read
      exact ⟨s, rfl, by rwa [Adding.written, List.map_nil, extendBlock_nil]⟩
    | cons text rest =>
      have hrun : (Act.addOutput engine (text :: rest)).run s = (Act.updateItem editor
          (appending ((Adding.shell command storeAs timeoutMs).children (text :: rest)))).run s := by
        simp only [Act.addOutput, List.isEmpty_cons, Bool.false_eq_true, if_false, Act.run_bind,
          Act.run_get, hitem, heditor]
        rfl
      rwa [Adding.put, hrun]

variable {cursor : Cursor}

theorem OnBuffer.moveCursor (h : OnBuffer before line after s) (position : Cursor) :
    ∃ s', (Act.moveCursor position).run s = (.ok (), s') ∧ OnBuffer before line after s' ∧
      s'.context = { s.context with cursor := some position } := by
  obtain ⟨hitem, b, hbuffer, hb⟩ := h
  have hsturdy : Act.OnEdit Sturdy s := by
    intro b' hb'
    obtain rfl := Option.some.inj (hbuffer.symm.trans hb')
    rw [hb]
    exact List.append_ne_nil_of_right_ne_nil _ (List.cons_ne_nil _ _)
  obtain ⟨moved, hmove, hsame⟩ := Act.run_moveCursor hsturdy position
  rw [hbuffer] at hsame
  obtain ⟨b', rfl, hb'⟩ := Option.map_eq_some_iff.1 hsame
  exact ⟨_, hmove, ⟨hitem, b', rfl, (congrArg Prod.fst hb').trans hb⟩, rfl⟩

theorem OnBuffer.insertBelow (engine : Runner) (h : OnBuffer before line after s)
    (hcursor : s.context.cursor = some cursor) (hline : cursor.line = before.length)
    (bullet : String) (entries : List (Int × String)) :
    ∃ s', (Act.insertBelow engine bullet entries).run s = (.ok (), s') ∧
      Added before line after (entries.map fun (depth, text) =>
        Text.leadingBlanks line ++ Text.repeated engine.settings.indentUnit depth.toNat ++ bullet ++
          " " ++ text) s s' := by
  have hnil := h.added_nil
  obtain ⟨hitem, b, hbuffer, hb⟩ := h
  have hcurrent : Act.currentCursor.run s = (.ok cursor, s) := by
    simp only [Act.currentCursor, Act.run_bind, Act.run_get, hcursor, Option.some_or,
      Option.getD_some, Act.run_pure]
  have hlineAt := lineAt_append before after line
  have hend := blockEndAt_append before after line
  generalize hadded : (entries.map fun (depth, text) => Text.leadingBlanks line ++
    Text.repeated engine.settings.indentUnit depth.toNat ++ bullet ++ " " ++ text) = added
  cases hlast : added.getLast? with
  | none =>
    refine ⟨s, ?_, List.getLast?_eq_none_iff.1 hlast ▸ hnil⟩
    simp only [Act.insertBelow, Act.buffer, Act.run_bind, Act.run_get, hbuffer, Act.run_pure,
      hcurrent, hline, hb, hlineAt, Act.run_ofResult, hadded, hlast]
  | some last =>
    have hinserted : OnBuffer before line (extendBlock (indentWidth line) added after)
        { s with buffer := some (b.insertLines
          (before.length + bodyLength (indentWidth line) after : Nat) added) } :=
      ⟨hitem, _, rfl, insertLines_extendBlock hb added⟩
    obtain ⟨s', hmove, hs', hcontext⟩ := hinserted.moveCursor
      ⟨(before.length + bodyLength (indentWidth line) after : Nat) + added.length, last.length⟩
    refine ⟨s', Eq.trans ?_ hmove, hs', by rw [hcontext], fun l hl => ?_⟩
    · simp only [Act.insertBelow, Act.buffer, Act.run_bind, Act.run_get, hbuffer, Act.run_pure,
        hcurrent, hline, hb, hlineAt, Act.run_ofResult, hadded, hlast, hend, Act.setBuffer,
        Act.run_modify]
    · obtain rfl := Option.some.inj (hlast.symm.trans hl)
      rw [hcontext]

/-- Without an item, a step puts its lines at the end of the block of the cursor's line. -/
theorem OnBuffer.put (h : OnBuffer before line after s) (hcursor : s.context.cursor = some cursor)
    (hline : cursor.line = before.length) :
    ∃ s', (a.put engine texts).run s = (.ok (), s') ∧
      Added before line after (a.written engine.settings.indentUnit line texts) s s' := by
  obtain ⟨b, hbuffer, -⟩ := h.buffer
  have hinsert : ∃ s', (Act.insertBelow engine a.bullet
      (texts.map fun text => (a.depth, text))).run s = (.ok (), s') ∧
      Added before line after (a.written engine.settings.indentUnit line texts) s s' := by
    have hbelow := h.insertBelow engine hcursor hline a.bullet
      (texts.map fun text => (a.depth, text))
    rwa [List.map_map] at hbelow
  cases a with
  | append template indent =>
    simp only [Adding.put, Act.run_bind, Act.run_get, h.item, hbuffer, Option.isSome_none,
      Option.isSome_some, Bool.false_eq_true, if_false, if_true]
    exact hinsert
  | shell command storeAs timeoutMs =>
    cases texts with
    | nil => exact ⟨s, rfl, h.added_nil⟩
    | cons text rest =>
      simp only [Adding.put, Act.addOutput, List.isEmpty_cons, Act.run_bind, Act.run_get, h.item,
        hbuffer, Option.isSome_some, Bool.false_eq_true, if_false, if_true]
      exact hinsert

theorem beside_of_texts {r : Except Failure (List String)} (h : (a.texts engine).run s = (r, s₀)) :
    Beside s s₀ := by
  have hkeeps : Beside s ((a.texts engine).run s).2 :=
    Act.keeps_beside_texts engine a s ⟨rfl, rfl, rfl, rfl⟩
  rwa [h] at hkeeps

theorem OnItem.perform (h : OnItem editor path before line after s)
    (heditor : engine.tasks = some editor) (hlist : (ListLine.ofText line).bullet.isSome)
    (hdepth : 1 ≤ a.depth)
    (hsingle : ∀ l ∈ a.written editor.indentUnit line texts, Text.SingleLine l)
    (htexts : ((a.texts engine).run s).1 = .ok texts) :
    ∃ s', (engine.perform a.step).run s = (.ok (), s') ∧ OnItem editor path before line
      (extendBlock (indentWidth line) (a.written editor.indentUnit line texts) after) s' := by
  rw [Adding.perform_step, Act.run_bind]
  rcases hrun : (a.texts engine).run s with ⟨r, s₁⟩
  rw [hrun] at htexts
  subst htexts
  exact (h.of_beside (beside_of_texts hrun)).put heditor hlist hdepth hsingle

theorem OnBuffer.perform (h : OnBuffer before line after s)
    (hcursor : s.context.cursor = some cursor) (hline : cursor.line = before.length)
    (htexts : ((a.texts engine).run s).1 = .ok texts) :
    ∃ s', (engine.perform a.step).run s = (.ok (), s') ∧ OnBuffer before line
      (extendBlock (indentWidth line) (a.written engine.settings.indentUnit line texts) after) s' := by
  rw [Adding.perform_step, Act.run_bind]
  rcases hrun : (a.texts engine).run s with ⟨r, s₁⟩
  rw [hrun] at htexts
  subst htexts
  have hbeside := beside_of_texts hrun
  obtain ⟨s', hput, hadded⟩ : ∃ s', (a.put engine texts).run s₁ = (.ok (), s') ∧
      Added before line after (a.written engine.settings.indentUnit line texts) s₁ s' :=
    (h.of_beside hbeside).put (hbeside.2.2.2.trans hcursor) hline
  exact ⟨s', hput, hadded.onBuffer⟩

end Step

/-- Carries out steps in a row, and goes back before each of them. -/
def performAll (engine : Runner) (back : Act Unit) : List Adding → Act Unit
  | [] => return
  | a :: rest => do
    back
    engine.perform a.step
    performAll engine back rest

/-- In a run from a scene, the steps make these texts. -/
def MakeTexts (engine : Runner) (back : Act Unit) : List (Adding × List String) → Scene → Prop
  | [], _ => True
  | (a, texts) :: rest, s =>
    ((do back; a.texts engine).run s).1 = .ok texts ∧
      MakeTexts engine back rest ((do back; engine.perform a.step).run s).2

/-- The lines below a line, once steps have put those of their texts at the end of its block, one
after the other. -/
def extended (unit line : String) (adds : List (Adding × List String)) (after : List String) :
    List String :=
  adds.foldl (fun after (a, texts) =>
    extendBlock (indentWidth line) (a.written unit line texts) after) after

section Run

variable {engine : Runner} {editor : Editor} {unit path line : String} {before after : List String}
  {s t : Scene} {adds : List (Adding × List String)}

/-- What one step makes of the lines below a line, a run makes of them step by step. -/
theorem run_performAll {back : Act Unit} {P : List String → Scene → Prop}
    (hstep : ∀ a texts after s, (a, texts) ∈ adds → P after s →
      ((do back; a.texts engine).run s).1 = .ok texts →
      ∃ s', (do back; engine.perform a.step).run s = (.ok (), s') ∧
        P (extendBlock (indentWidth line) (a.written unit line texts) after) s')
    (h : P after s) (htexts : MakeTexts engine back adds s) :
    ∃ s', (performAll engine back (adds.map Prod.fst)).run s = (.ok (), s') ∧
      P (extended unit line adds after) s' := by
  induction adds generalizing after s with
  | nil => exact ⟨s, rfl, h⟩
  | cons add rest ih =>
    obtain ⟨a, texts⟩ := add
    obtain ⟨hfirst, hrest⟩ := htexts
    obtain ⟨s₁, hrun, h₁⟩ := hstep a texts after s (by simp) h hfirst
    rw [hrun] at hrest
    obtain ⟨s', hruns, h'⟩ :=
      ih (fun a texts after s hmem => hstep a texts after s (by simp [hmem])) h₁ hrest
    refine ⟨s', ?_, h'⟩
    have hassoc : performAll engine back (((a, texts) :: rest).map Prod.fst) =
        (do back; engine.perform a.step) >>= fun _ => performAll engine back (rest.map Prod.fst) := by
      simp only [List.map_cons, performAll, bind_assoc]
    rw [hassoc, Act.run_bind, hrun]
    exact hruns

theorem OnItem.performAll (h : OnItem editor path before line after s)
    (heditor : engine.tasks = some editor) (hlist : (ListLine.ofText line).bullet.isSome)
    (hdepth : ∀ p ∈ adds, 1 ≤ p.1.depth)
    (hsingle : ∀ p ∈ adds, ∀ l ∈ p.1.written editor.indentUnit line p.2, Text.SingleLine l)
    (htexts : MakeTexts engine (pure ()) adds s) :
    ∃ s', (performAll engine (pure ()) (adds.map Prod.fst)).run s = (.ok (), s') ∧
      OnItem editor path before line (extended editor.indentUnit line adds after) s' := by
  refine run_performAll (P := OnItem editor path before line)
    (fun a texts after s hmem h htexts => ?_) h htexts
  rw [pure_bind] at htexts ⊢
  exact h.perform heditor hlist (hdepth (a, texts) hmem) (hsingle (a, texts) hmem) htexts

theorem OnBuffer.performAll {cursor : Cursor} (h : OnBuffer before line after t)
    (hcursor : cursor.line = before.length)
    (htexts : MakeTexts engine (Act.moveCursor cursor) adds t) :
    ∃ t', (performAll engine (Act.moveCursor cursor) (adds.map Prod.fst)).run t = (.ok (), t') ∧
      OnBuffer before line (extended engine.settings.indentUnit line adds after) t' := by
  refine run_performAll (P := OnBuffer before line) (fun a texts after t _ h htexts => ?_) h htexts
  obtain ⟨t₁, hmove, h₁, hat⟩ := h.moveCursor cursor
  rw [Act.run_bind, hmove] at htexts ⊢
  exact h₁.perform (congrArg Context.cursor hat) hcursor htexts

/-- Steps add lines below a task in its document, or below its line in a buffer with the same text,
each from that line. If every line is written as one line, they write the same text. -/
theorem adding_agrees {text : String} {tree' : Files.Tree} {item : WorkItem} {b : Buffer}
    {cursor : Cursor} (heditor : engine.tasks = some editor)
    (hunit : editor.indentUnit = engine.settings.indentUnit)
    (hread : editor.store.read s.world.tree path = .ok text)
    (hwrite : editor.store.write s.world.tree path text = .ok tree')
    (hlines : Text.lines text = before ++ line :: after)
    (htask : WorkItem.ofLine? line path before.length = some item) (hitem : s.item = some item)
    (hnone : t.item = none) (hbuffer : t.buffer = some b) (hb : b.lines = Text.lines text)
    (hcursor : cursor.line = before.length) (hdepth : ∀ p ∈ adds, 1 ≤ p.1.depth)
    (hsingle : ∀ p ∈ adds, ∀ l ∈ p.1.written editor.indentUnit line p.2, Text.SingleLine l)
    (hs : MakeTexts engine (pure ()) adds s)
    (ht : MakeTexts engine (Act.moveCursor cursor) adds t) :
    ∃ s' t', (performAll engine (pure ()) (adds.map Prod.fst)).run s = (.ok (), s') ∧
      (performAll engine (Act.moveCursor cursor) (adds.map Prod.fst)).run t = (.ok (), t') ∧
      let new := Text.unlines (before ++ line :: extended editor.indentUnit line adds after)
      editor.store.read s'.world.tree path = .ok new ∧ t'.buffer.map Buffer.text = some new := by
  obtain ⟨hpath, hplace, hcontent, hlist⟩ := ofLine?_eq_some htask
  have honItem : OnItem editor path before line after s :=
    ⟨⟨item, hitem, hpath, hplace, hcontent⟩, hlines ▸ Holds.of_read hread hwrite⟩
  have honBuffer : OnBuffer before line after t := ⟨hnone, b, hbuffer, hb.trans hlines⟩
  obtain ⟨s', hrun, hs'⟩ := honItem.performAll heditor hlist hdepth hsingle hs
  obtain ⟨t', hrun', ht'⟩ := honBuffer.performAll hcursor ht
  refine ⟨s', t', hrun, hrun', hs'.holds.read, ?_⟩
  obtain ⟨b', hbuffer', hb'⟩ := ht'.buffer
  rw [hbuffer', Option.map_some, Buffer.text, hb', hunit]

def weekText : String := "# Week\n- [ ] T\n  - a\n- b\n"

def weekEditor : Editor := { store := {}, indentUnit := "  " }

def weekEngine : Runner where
  settings := { documentRoot := "" }
  tasks := some weekEditor
  now := ⟨⟨2026, 1, 1⟩, none, some 0⟩

/-- The task of the document is at hand. -/
def weekItem : Scene where
  world := { tree := { root := "/", files := [(["a.md"], .text weekText)] } }
  item := some { text := "T", path := "a.md", line := 1, status := " ", tags := [], indent := "" }
  context := { vars := [("what", .str "x")] }

/-- A buffer with the text of the document is at hand. -/
def weekBuffer : Scene where
  world := weekItem.world
  buffer := some (Buffer.ofText weekText)
  context := weekItem.context

theorem adding_agrees_week :
    let adds := [Adding.append "\x7b\x7bwhat\x7d\x7d" 2, .append "y" 1]
    let new := "# Week\n- [ ] T\n  - a\n    - x\n  - y\n- b\n"
    ∃ s' t', (performAll weekEngine (pure ()) adds).run weekItem = (.ok (), s') ∧
      (performAll weekEngine (Act.moveCursor ⟨1, 0⟩) adds).run weekBuffer = (.ok (), t') ∧
      weekEditor.store.read s'.world.tree "a.md" = .ok new ∧ t'.buffer.map Buffer.text = some new := by
  intro adds new
  let told : List (Adding × List String) := adds.zip [["x"], ["y"]]
  have hread : weekEditor.store.read weekItem.world.tree "a.md" = .ok weekText :=
    eq_ok_of_toOption (by decide +kernel)
  obtain ⟨tree', hwrite⟩ : ∃ tree', weekEditor.store.write weekItem.world.tree "a.md" weekText =
      .ok tree' := exists_eq_ok_of_isSome (by decide +kernel)
  have hlines : Text.lines weekText = ["# Week"] ++ "- [ ] T" :: ["  - a", "- b", ""] := by
    decide +kernel
  have hsingle : ∀ p ∈ told, ∀ l ∈ p.1.written weekEditor.indentUnit "- [ ] T" p.2,
      Text.SingleLine l := by
    simp only [Text.SingleLine]
    decide +kernel
  have hs : MakeTexts weekEngine (pure ()) told weekItem :=
    ⟨eq_ok_of_toOption (by decide +kernel), eq_ok_of_toOption (by decide +kernel), trivial⟩
  have ht : MakeTexts weekEngine (Act.moveCursor ⟨1, 0⟩) told weekBuffer :=
    ⟨eq_ok_of_toOption (by decide +kernel), eq_ok_of_toOption (by decide +kernel), trivial⟩
  have hagrees := adding_agrees rfl rfl hread hwrite hlines (by decide +kernel) rfl rfl rfl rfl rfl
    (by decide : ∀ p ∈ told, 1 ≤ p.1.depth) hsingle hs ht
  have hnew : Text.unlines (["# Week"] ++ "- [ ] T" ::
      extended weekEditor.indentUnit "- [ ] T" told ["  - a", "- b", ""]) = new := by
    decide +kernel
  dsimp only at hagrees
  rw [hnew] at hagrees
  exact hagrees

end Run

end BulletScript.Engine
