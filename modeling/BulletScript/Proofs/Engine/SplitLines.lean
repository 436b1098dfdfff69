import BulletScript.Proofs.Engine.CursorSafety
import BulletScript.Proofs.Engine.Trail

/-! Buffers and the texts they stand for. A buffer that is made from a text holds the lines of that
text. A transform splits what it writes, but a step that adds lines, and the note of a failed run, put
their texts in as they are: one with a newline becomes a single line of the buffer that is two lines of
its text. -/
namespace BulletScript

/-- The lines of the buffer are the lines of its text. -/
def Buffer.Split (b : Buffer) : Prop := Text.lines b.text = b.lines

namespace Buffer

variable {b : Buffer}

theorem split_iff : b.Split ↔ b.lines ≠ [] ∧ ∀ l ∈ b.lines, '\n' ∉ l.toList := by
  constructor
  · intro h
    rw [Split] at h
    rw [← h]
    exact ⟨Text.lines_ne_nil _, fun l hl => Text.no_newline_of_mem_lines hl⟩
  · rintro ⟨hne, h⟩
    exact Text.lines_unlines_of_no_newline hne h

theorem Split.of_lines {text : String} (h : b.lines = Text.lines text) : b.Split := by
  rw [Split, Buffer.text, h, Text.unlines_lines]

theorem mem_insertLines {place : Int} {new : List String} {l : String} :
    l ∈ (b.insertLines place new).lines ↔ l ∈ b.lines ∨ l ∈ new := by
  obtain ⟨before, after, hb, hnew⟩ := b.insertLines_eq place new
  rw [hb, hnew]
  simp only [List.mem_append]
  tauto

theorem insertLines_nil (b : Buffer) (place : Int) : (b.insertLines place []).lines = b.lines := by
  obtain ⟨before, after, hb, hnew⟩ := b.insertLines_eq place []
  rw [hb, hnew, List.append_nil]

theorem Split.insertLines_iff (h : b.Split) (place : Int) (new : List String) :
    (b.insertLines place new).Split ↔ ∀ l ∈ new, '\n' ∉ l.toList := by
  obtain ⟨hne, hold⟩ := split_iff.1 h
  rw [split_iff]
  constructor
  · exact fun hsplit l hl => hsplit.2 l (mem_insertLines.2 (.inr hl))
  · intro hnew
    refine ⟨fun hnil => hne ?_, fun l hl => (mem_insertLines.1 hl).elim (hold l) (hnew l)⟩
    refine List.eq_nil_iff_forall_not_mem.2 fun l hl => ?_
    exact List.eq_nil_iff_forall_not_mem.1 hnil l (mem_insertLines.2 (.inl hl))

/-- A text that takes the place of lines is split. -/
theorem Split.replaceLines (h : b.Split) (first last : Int) (text : String) :
    (b.replaceLines first last (Text.lines text)).Split := by
  refine split_iff.2 ⟨Engine.Act.splice_ne_nil _ _ (Text.lines_ne_nil text), fun l hl => ?_⟩
  simp only [Buffer.replaceLines, splice, List.mem_append] at hl
  rcases hl with (hl | hl) | hl
  · exact (split_iff.1 h).2 l (List.mem_of_mem_take hl)
  · exact Text.no_newline_of_mem_lines hl
  · exact (split_iff.1 h).2 l (List.mem_of_mem_drop hl)

end Buffer

namespace Engine

open Script Tasks

/-- The buffer, if there is one, is split. -/
abbrev Splits : Scene → Prop := Act.OnEdit fun buffer _ => ∀ b, buffer = some b → b.Split

theorem Splits.sturdy {s : Scene} (h : Splits s) : Act.OnEdit Sturdy s :=
  fun b hb => (Buffer.split_iff.1 (h b hb)).1

theorem Splits.of_lines {s s' : Scene} (h : Splits s)
    (hlines : s'.buffer.map (·.lines) = s.buffer.map (·.lines)) : Splits s' := by
  intro b' hb'
  rw [hb', Option.map_some] at hlines
  obtain ⟨b, hb, hsame⟩ := Option.map_eq_some_iff.1 hlines.symm
  obtain ⟨hne, hfree⟩ := Buffer.split_iff.1 (h b hb)
  rw [hsame] at hne hfree
  exact Buffer.split_iff.2 ⟨hne, hfree⟩

section Acts

open Act

theorem keeps_splits_moveCursor (position : Cursor) : Keeps Splits (moveCursor position) := by
  intro s hs
  obtain ⟨b, hrun, hsame⟩ := run_moveCursor hs.sturdy position
  rw [hrun]
  refine hs.of_lines ?_
  have hlines := congrArg (Option.map Prod.fst) hsame
  simpa only [Option.map_map, Function.comp_def, Buffer.unplaced] using hlines

theorem keeps_splits_transformBuffer {engine : Runner} (b : Buffer) (template : String)
    (mode : TransformMode) (children : List ChildTemplate) (s : Scene) (hbuffer : s.buffer = some b)
    (hs : Splits s) : Splits ((transformBuffer engine b template mode children).run s).2 := by
  have hb : b.Split := hs b hbuffer
  rw [transformBuffer_eq]
  refine Keeps.bind keeps_currentCursor (fun cursor => .bind (.ofResult _) fun line => ?_) s hs
  refine .bind (keeps_bufferEntries _ _ _ _) fun (first, entries) => ?_
  obtain ⟨block, before, -, heq⟩ := writeBlock_eq engine b cursor line first entries
  change Keeps Splits (writeBlock engine b cursor line first entries)
  rw [heq]
  refine .bind (.modify fun _ _ b' hb' => ?_) fun _ => .bind (keeps_splits_moveCursor _) fun _ =>
    keeps_setLine _
  cases hb'
  exact hb.replaceLines _ _ block

section Insert

variable {b : Buffer} {s : Scene}

/-- Entries as the lines that are written for them below a line. -/
def entryLines (engine : Runner) (line bullet : String) (entries : List (Int × String)) :
    List String :=
  entries.map fun (depth, text) =>
    Text.leadingBlanks line ++ Text.repeated engine.settings.indentUnit depth.toNat ++ bullet ++ " " ++
      text

/-- Lines are put below the cursor as they are written, or nothing is changed. -/
theorem insertBelow_cases (engine : Runner) (bullet : String) (entries : List (Int × String))
    (hbuffer : s.buffer = some b) :
    (∃ f, (insertBelow engine bullet entries).run s = (.error f, s)) ∨
      ∃ line place s' b', lineAt b.lines s.cursor.line = .ok line ∧
        (insertBelow engine bullet entries).run s = (.ok (), s') ∧ s'.buffer = some b' ∧
        b'.lines = (b.insertLines place (entryLines engine line bullet entries)).lines := by
  have hcurrent : currentCursor.run s = (.ok s.cursor, s) := rfl
  cases hline : lineAt b.lines s.cursor.line with
  | error f =>
    refine .inl ⟨f, ?_⟩
    simp only [insertBelow, Act.buffer, run_bind, run_get, hbuffer, run_pure, hcurrent,
      run_ofResult, hline]
  | ok line =>
    generalize hnew : entryLines engine line bullet entries = new
    have hmap := hnew
    rw [entryLines] at hmap
    cases hlast : new.getLast? with
    | none =>
      obtain rfl := List.getLast?_eq_none_iff.1 hlast
      refine .inr ⟨line, 0, s, b, rfl, ?_, hbuffer, by rw [hnew, Buffer.insertLines_nil]⟩
      simp only [insertBelow, Act.buffer, run_bind, run_get, hbuffer, run_pure, hcurrent,
        run_ofResult, hline, hmap, hlast]
    | some last =>
      cases hstop : Outline.blockEndAt b.lines s.cursor.line with
      | error f =>
        refine .inl ⟨f, ?_⟩
        simp only [insertBelow, Act.buffer, run_bind, run_get, hbuffer, run_pure, hcurrent,
          run_ofResult, hline, hmap, hlast, hstop]
      | ok stop =>
        have hmem : last ∈ (b.insertLines stop new).lines :=
          Buffer.mem_insertLines.2 (.inr (List.mem_of_getLast? hlast))
        have hsturdy : OnEdit Sturdy { s with buffer := some (b.insertLines stop new) } := by
          rintro _ ⟨⟩
          exact List.ne_nil_of_mem hmem
        obtain ⟨moved, hmove, hsame⟩ :=
          run_moveCursor hsturdy ⟨stop + new.length, last.length⟩
        obtain ⟨b', rfl, hb'⟩ := Option.map_eq_some_iff.1 hsame
        refine .inr ⟨line, stop, _, b', rfl, Eq.trans ?_ hmove, rfl, ?_⟩
        · simp only [insertBelow, Act.buffer, run_bind, run_get, hbuffer, run_pure, hcurrent,
            run_ofResult, hline, hmap, hlast, hstop, setBuffer, run_modify]
        · rw [hnew]
          exact congrArg Prod.fst hb'

end Insert

end Acts

namespace Adding

variable {engine : Runner} {s s' : Scene} {a : Adding} {texts : List String}

/-- Whether the step edits the document of the item at hand. -/
def editsItem (engine : Runner) (s : Scene) : Adding → Bool
  | .append .. => s.item.isSome
  | .shell .. => s.item.isSome && engine.tasks.isSome

/-- The lines that the step adds for its texts to the buffer of a scene. -/
def addedFor (engine : Runner) (a : Adding) (s : Scene) (texts : List String) : List String :=
  match s.buffer with
  | none => []
  | some b =>
    match a.editsItem engine s, Act.lineAt b.lines s.cursor.line with
    | false, .ok line => a.written engine.settings.indentUnit line texts
    | _, _ => []

/-- The lines that the step adds to the buffer of a scene. -/
def added (engine : Runner) (a : Adding) (s : Scene) : List String :=
  match ((a.texts engine).run s).1 with
  | .ok texts => a.addedFor engine s texts
  | .error _ => []

theorem addedFor_of_editsItem (h : a.editsItem engine s = true) : a.addedFor engine s texts = [] := by
  unfold addedFor
  split
  · rfl
  · simp [h]

theorem addedFor_nil : a.addedFor engine s [] = [] := by
  unfold addedFor
  split
  · rfl
  · split <;> rfl

theorem addedFor_of_beside (h : Beside s s') : a.addedFor engine s' texts = a.addedFor engine s texts := by
  obtain ⟨-, hitem, hbuffer, hcursor⟩ := h
  have hsame : a.editsItem engine s' = a.editsItem engine s := by cases a <;> simp [editsItem, hitem]
  simp only [addedFor, Scene.cursor, hbuffer, hcursor, hsame]

/-- The lines of the second buffer are those of the first with others put in somewhere. -/
def Grows (s s' : Scene) (new : List String) : Prop :=
  ∃ place, s'.buffer.map (·.lines) = s.buffer.map fun b => (b.insertLines place new).lines

theorem Grows.of_eq (h : s'.buffer = s.buffer) : Grows s s' [] :=
  ⟨0, by simp only [h, Buffer.insertLines_nil]⟩

/-- A buffer that is split stays so if single lines are put in. -/
theorem Grows.splits {new : List String} (h : Grows s s' new) (hs : Splits s)
    (hnew : ∀ l ∈ new, '\n' ∉ l.toList) : Splits s' := by
  obtain ⟨place, hlines⟩ := h
  intro b' hb'
  rw [hb', Option.map_some] at hlines
  obtain ⟨b, hb, hsame⟩ := Option.map_eq_some_iff.1 hlines.symm
  have hsplit := ((hs b hb).insertLines_iff place new).2 hnew
  rwa [Buffer.split_iff, hsame, ← Buffer.split_iff] at hsplit

theorem Grows.mem {new : List String} (h : Grows s s' new) {b : Buffer} (hbuffer : s.buffer = some b)
    {l : String} (hl : l ∈ new) : ∃ b', s'.buffer = some b' ∧ l ∈ b'.lines := by
  obtain ⟨place, hlines⟩ := h
  rw [hbuffer, Option.map_some] at hlines
  obtain ⟨b', hb', hsame⟩ := Option.map_eq_some_iff.1 hlines
  exact ⟨b', hb', hsame ▸ Buffer.mem_insertLines.2 (.inr hl)⟩

theorem put_of_editsItem (texts : List String) (h : a.editsItem engine s = true) :
    ((a.put engine texts).run s).2.buffer = s.buffer := by
  have hkeeps {m : Act Unit} (hm : Act.Keeps (Act.OnEdit fun buffer _ => buffer = s.buffer) m) :
      (m.run s).2.buffer = s.buffer := hm s rfl
  cases a with
  | append template indent =>
    have hitem : s.item.isSome = true := h
    rw [put, Act.run_bind, Act.run_get]
    dsimp only
    rw [if_pos hitem]
    exact hkeeps (.bind (Act.keeps_require _ _) fun editor => Act.keeps_updateItem _ _)
  | shell command storeAs timeoutMs =>
    obtain ⟨hitem, htasks⟩ := Bool.and_eq_true_iff.1 h
    obtain ⟨item, hitem⟩ := Option.isSome_iff_exists.1 hitem
    obtain ⟨editor, htasks⟩ := Option.isSome_iff_exists.1 htasks
    simp only [put, Act.addOutput]
    split
    · rfl
    · simp only [Act.run_bind, Act.run_get, hitem, htasks]
      exact hkeeps (Act.keeps_updateItem _ _)

theorem grows_insertBelow (h : a.editsItem engine s = false) {b : Buffer}
    (hbuffer : s.buffer = some b)
    (hrun : (a.put engine texts).run s =
      (Act.insertBelow engine a.bullet (texts.map fun text => (a.depth, text))).run s) :
    (∃ f s', (a.put engine texts).run s = (.error f, s') ∧ s'.buffer = s.buffer) ∨
      ∃ s', (a.put engine texts).run s = (.ok (), s') ∧ Grows s s' (a.addedFor engine s texts) := by
  rw [hrun]
  rcases insertBelow_cases engine a.bullet (texts.map fun text => (a.depth, text)) hbuffer with
    ⟨f, herror⟩ | ⟨line, place, s', b', hline, hok, hbuffer', hb'⟩
  · exact .inl ⟨f, s, herror, rfl⟩
  · refine .inr ⟨s', hok, place, ?_⟩
    have hadded : a.addedFor engine s texts =
        entryLines engine line a.bullet (texts.map fun text => (a.depth, text)) := by
      simp only [addedFor, hbuffer, h, hline, written, entryLines, List.map_map]
      rfl
    rw [hbuffer', hbuffer, Option.map_some, Option.map_some, hb', hadded]

/-- What a step does with its texts: it fails and leaves the buffer, or it puts its lines in. -/
theorem put_cases (engine : Runner) (a : Adding) (texts : List String) (s : Scene) :
    (∃ f s', (a.put engine texts).run s = (.error f, s') ∧ s'.buffer = s.buffer) ∨
      ∃ s', (a.put engine texts).run s = (.ok (), s') ∧ Grows s s' (a.addedFor engine s texts) := by
  cases hedits : a.editsItem engine s with
  | true =>
    have hbuffer := put_of_editsItem texts hedits
    rcases hrun : (a.put engine texts).run s with ⟨f | ⟨⟩, s'⟩
    · exact .inl ⟨f, s', rfl, by rwa [hrun] at hbuffer⟩
    · rw [addedFor_of_editsItem hedits]
      exact .inr ⟨s', rfl, .of_eq (by rwa [hrun] at hbuffer)⟩
  | false =>
    cases a with
    | append template indent =>
      have hitem : s.item.isSome = false := hedits
      cases hbuffer : s.buffer with
      | none =>
        refine .inl ⟨.action (.needsTarget "append"), s, ?_, hbuffer⟩
        simp only [put, Act.run_bind, Act.run_get, hitem, hbuffer, Option.isSome_none,
          Bool.false_eq_true, if_false]
        rfl
      | some b =>
        refine hbuffer ▸ grows_insertBelow hedits hbuffer ?_
        simp only [put, Act.run_bind, Act.run_get, hitem, hbuffer, Option.isSome_some,
          Bool.false_eq_true, if_false, if_true]
        rfl
    | shell command storeAs timeoutMs =>
      cases texts with
      | nil => exact .inr ⟨s, rfl, by rw [addedFor_nil]; exact .of_eq rfl⟩
      | cons text rest =>
        have hput : (put engine (text :: rest) (.shell command storeAs timeoutMs)).run s =
            (if s.buffer.isSome then Act.insertBelow engine "+"
              ((text :: rest).map fun text => (1, text)) else pure ()).run s := by
          simp only [put, Act.addOutput, List.isEmpty_cons, Bool.false_eq_true, if_false,
            Act.run_bind, Act.run_get]
          split
          · rename_i hitem htasks
            simp [editsItem, hitem, htasks] at hedits
          · rfl
        cases hbuffer : s.buffer with
        | none =>
          refine .inr ⟨s, ?_, 0, by rw [hbuffer]; rfl⟩
          simp only [hput, hbuffer, Option.isSome_none, Bool.false_eq_true, if_false, Act.run_pure]
        | some b =>
          refine hbuffer ▸ grows_insertBelow hedits hbuffer ?_
          simp only [hput, hbuffer, Option.isSome_some, if_true]
          rfl

/-- What a step does: it fails and leaves the buffer, or it puts its lines in. -/
theorem perform_cases (engine : Runner) (a : Adding) (s : Scene) :
    (∃ f s', (engine.perform a.step).run s = (.error f, s') ∧ s'.buffer = s.buffer) ∨
      ∃ s', (engine.perform a.step).run s = (.ok (), s') ∧ Grows s s' (a.added engine s) := by
  rw [perform_step, Act.run_bind]
  rcases hrun : (a.texts engine).run s with ⟨f | texts, s₁⟩
  · exact .inl ⟨f, s₁, rfl, (beside_of_texts hrun).2.2.1⟩
  · have hbeside : Beside s s₁ := beside_of_texts hrun
    have hadded : a.added engine s = a.addedFor engine s₁ texts := by
      rw [addedFor_of_beside hbeside, added, hrun]
    rcases put_cases engine a texts s₁ with ⟨f, s', hput, hbuffer⟩ | ⟨s', hput, place, hgrows⟩
    · exact .inl ⟨f, s', hput, hbuffer.trans hbeside.2.2.1⟩
    · exact .inr ⟨s', hput, place, by rw [hadded, hgrows, hbeside.2.2.1]⟩

end Adding

namespace Adding

theorem no_newline_of_mem_boundaryLinesFrom {line cs l : List Char} (h : '\n' ∉ line)
    (hl : l ∈ Text.boundaryLinesFrom line cs) : '\n' ∉ l := by
  fun_induction Text.boundaryLinesFrom line cs with
  | case1 => cases hl
  | case2 line _ =>
    rw [List.mem_singleton.1 hl]
    simpa using h
  | case3 line rest ih =>
    rcases List.mem_cons.1 hl with rfl | hl
    · simpa using h
    · exact ih (by simp) hl
  | case4 line c rest _ _ ih =>
    rcases List.mem_cons.1 hl with rfl | hl
    · simpa using h
    · exact ih (by simp) hl
  | case5 line c rest _ hc ih =>
    refine ih ?_ hl
    rintro hmem
    rcases List.mem_cons.1 hmem with rfl | hmem
    · exact hc (by decide)
    · exact h hmem

/-- What an act gives, if it gives anything. -/
def Gives {α : Type} (Q : α → Prop) (m : Act α) : Prop := ∀ s a s', m.run s = (.ok a, s') → Q a

theorem Gives.bind {α β : Type} {Q : β → Prop} {m : Act α} {k : α → Act β}
    (hk : ∀ a, Gives Q (k a)) : Gives Q (m >>= k) := by
  intro s b s' h
  obtain ⟨a, s₁, -, h⟩ := Act.of_run_bind_ok h
  exact hk a s₁ b s' h

/-- The lines of an output hold no newline. -/
theorem gives_shell_texts (engine : Runner) (command : String) (storeAs : Option Value)
    (timeoutMs : Option Int) :
    Gives (fun texts => ∀ text ∈ texts, '\n' ∉ text.toList)
      ((Adding.shell command storeAs timeoutMs).texts engine) := by
  have houtput (output : String) : Gives (fun texts => ∀ text ∈ texts, '\n' ∉ text.toList)
      (pure ((Text.boundaryLines output).filter (!Text.isBlankText ·))) := by
    rintro s _ _ ⟨⟩ text htext
    obtain ⟨l, hl, rfl⟩ := List.mem_map.1 (List.mem_filter.1 htext).1
    rw [String.toList_ofList]
    exact no_newline_of_mem_boundaryLinesFrom List.not_mem_nil hl
  rw [Adding.texts]
  split
  all_goals repeat' first | exact houtput _ | refine .bind fun _ => ?_

theorem no_newline_repeated {unit : String} (h : '\n' ∉ unit.toList) (n : Nat) :
    '\n' ∉ (Text.repeated unit n).toList := by
  simp only [Text.repeated, String.toList_ofList, List.mem_flatten, List.mem_replicate]
  rintro ⟨_, ⟨-, rfl⟩, hmem⟩
  exact h hmem

/-- A line that is written for a text holds a newline only if the text does. -/
theorem no_newline_written {unit line : String} {a : Adding} {texts : List String}
    (hunit : '\n' ∉ unit.toList) (hline : '\n' ∉ line.toList) :
    (∀ l ∈ a.written unit line texts, '\n' ∉ l.toList) ↔ ∀ text ∈ texts, '\n' ∉ text.toList := by
  have hbase : '\n' ∉ (Text.leadingBlanks line).toList := fun h =>
    hline ((List.takeWhile_sublist _).subset (by simpa [Text.leadingBlanks] using h))
  have hbullet : '\n' ∉ a.bullet.toList := by cases a <;> simp [bullet]
  simp [written, hbase, no_newline_repeated hunit, hbullet]

theorem mem_of_lineAt {ls : List String} {index : Int} {line : String}
    (h : Act.lineAt ls index = .ok line) : line ∈ ls := by
  unfold Act.lineAt at h
  dsimp only at h
  generalize (if index < 0 then index + (ls.length : Int) else index) = i at h
  split at h
  · rename_i hfound
    cases h
    rw [Option.ite_none_right_eq_some] at hfound
    exact List.mem_of_getElem? hfound.2
  · cases h

/-- Of lines that are written for texts, those go into the buffer that stand below one of its lines. -/
theorem mem_added {engine : Runner} {a : Adding} {s : Scene} {l : String} (h : l ∈ a.added engine s) :
    ∃ b line texts s', s.buffer = some b ∧ line ∈ b.lines ∧
      (a.texts engine).run s = (.ok texts, s') ∧ l ∈ a.written engine.settings.indentUnit line texts := by
  unfold added addedFor at h
  split at h
  · rename_i texts htexts
    split at h
    · cases h
    · rename_i b hbuffer
      split at h
      · rename_i line _ hline
        refine ⟨b, line, texts, _, hbuffer, ?_, Prod.ext htexts rfl, h⟩
        exact mem_of_lineAt hline
      · cases h
  · cases h

/-- A step that adds the output of a command adds single lines. -/
theorem no_newline_of_mem_added_shell {engine : Runner} {command : String} {storeAs : Option Value}
    {timeoutMs : Option Int} {s : Scene} {l : String} (hunit : '\n' ∉ engine.settings.indentUnit.toList)
    (hs : Splits s) (h : l ∈ (Adding.shell command storeAs timeoutMs).added engine s) :
    '\n' ∉ l.toList := by
  obtain ⟨b, line, texts, s', hbuffer, hline, htexts, hl⟩ := mem_added h
  have hfree := (Buffer.split_iff.1 (hs b hbuffer)).2 line hline
  refine (no_newline_written hunit hfree).2 ?_ l hl
  exact gives_shell_texts engine command storeAs timeoutMs s texts s' htexts

end Adding

namespace Watched

variable {α β : Type} {C : Event → Prop} {P : Scene → Prop}
  {R : Option String → Option Buffer → Option Cursor → Prop} {root : List Action}
  {perform : Step → Act Unit} {p : Spot}

/-- Runs that have `P` in all of their scenes, from one with `P` on, if all of their events have `C`. -/
def Carries (C : Event → Prop) (P : Scene → Prop) (w : Watched α) : Prop :=
  ∀ s, P s → (∀ e ∈ (w s).events, C e) → (∀ e ∈ (w s).events, P e.scene) ∧ P (w s).scene

namespace Carries

theorem quiet {m : Act α} (hm : Act.Keeps P m) : Carries C P (quiet m) :=
  fun s hs _ => ⟨fun _ he => absurd he List.not_mem_nil, hm s hs⟩

theorem pure (a : α) : Carries C P (pure a : Watched α) := quiet (.pure a)

theorem tell (what : Happening) : Carries C P (tell p what) := by
  refine fun s hs _ => ⟨fun e he => ?_, hs⟩
  rw [List.mem_singleton.1 he]
  exact hs

theorem own {m : Act α} (hm : Act.Keeps P m) : Carries C P (own p m) := by
  intro s hs _
  have h := hm s hs
  rw [Watched.own]
  rcases hrun : m.run s with ⟨f | a, s'⟩
  · rw [hrun] at h
    exact ⟨by simpa using h, h⟩
  · rw [hrun] at h
    exact ⟨by simp, h⟩

/-- A step that keeps the property if it fails, or if it is done as `C` says. -/
theorem step {m : Act Unit} (herror : ∀ s f s', P s → m.run s = (.error f, s') → P s')
    (hok : ∀ s s', P s → m.run s = (.ok (), s') → C ⟨p, .does s, s'⟩ → P s') :
    Carries C P (step p m) := by
  intro s hs
  rw [Watched.step]
  rcases hrun : m.run s with ⟨f | ⟨⟩, s'⟩
  · have h := herror s f s' hs hrun
    exact fun _ => ⟨by simpa using h, h⟩
  · intro hC
    have h := hok s s' hs hrun (hC _ (List.mem_singleton_self _))
    exact ⟨by simpa using h, h⟩

theorem append {es es' : List Event} {s s' : Scene}
    (h : (∀ e ∈ es, C e) → (∀ e ∈ es, P e.scene) ∧ P s)
    (h' : P s → (∀ e ∈ es', C e) → (∀ e ∈ es', P e.scene) ∧ P s')
    (hC : ∀ e ∈ es ++ es', C e) : (∀ e ∈ es ++ es', P e.scene) ∧ P s' := by
  obtain ⟨hbefore, hs⟩ := h fun e he => hC e (List.mem_append_left _ he)
  obtain ⟨hafter, hs'⟩ := h' hs fun e he => hC e (List.mem_append_right _ he)
  exact ⟨fun e he => (List.mem_append.1 he).elim (hbefore e) (hafter e), hs'⟩

theorem bind {m : Watched α} {k : α → Watched β} (hm : Carries C P m) (hk : ∀ a, Carries C P (k a)) :
    Carries C P (m >>= k) := by
  intro s hs
  rw [bind_apply, goOn]
  cases (m s).result with
  | error f => exact hm s hs
  | ok a => exact append (hm s hs) (hk a _)

theorem rescue {m : Watched α} {k : Failure → Watched α} (hm : Carries C P m)
    (hk : ∀ f, Carries C P (k f)) : Carries C P (rescue m k) := by
  intro s hs
  rw [Watched.rescue]
  split
  · exact hm s hs
  · exact append (hm s hs) (hk _ _)

theorem attempt {onError : List Action} {handler body : Watched Unit}
    (hhandler : Carries C (Act.OnSite R) handler) (hbody : Carries C (Act.OnSite R) body) :
    Carries C (Act.OnSite R) (attempt p onError handler body) := by
  have hown : Carries C (Act.OnSite R) (do Watched.tell p .begins; body) :=
    .bind (.tell _) fun _ => hbody
  rw [Watched.attempt]
  dsimp only
  split
  · exact .bind hown fun _ => .tell _
  · refine .bind (.rescue hown fun f => .bind (.quiet (Act.keeps_noteFailure f)) fun _ => ?_)
      fun _ => .tell _
    exact .bind (.tell _) fun _ => hhandler

section Moves

variable (hmove : ∀ position, Act.Keeps (Act.OnSite R) (Act.moveCursor position))
include hmove

theorem rounds {itemName indexName : Value} {anchor : Option Cursor} {body : Nat → Watched Unit}
    (hbody : ∀ k, Carries C (Act.OnSite R) (body k)) (values : List Value) (k : Nat)
    (last : Option Cursor) :
    Carries C (Act.OnSite R) (rounds p itemName indexName anchor body k last values) := by
  induction values generalizing k last with
  | nil => exact .pure _
  | cons item rest ih =>
    rw [Watched.rounds]
    refine .bind (.own (Act.keeps_enterRound hmove _ _ _ _ _)) fun _ => ?_
    refine .bind (hbody k) fun _ => .bind (.quiet .context) fun c => ?_
    split
    · exact .pure _
    · exact ih _ _

theorem loop {reference : String} {itemName : Value} {indexName : Option Value}
    {body : Nat → Watched Unit} (hbody : ∀ k, Carries C (Act.OnSite R) (body k)) :
    Carries C (Act.OnSite R) (loop p reference itemName indexName body) := by
  refine .bind (.own (Act.keeps_items _)) fun values => .bind (.quiet Act.keeps_anchorCursor) ?_
  intro anchor
  refine .bind (.rescue (.rounds hmove hbody values 0 anchor) fun f => .quiet ?_) fun last => ?_
  · exact .bind (Act.keeps_dropNames _ _) fun _ => .throw f
  · refine .bind (.own (Act.keeps_dropNames _ _)) fun _ => ?_
    exact .own (Act.keeps_moveBack hmove last)

end Moves

end Carries

mutual

theorem carries_action (hmove : ∀ position, Act.Keeps (Act.OnSite R) (Act.moveCursor position))
    (hstep : ∀ leaf onError line p, actionAt? root p = some (.step leaf onError line) →
      Carries C (Act.OnSite R) (step p (perform leaf))) :
    ∀ (a : Action) (p : Spot), actionAt? root p = some a →
      Carries C (Act.OnSite R) (action perform p a)
  | .step leaf onError line, p, ha => by
    refine .attempt (carries_sequence hmove hstep onError _ 0 (sequenceAt_inside ha _)) ?_
    exact hstep leaf onError line p ha
  | .branch condition yes no onError line, p, ha => by
    refine .attempt (carries_sequence hmove hstep onError _ 0 (sequenceAt_inside ha _)) ?_
    refine .bind (.own (Act.keeps_holds condition)) fun b => ?_
    split
    · exact carries_sequence hmove hstep yes _ 0 (sequenceAt_inside ha _)
    · exact carries_sequence hmove hstep no _ 0 (sequenceAt_inside ha _)
  | .loop reference itemName indexName body onError line, p, ha => by
    refine .attempt (carries_sequence hmove hstep onError _ 0 (sequenceAt_inside ha _)) ?_
    exact .loop hmove fun k => carries_sequence hmove hstep body _ 0 (sequenceAt_inside ha _)

/-- What the steps carry, and the moves of loops keep, a whole run carries. -/
theorem carries_sequence (hmove : ∀ position, Act.Keeps (Act.OnSite R) (Act.moveCursor position))
    (hstep : ∀ leaf onError line p, actionAt? root p = some (.step leaf onError line) →
      Carries C (Act.OnSite R) (step p (perform leaf))) :
    ∀ (as : List Action) (route : Route) (i : Nat), (sequenceAt root route).drop i = as →
      Carries C (Act.OnSite R) (sequence perform route i as)
  | [], _, _, _ => .pure ()
  | first :: rest, route, i, h => by
    obtain ⟨hi, hrest⟩ := actionAt?_of_drop h
    rw [sequence]
    refine .bind (.quiet .context) fun c => ?_
    split
    · exact .pure _
    · exact .bind (carries_action hmove hstep first _ hi) fun _ =>
        carries_sequence hmove hstep rest route (i + 1) hrest

end

end Watched

section Run

open Watched

variable {engine : Runner} {root : List Action}

/-- What a step that is done adds to the buffer is added as single lines. -/
def AddsLines (engine : Runner) (root : List Action) (e : Event) : Prop :=
  ∀ (s : Scene) (a : Adding) (onError : List Action) (line : Option Nat), e.what = .does s →
    actionAt? root e.spot = some (.step a.step onError line) →
      ∀ l ∈ a.added engine s, '\n' ∉ l.toList

theorem Adding.exists_step {leaf : Step} (h : Act.putsBelow leaf = true) :
    ∃ a : Adding, leaf = a.step := by
  cases leaf with
  | append template indent => exact ⟨.append template indent, rfl⟩
  | shell command storeAs timeoutMs => exact ⟨.shell command storeAs timeoutMs, rfl⟩
  | _ => cases h

theorem carries_splits_step {leaf : Step} {onError : List Action} {line : Option Nat} {p : Spot}
    (ha : actionAt? root p = some (.step leaf onError line)) :
    Carries (AddsLines engine root) Splits (step p (engine.perform leaf)) := by
  cases hleaf : Act.putsBelow leaf with
  | false =>
    have hkeeps : Act.Keeps Splits (engine.perform leaf) :=
      Act.keeps_perform_of_not_putsBelow keeps_splits_transformBuffer leaf hleaf
    refine .step (fun s f s' hs hrun => ?_) fun s s' hs hrun _ => ?_
    all_goals
      have h := hkeeps s hs
      rwa [hrun] at h
  | true =>
    obtain ⟨a, rfl⟩ := Adding.exists_step hleaf
    refine .step (fun s f s' hs hrun => ?_) fun s s' hs hrun hadds => ?_
    · rcases a.perform_cases engine s with ⟨f, s'', hrun', hbuffer⟩ | ⟨s'', hrun', -⟩
      · cases hrun.symm.trans hrun'
        exact hs.of_lines (by rw [hbuffer])
      · cases hrun.symm.trans hrun'
    · rcases a.perform_cases engine s with ⟨f, s'', hrun', -⟩ | ⟨s'', hrun', hgrows⟩
      · cases hrun.symm.trans hrun'
      · cases hrun.symm.trans hrun'
        exact hgrows.splits hs (hadds s a onError line rfl ha)

/-- A step that is done in a scene and leaves a split buffer has added single lines. -/
theorem addsLines_of_splits {e : Event} (hgenuine : Genuine root engine.perform e)
    (hsplits : Splits e.scene) : AddsLines engine root e := by
  intro s a onError line hdoes ha l hl
  obtain ⟨leaf, onError', line', ha', hrun⟩ := hgenuine s hdoes
  rw [ha] at ha'
  cases ha'
  obtain ⟨b, _, _, _, hbuffer, -⟩ := Adding.mem_added hl
  rcases a.perform_cases engine s with ⟨f, s', hrun', -⟩ | ⟨s', hrun', hgrows⟩
  · cases hrun.symm.trans hrun'
  · cases hrun.symm.trans hrun'
    obtain ⟨b', hb', hmem⟩ := hgrows.mem hbuffer hl
    exact (Buffer.split_iff.1 (hsplits b' hb')).2 l hmem

/-- A note leaves a split buffer exactly if it is a single line. -/
theorem noteBelow_split_iff {b : Binding} {o : Outcome} {d d' : Desk} {buffer : Buffer}
    (hbuffer : d.buffer = some buffer) (hsplit : buffer.Split)
    (h : (b.noteBelow o).run d = (.ok (), d')) :
    ∃ line buffer', buffer.line (o.context.cursor.getD buffer.cursor).line = .ok line ∧
      d'.buffer = some buffer' ∧ (buffer'.Split ↔ '\n' ∉ (b.noteOf line o).toList) := by
  have hline : buffer.HasLine (o.context.cursor.getD buffer.cursor).line := by
    cases hread : buffer.line (o.context.cursor.getD buffer.cursor).line with
    | ok line => exact Buffer.hasLine_of_line_ok hread
    | error f =>
      simp only [Binding.noteBelow, Deal.run_bind, Deal.run_get, hbuffer, Deal.run_ofResult,
        hread] at h
      cases h
  obtain ⟨line, buffer', hread, hrun, hlines⟩ := run_noteBelow b hbuffer hline
  cases h.symm.trans hrun
  refine ⟨line, buffer', hread, rfl, ?_⟩
  have hiff := hsplit.insertLines_iff (o.context.cursor.getD buffer.cursor).line [b.noteOf line o]
  rw [List.forall_mem_singleton] at hiff
  rw [← hiff, Buffer.split_iff, Buffer.split_iff, hlines]

/-- The buffer of a run, made from a text, stays the lines of its text exactly as long as what the
steps add to it are single lines. Those that commands put out are, unless lines are indented by a
newline; and the note of a failed run is one or not as the message is. -/
theorem lines_split_iff (engine : Runner) (config : Config) (kind : String) {scene : Scene}
    {buffer : Buffer} {text : String} (hbuffer : scene.buffer = some buffer)
    (hlines : buffer.lines = Text.lines text) :
    let t := trailOf engine.perform config kind scene
    ((∀ e ∈ t.events, Splits e.scene) ↔
        ∀ e ∈ t.events, AddsLines engine (actionsOf config kind) e) ∧
      ('\n' ∉ engine.settings.indentUnit.toList → ∀ s command storeAs timeoutMs, Splits s →
        ∀ l ∈ (Adding.shell command storeAs timeoutMs).added engine s, '\n' ∉ l.toList) ∧
      ∀ (b : Binding) (o : Outcome) (d d' : Desk) (before : Buffer), d.buffer = some before →
        before.Split → (b.noteBelow o).run d = (.ok (), d') →
          ∃ line after, before.line (o.context.cursor.getD before.cursor).line = .ok line ∧
            d'.buffer = some after ∧ (after.Split ↔ '\n' ∉ (b.noteOf line o).toList) := by
  intro t
  have hsplits : Splits (scene.enter config kind) := by
    intro b hb
    obtain rfl := Option.some.inj (hbuffer.symm.trans hb)
    exact .of_lines hlines
  refine ⟨⟨fun hall e he => ?_, fun hadds => ?_⟩, ?_, fun b o d d' before => noteBelow_split_iff⟩
  · exact addsLines_of_splits (genuine_sequence _ [] 0 List.drop_zero _ e he) (hall e he)
  · exact (carries_sequence keeps_splits_moveCursor (fun _ _ _ _ ha => carries_splits_step ha)
      (actionsOf config kind) [] 0 List.drop_zero _ hsplits hadds).1
  · exact fun hunit s command storeAs timeoutMs hs l => Adding.no_newline_of_mem_added_shell hunit hs

/-- A script that adds a line for a variable. -/
def pasting : Config where
  triggers := [⟨.onEnter, [.step (.append "\x7b\x7bx\x7d\x7d" 1) [] none]⟩]
  tag := "paste"
  settings := []

/-- The variable holds two lines. -/
def pastingScene : Scene where
  world := bareScene.world
  buffer := some (Buffer.ofText "- T")
  context := { vars := [("x", .str "a\nb")] }

theorem exists_pasted :
    ∃ e ∈ (trailOf bareRunner.perform pasting "onEnter" pastingScene).events,
      e.scene.buffer.map (·.lines) = some ["- T", "  - a\nb"] := by
  have hmem : some ["- T", "  - a\nb"] ∈
      (trailOf bareRunner.perform pasting "onEnter" pastingScene).events.map
        (·.scene.buffer.map (·.lines)) := by
    decide +kernel
  exact List.mem_map.1 hmem

theorem not_splits_pasted {s : Scene}
    (h : s.buffer.map (·.lines) = some ["- T", "  - a\nb"]) : ¬ Splits s := by
  intro hsplits
  obtain ⟨b, hb, hsame⟩ := Option.map_eq_some_iff.1 h
  have hfree := (Buffer.split_iff.1 (hsplits b hb)).2 "  - a\nb" (by simp [hsame])
  exact hfree (by decide)

/-- What is added is not all single lines. -/
theorem lines_split_iff_pasting :
    let t := trailOf bareRunner.perform pasting "onEnter" pastingScene
    pastingScene.buffer = some (Buffer.ofText "- T") ∧
      (Buffer.ofText "- T").lines = Text.lines "- T" ∧
      ¬ ∀ e ∈ t.events, AddsLines bareRunner (actionsOf pasting "onEnter") e := by
  have hbuffer : pastingScene.buffer = some (Buffer.ofText "- T") := rfl
  have hiff := (lines_split_iff bareRunner pasting "onEnter" hbuffer rfl).1
  obtain ⟨e, he, hlines⟩ := exists_pasted
  exact ⟨hbuffer, rfl, fun hadds => not_splits_pasted hlines (hiff.2 hadds e he)⟩

/-- The line that is added is two lines of the text. -/
theorem not_splits_pasting :
    ∃ e ∈ (trailOf bareRunner.perform pasting "onEnter" pastingScene).events,
      e.scene.buffer.map (·.lines) = some ["- T", "  - a\nb"] ∧ ¬ Splits e.scene := by
  obtain ⟨e, he, hlines⟩ := exists_pasted
  exact ⟨e, he, hlines, not_splits_pasted hlines⟩

end Run

end Engine

end BulletScript
