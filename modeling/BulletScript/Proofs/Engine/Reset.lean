import BulletScript.Proofs.Engine.Clearing
import BulletScript.Proofs.Engine.Deal
import BulletScript.Proofs.Tasks.Finding

/-! Success puts its mark behind the text of an item, and a reset takes the text from the first mark
on away, with the blanks before it. The two undo each other for the texts that hold no mark, end
with no blank, and are found again once the mark is behind them. -/
namespace BulletScript.Engine

open Text Outline Files Tasks

namespace Binding

/-- An item is marked as succeeded, and then reset. -/
def successThenReset (b : Binding) (response : Value) : Deal Outcome := do
  b.onSuccess response
  b.onReset

end Binding

/-- The events end well, and afterwards the item has its text and its document reads as before. -/
def Restores (events : Deal Outcome) (store : Documents.Store) (d : Desk) (item : WorkItem)
    (s : String) : Prop :=
  ∃ outcome d' item', events.run d = (.ok outcome, d') ∧ d'.item = some item' ∧
    item'.text = item.text ∧ store.read d'.world.tree item.path = .ok s

section Mark

theorem cutChars_singleton_append {c : Char} {cs : List Char} (h : c ∉ cs) (rest : List Char) :
    cutChars [c] (cs ++ c :: rest) = some (cs, rest) := by
  induction cs with
  | nil => simp [cutChars]
  | cons d cs ih =>
    rw [List.mem_cons, not_or] at h
    have hd : [c].isPrefixOf (d :: (cs ++ c :: rest)) = false := by
      simp [List.isPrefixOf, h.1]
    rw [List.cons_append, cutChars, if_neg (by simp [hd]), ih h.2]
    rfl

theorem toList_successMark : successMark.toList = ['✓'] := by decide

theorem not_mem_cutSuccess (s : String) : '✓' ∉ (cutSuccess s).toList := by
  unfold cutSuccess cut?
  rw [toList_successMark]
  cases hcut : cutChars ['✓'] s.toList with
  | none => exact cutChars_singleton_none hcut
  | some parts =>
    obtain ⟨before, after⟩ := parts
    intro hmem
    simp only [Option.map_some, trimRight, trimRightChars, String.toList_ofList,
      List.mem_reverse] at hmem
    exact cutChars_singleton_some hcut (List.mem_reverse.1 ((List.dropWhile_sublist _).subset hmem))

variable {text mark : String} {tail : List Char}

theorem cutSuccess_append (htext : '✓' ∉ text.toList) (hmark : mark.toList = '✓' :: tail) :
    cutSuccess (text ++ " " ++ mark) = trimRight text := by
  have hcut : cutChars ['✓'] (text ++ " " ++ mark).toList = some (text.toList ++ [' '], tail) := by
    have hbefore : '✓' ∉ text.toList ++ [' '] := by simpa using htext
    simpa [hmark] using cutChars_singleton_append hbefore tail
  have hblank : isBlank ' ' = true := by decide
  rw [cutSuccess, cut?, toList_successMark, hcut]
  simp [trimRight, trimRightChars, hblank]

/-- Taking the mark away that was put behind a text gives the text back exactly if the text holds no
mark and ends with no blank. -/
theorem cutSuccess_append_iff (hmark : mark.toList = '✓' :: tail) :
    cutSuccess (text ++ " " ++ mark) = text ↔ '✓' ∉ text.toList ∧ trimRight text = text := by
  constructor
  · intro h
    have hnone : '✓' ∉ text.toList := h ▸ not_mem_cutSuccess _
    exact ⟨hnone, (cutSuccess_append hnone hmark).symm.trans h⟩
  · rintro ⟨hnone, htrim⟩
    rw [cutSuccess_append hnone hmark, htrim]

theorem singleLine_padded (width n : Nat) : SingleLine (Calendar.padded width n) := by
  have hdigit : ∀ c ∈ (Calendar.padded width n).toList, c.isDigit = true := by
    intro c hc
    simp only [Calendar.padded, String.toList_ofList, List.mem_append, List.mem_replicate] at hc
    rcases hc with ⟨-, rfl⟩ | hc
    · decide
    · exact Nat.isDigit_of_mem_toDigits (by decide) (by decide) hc
  exact ⟨fun h => absurd (hdigit _ h) (by decide), fun h => absurd (hdigit _ h) (by decide)⟩

/-- With the time behind it or not, the mark of success begins with the sign and is one line. -/
theorem mark_of_stamp {b : Binding} (h : b.stamp successMark = mark) :
    (∃ tail, mark.toList = '✓' :: tail) ∧ SingleLine mark := by
  have hsign : SingleLine successMark := ⟨by decide, by decide⟩
  have hshape {after : String} (hafter : SingleLine after) :
      (∃ tail, (successMark ++ after).toList = '✓' :: tail) ∧ SingleLine (successMark ++ after) :=
    ⟨⟨after.toList, by rw [String.toList_append, toList_successMark]; rfl⟩,
      singleLine_append.2 ⟨hsign, hafter⟩⟩
  unfold Binding.stamp at h
  split at h
  · cases h
    exact ⟨⟨[], toList_successMark⟩, hsign⟩
  · subst h
    simp only [String.append_assoc]
    refine hshape ?_
    have hplain : SingleLine " (" ∧ SingleLine ")" ∧ SingleLine "-" ∧ SingleLine " " ∧
        SingleLine ":" ∧ SingleLine "" := by
      simp only [SingleLine]
      decide
    obtain ⟨hopen, hclose, hdash, hspace, hcolon, hempty⟩ := hplain
    have hdate (date : Calendar.Date) : SingleLine date.text := by
      simp only [Calendar.Date.text, singleLine_append]
      exact ⟨⟨⟨⟨singleLine_padded _ _, hdash⟩, singleLine_padded _ _⟩, hdash⟩,
        singleLine_padded _ _⟩
    rw [singleLine_append, singleLine_append, singleLine_append]
    refine ⟨hopen, hdate _, ?_, hclose⟩
    cases (b.engine.now.onClock b.engine.ahead).time with
    | none => exact hempty
    | some time =>
      simp only [singleLine_append]
      exact ⟨hspace, singleLine_padded _ _, hcolon, singleLine_padded _ _⟩

end Mark

theorem getElem?_append_cons_of_ne {α : Type} {xs ys : List α} {x : α} {i : Nat}
    (h : i ≠ xs.length) (y : α) : (xs ++ x :: ys)[i]? = (xs ++ y :: ys)[i]? := by
  have hset : xs ++ x :: ys = (xs ++ y :: ys).set xs.length x := by simp
  rw [hset, List.getElem?_set_ne h.symm]

theorem ne_empty_of_task {line : String} (htask : (taskLine? line).isSome) : line ≠ "" := by
  rintro rfl
  cases htask

section Events

variable {b : Binding} {d : Desk} {editor : Editor} {item item' : WorkItem} {u : Update}
  {mark : String}

theorem run_onSuccess (hitem : d.item = some item) (hedits : b.editsLine = false)
    (hkeep : b.clearErrors "clearErrorsOnSuccess" = "") (hstamp : b.stamp successMark = mark)
    (hmark : mark ≠ "") (response : Value) :
    (b.onSuccess response).run d = (b.edit (Binding.successEdit mark "")).run { d with
      pending := d.pending.filter (·.1 ≠ item.path) ++ [(item.path, response)] } := by
  rw [Binding.onSuccess]
  simp only [Deal.itemPath, Deal.stash, Deal.run_bind, Deal.run_get, Deal.run_pure, hitem,
    Option.map_some, Option.getD_some, Deal.run_modify, hedits, hstamp, hkeep]
  simp [hmark]

theorem run_onReset (hreset : b.hasTrigger .onReset = false)
    (hkeep : b.clearErrors "clearErrorsOnReset" = "") (d : Desk) :
    b.onReset.run d =
      (do b.edit (Binding.resetEdit ""); b.withoutRun .completed none : Deal Outcome).run d := by
  rw [Binding.onReset, hreset, hkeep]
  rfl

theorem run_withoutRun (hitem : d.item = some item) (state : RunState)
    (error : Option Failure) : ∃ outcome, (b.withoutRun state error).run d = (.ok outcome, d) := by
  rw [Binding.withoutRun, Deal.run_bind, Deal.run_get]
  simp only [hitem]
  exact ⟨_, rfl⟩

/-- What the success of an item leaves: the mark behind the line of its task, and the same text on
the item. -/
theorem run_onSuccess_marked {before after : List String} {line : String}
    (heditor : b.engine.tasks = some editor) (hitem : d.item = some item)
    (hholds : Holds editor.store d.world.tree item.path (before ++ line :: after))
    (hlocate : locate (before ++ line :: after) item = some before.length)
    (htask : (taskLine? line).isSome) (hedits : b.editsLine = false)
    (hkeep : b.clearErrors "clearErrorsOnSuccess" = "") (hstamp : b.stamp successMark = mark)
    (response : Value) :
    ∃ d' item', (b.onSuccess response).run d = (.ok (), d') ∧ d'.item = some item' ∧
      item'.line = before.length ∧ item'.path = item.path ∧
      item'.text = (ListLine.ofText line).content ++ " " ++ mark ∧
      Holds editor.store d'.world.tree item.path (before ++ (line ++ " " ++ mark) :: after) := by
  obtain ⟨⟨tail, hmark⟩, hsingle⟩ := mark_of_stamp hstamp
  have hne : mark ≠ "" := by
    rintro rfl
    cases hmark
  have hlist := bullet_of_task htask
  have hline : SingleLine line := hholds.singleLine line (by simp)
  have hcontent : (Binding.successEdit mark "").content (ListLine.ofText line).content =
      (ListLine.ofText line).content ++ " " ++ mark := by
    simp [Update.content, Binding.successEdit, hne]
  have hchildren (base : String) (old : List String) :
      (Binding.successEdit mark "").children editor.indentUnit base old = old := by
    rw [Update.children, kept_of_no_offsets rfl rfl]
    simp [Update.arrange, Binding.successEdit]
  have hmarked : SingleLine ((ListLine.ofText line).content ++ " " ++ mark) :=
    singleLine_append.2 ⟨singleLine_append.2 ⟨(singleLine_parts hlist hline).2, by decide, by decide⟩,
      hsingle⟩
  obtain ⟨item', tree', hupdate, hplace, hpath, htext, hafter⟩ := hholds.update_content
    (u := Binding.successEdit mark "") hlocate (fun _ => ne_empty_of_task htask) hchildren
    (hcontent ▸ hmarked)
  rw [hcontent] at htext hafter
  rw [← String.append_assoc, ← String.append_assoc, decoration_append_content hlist hline.1]
    at hafter
  rw [run_onSuccess hitem hedits hkeep hstamp hne]
  exact ⟨_, item', run_edit_ok heditor hitem hupdate, rfl, hplace, hpath, htext, hafter⟩

/-- A reset of an item that is found cuts its text at the mark. -/
theorem run_onReset_cut {before after : List String} {line : String}
    (heditor : b.engine.tasks = some editor) (hitem : d.item = some item)
    (hholds : Holds editor.store d.world.tree item.path (before ++ line :: after))
    (hlocate : locate (before ++ line :: after) item = some before.length)
    (hlast : after = [] → line ≠ "") (hcontent : SingleLine (ListLine.ofText line).content)
    (hreset : b.hasTrigger .onReset = false) (hkeep : b.clearErrors "clearErrorsOnReset" = "") :
    ∃ outcome d' item', b.onReset.run d = (.ok outcome, d') ∧ d'.item = some item' ∧
      item'.text = cutSuccess (ListLine.ofText line).content ∧
      Holds editor.store d'.world.tree item.path
        (before ++ (decoration line ++ cutSuccess (ListLine.ofText line).content) :: after) := by
  have hcut (old : String) : (Binding.resetEdit "").content old = cutSuccess old := by
    simp [Update.content, Binding.resetEdit]
  have hchildren (base : String) (old : List String) :
      (Binding.resetEdit "").children editor.indentUnit base old = old := by
    rw [Update.children, kept_of_no_offsets rfl rfl]
    simp [Update.arrange, Binding.resetEdit]
  obtain ⟨item', tree', hupdate, -, -, htext, hafter⟩ := hholds.update_content
    (u := Binding.resetEdit "") hlocate hlast hchildren
    (by rw [hcut]; exact hcontent.of_subset (cutSuccess_subset _))
  rw [hcut] at htext hafter
  let d₁ : Desk := { d with item := some item', world := { d.world with tree := tree' } }
  obtain ⟨outcome, houtcome⟩ := run_withoutRun (b := b) (d := d₁) rfl .completed none
  refine ⟨outcome, d₁, item', ?_, rfl, htext, hafter⟩
  rw [run_onReset hreset hkeep, Deal.run_bind, run_edit_ok heditor hitem hupdate]
  exact houtcome

theorem run_onReset_not_found {ls : List String} (heditor : b.engine.tasks = some editor)
    (hitem : d.item = some item) (hholds : Holds editor.store d.world.tree item.path ls)
    (hlocate : locate ls item = none) (hreset : b.hasTrigger .onReset = false)
    (hkeep : b.clearErrors "clearErrorsOnReset" = "") :
    ∃ failure, b.onReset.run d = (.error failure, { d with item := some item }) := by
  obtain ⟨failure, hfails⟩ := hholds.update_not_found hlocate (Binding.resetEdit "")
  refine ⟨failure, ?_⟩
  rw [run_onReset hreset hkeep, Deal.run_bind, run_edit_error heditor hitem hfails]

variable {before after : List String} {line : String}

/-- The task of a line that does not end with its brackets is found again, and its text and its
document are restored exactly if the text is. -/
theorem restores_iff_of_open (heditor : b.engine.tasks = some editor) (hitem : d.item = some item)
    (hholds : Holds editor.store d.world.tree item.path (before ++ line :: after))
    (hlocate : locate (before ++ line :: after) item = some before.length)
    (htask : (taskLine? line).isSome) (htext : (ListLine.ofText line).content = item.text)
    (hedits : b.editsLine = false) (hreset : b.hasTrigger .onReset = false)
    (hkeep : b.clearErrors "clearErrorsOnSuccess" = "")
    (hkeep' : b.clearErrors "clearErrorsOnReset" = "") (hstamp : b.stamp successMark = mark)
    (hopen : item.text = "" → endsWith "]" line = false) (response : Value) :
    Restores (b.successThenReset response) editor.store d item (unlines (before ++ line :: after)) ↔
      '✓' ∉ item.text.toList ∧ trimRight item.text = item.text := by
  obtain ⟨⟨tail, hmark⟩, hsingle⟩ := mark_of_stamp hstamp
  have hline : SingleLine line := hholds.singleLine line (by simp)
  have hlist := bullet_of_task htask
  have hadded : SingleLine (" " ++ mark) := singleLine_append.2 ⟨⟨by decide, by decide⟩, hsingle⟩
  obtain ⟨d₁, item₁, hrun₁, hitem₁, hplace₁, hpath₁, htext₁, hholds₁⟩ :=
    run_onSuccess_marked heditor hitem hholds hlocate htask hedits hkeep hstamp response
  have hcontent := content_append htask hline.1 hadded.1 (htext ▸ hopen)
  rw [String.append_assoc] at hholds₁
  rw [String.append_assoc] at htext₁
  have hdecoration := decoration_append hlist hline.1 hcontent
  obtain ⟨outcome, d₂, item₂, hrun₂, hitem₂, htext₂, hholds₂⟩ := run_onReset_cut heditor hitem₁
    (hpath₁ ▸ hholds₁) (locate_append hplace₁ (hcontent.trans htext₁.symm))
    (fun _ hempty => by simpa using congrArg String.length hempty) (by
      rw [hcontent]
      exact singleLine_append.2 ⟨(singleLine_parts hlist hline).2, hadded⟩) hreset hkeep'
  rw [hcontent, htext] at htext₂ hholds₂
  have hrun : (b.successThenReset response).run d = (.ok outcome, d₂) := by
    rw [Binding.successThenReset, Deal.run_bind, hrun₁]
    exact hrun₂
  rw [← cutSuccess_append_iff hmark, String.append_assoc]
  constructor
  · rintro ⟨_, d', item', hrun', hitem', htext', -⟩
    cases hrun.symm.trans hrun'
    cases hitem₂.symm.trans hitem'
    exact htext₂.symm.trans htext'
  · intro hcut
    refine ⟨outcome, d₂, item₂, hrun, hitem₂, htext₂.trans hcut, ?_⟩
    have hread := hholds₂.read
    rw [hcut, hdecoration, ← htext, decoration_append_content hlist hline.1] at hread
    exact hpath₁ ▸ hread

/-- Where a line ends with the brackets of its task, its text is not found again behind the mark:
the reset fails, or it edits another line. -/
theorem not_restores_of_closed (heditor : b.engine.tasks = some editor) (hitem : d.item = some item)
    (hholds : Holds editor.store d.world.tree item.path (before ++ line :: after))
    (hlocate : locate (before ++ line :: after) item = some before.length)
    (htask : (taskLine? line).isSome) (hempty : (ListLine.ofText line).content = "")
    (hedits : b.editsLine = false) (hreset : b.hasTrigger .onReset = false)
    (hkeep : b.clearErrors "clearErrorsOnSuccess" = "")
    (hkeep' : b.clearErrors "clearErrorsOnReset" = "") (hstamp : b.stamp successMark = mark)
    (hclosed : endsWith "]" line = true) (response : Value) :
    ¬Restores (b.successThenReset response) editor.store d item
      (unlines (before ++ line :: after)) := by
  obtain ⟨-, hsingle⟩ := mark_of_stamp hstamp
  have hline : SingleLine line := hholds.singleLine line (by simp)
  obtain ⟨d₁, item₁, hrun₁, hitem₁, hplace₁, hpath₁, htext₁, hholds₁⟩ :=
    run_onSuccess_marked heditor hitem hholds hlocate htask hedits hkeep hstamp response
  have hcontent := content_append_closed htask hline.1 hsingle.1 hempty hclosed
  rw [hempty, String.empty_append] at htext₁
  rintro ⟨outcome, d₂, item₂, hrun, -, -, hread⟩
  rw [Binding.successThenReset, Deal.run_bind, hrun₁] at hrun
  change b.onReset.run d₁ = _ at hrun
  cases hfound : locate (before ++ (line ++ " " ++ mark) :: after) item₁ with
  | none =>
    obtain ⟨failure, hfails⟩ := run_onReset_not_found heditor hitem₁ (hpath₁ ▸ hholds₁) hfound
      hreset hkeep'
    cases hfails.symm.trans hrun
  | some index =>
    obtain ⟨other, hget, hother⟩ := locate_eq_some hfound
    obtain ⟨before', after', hsplit, rfl⟩ := exists_split hget
    rw [htext₁] at hother
    have hcontents : SingleLine (ListLine.ofText other).content :=
      hother ▸ singleLine_append.2 ⟨⟨by decide, by decide⟩, hsingle⟩
    have hne : other ≠ "" := by
      rintro rfl
      have hnone : (ListLine.ofText "").content = "" := by decide
      rw [hnone, eq_comm, String.append_eq_empty_iff] at hother
      exact absurd hother.1 (by decide)
    rw [hsplit] at hfound hholds₁
    obtain ⟨_, d₃, item₃, hrun₃, -, -, hholds₃⟩ := run_onReset_cut heditor hitem₁
      (hpath₁ ▸ hholds₁) hfound (fun _ => hne) hcontents hreset hkeep'
    cases hrun₃.symm.trans hrun
    -- the line that is cut is another one, for the content of the marked one is the mark alone
    have hplaces : before.length ≠ before'.length := by
      intro hsame
      obtain ⟨-, hlines⟩ := List.append_inj hsplit hsame
      rw [← (List.cons.inj hlines).1, hcontent] at hother
      simpa using congrArg String.length hother
    have hagain : before' ++ (decoration other ++ cutSuccess (ListLine.ofText other).content) ::
        after' = before ++ line :: after := by
      rw [hpath₁] at hholds₃
      rw [← hholds₃.split, Except.ok.inj (hholds₃.read.symm.trans hread), hholds.split]
    have hsame := congrArg (·[before.length]?) hagain
    simp only [getElem?_append_cons_of_ne hplaces other, ← hsplit, List.getElem?_append_right
      (Nat.le_refl _), Nat.sub_self, List.getElem?_cons_zero, Option.some.injEq] at hsame
    have hlength := congrArg String.length hsame
    simp only [String.length_append] at hlength
    have hblank : " ".length = 1 := by decide
    omega

/-- Of a script that transforms nothing and has no part for resets, a reset undoes a success, and
the text of the item and the document are as before, exactly if the item's text holds no mark of
success and ends with no blank, and, where it is empty, the line of the task has a blank behind the
brackets. -/
theorem reset_undoes_success_iff {s : String} {index : Nat} {tree' : Tree}
    (heditor : b.engine.tasks = some editor) (hitem : d.item = some item)
    (hfind : editor.find d.world.tree item = .ok (s, index))
    (htask : (taskLine? ((lines s).getD index "")).isSome)
    (hwrite : editor.store.write d.world.tree item.path s = .ok tree')
    (hedits : b.editsLine = false) (hreset : b.hasTrigger .onReset = false)
    (hkeep : b.clearErrors "clearErrorsOnSuccess" = "")
    (hkeep' : b.clearErrors "clearErrorsOnReset" = "") (response : Value) :
    Restores (b.successThenReset response) editor.store d item s ↔
      '✓' ∉ item.text.toList ∧ trimRight item.text = item.text ∧
        (item.text = "" → endsWith "]" ((lines s).getD index "") = false) := by
  obtain ⟨hread, hlocate⟩ := Editor.find_eq_ok.1 hfind
  obtain ⟨line, hget, htext⟩ := locate_eq_some hlocate
  obtain ⟨before, after, hs, rfl⟩ := exists_split hget
  have hholds := Holds.of_read hread hwrite
  have hsplit := hholds.split
  rw [hs] at hholds hsplit hlocate
  rw [hs, getD_length_append] at htask ⊢
  rw [show s = unlines (before ++ line :: after) by rw [← hs, unlines_lines]]
  by_cases hopen : item.text = "" → endsWith "]" line = false
  · rw [restores_iff_of_open heditor hitem hholds hlocate htask htext hedits hreset hkeep hkeep'
      rfl hopen, and_iff_left hopen]
  · obtain ⟨hempty, hclosed⟩ := Classical.not_imp.1 hopen
    exact iff_of_false (not_restores_of_closed heditor hitem hholds hlocate htask
      (htext.trans hempty) hedits hreset hkeep hkeep' rfl (by simpa using hclosed) response)
      fun h => hopen h.2.2

end Events

/-- A binding without triggers that edits documents in steps of two blanks. -/
def plainBinding : Binding :=
  { tag := "#demo"
    engine :=
      { settings := { documentRoot := "" }, now := ⟨⟨2000, 1, 1⟩, none, none⟩,
        tasks := some { store := {}, indentUnit := "  " } }
    config := { triggers := [], tag := "#demo", settings := [] }
    options := [] }

def shoppingItem (text : String) : WorkItem :=
  { text, path := "a.md", line := 0, status := " ", tags := [], indent := "" }

/-- A desk with a document of one task. -/
def shoppingDesk (text : String) : Desk :=
  { world := { tree := { root := "/", files := [(["a.md"], .text ("- [ ] " ++ text))] } }
    item := some (shoppingItem text) }

theorem reset_undoes_success_iff_stamps :
    Restores (plainBinding.successThenReset .null) {} (shoppingDesk "Buy stamps")
      (shoppingItem "Buy stamps") "- [ ] Buy stamps" := by
  have hfind : Editor.find { store := {}, indentUnit := "  " } (shoppingDesk "Buy stamps").world.tree
      (shoppingItem "Buy stamps") = .ok ("- [ ] Buy stamps", 0) :=
    eq_ok_of_toOption (by decide +kernel)
  obtain ⟨tree', hwrite⟩ : ∃ tree', Documents.Store.write {}
      (shoppingDesk "Buy stamps").world.tree "a.md" "- [ ] Buy stamps" = .ok tree' :=
    exists_eq_ok_of_isSome (by decide +kernel)
  exact (reset_undoes_success_iff rfl rfl hfind (by decide +kernel) hwrite rfl rfl rfl rfl
    .null).2 (by decide +kernel)

/-- A reset takes more than the mark of success from a text that has a mark of its own. -/
theorem reset_drops_marked_text :
    ¬Restores (plainBinding.successThenReset .null) {} (shoppingDesk "Buy ✓ stamps")
      (shoppingItem "Buy ✓ stamps") "- [ ] Buy ✓ stamps" := by
  rintro ⟨_, _, item', hrun, hitem, htext, -⟩
  have hleft := congrArg (fun r => r.2.item.map (·.text)) hrun
  simp only [hitem, htext, Option.map_some] at hleft
  exact absurd hleft (by decide +kernel)

end BulletScript.Engine
