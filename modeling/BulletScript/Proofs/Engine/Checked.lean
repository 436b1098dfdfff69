import BulletScript.Proofs.Engine.Chronicle
import BulletScript.Proofs.Engine.Clearing
import Mathlib.Logic.ExistsUnique

/-! A checked item. Its script is attempted until an attempt is a success or no further one is
allowed, and then the item ends in one of three ways: its response waits, its failure was handled, or
one line tells of the failure. -/
namespace BulletScript.Engine

open Script Tasks Outline Text

namespace Deed

def attempt? : Deed → Option Outcome
  | .runs .onTrigger _ o => some o
  | _ => none

/-- What `onError` began with, and how it ended. -/
def handler? : Deed → Option (Context × Outcome)
  | .runs .onError start o => some (start, o)
  | _ => none

def response? : Deed → Option Value
  | .succeeds response => some response
  | _ => none

def mark? : Deed → Option (Desk × Update × Except Failure Unit)
  | .marks d u result => some (d, u, result)
  | _ => none

end Deed

namespace Chronicle

variable {α : Type} (c : Chronicle α)

def attempts : List Outcome := c.entries.filterMap (·.deed.attempt?)

def handlers : List (Context × Outcome) := c.entries.filterMap (·.deed.handler?)

/-- The responses of the successes that were dealt with. -/
def responses : List Value := c.entries.filterMap (·.deed.response?)

def marks : List (Desk × Update × Except Failure Unit) := c.entries.filterMap (·.deed.mark?)

end Chronicle

/-- The text that tells of a failure, before any time is put behind it. -/
def Binding.errorText (b : Binding) (failure : Failure) : String :=
  (b.options.getD "errorFormat" (.str "✗ ")).plain ++ failure.message

/-- The document of an item is written with one more line: right below the item's, one that tells of
an error. -/
def Noted (editor : Editor) (tree : Files.Tree) (item : WorkItem) (text : String)
    (tree' : Files.Tree) : Prop :=
  ∃ s before line after, editor.find tree item = .ok (s, before.length) ∧
    lines s = before ++ line :: after ∧
    editor.store.write tree item.path
      (joinLines (before ++ (decoration line ++ (ListLine.ofText line).content) ::
        errorLine editor.indentUnit line text :: after) (endsWith "\n" s)) = .ok tree'

/-- The last attempt is the only success. Its response waits at the path, and no line tells of an
error. -/
structure Succeeded (path : String) (outcomes : List Outcome) (c : Chronicle Outcome) (o : Outcome) :
    Prop where
  attempts : ∃ failed, outcomes = failed ++ [o] ∧ ∀ x ∈ failed, x.state = .failed
  completed : o.state = .completed
  responses : c.responses = [Binding.responseOf o]
  waits : c.desk.pending.lookup path = some (Binding.responseOf o)
  handlers : c.handlers = []
  marks : ∀ m ∈ c.marks, ∃ mark cleared, m.2.1 = Binding.successEdit mark cleared

/-- All attempts failed, the last one with this failure, and nothing waits at the path. -/
structure Exhausted (path : String) (outcomes : List Outcome) (c : Chronicle Outcome)
    (failure : Failure) : Prop where
  attempts : ∀ x ∈ outcomes, x.state = .failed
  last : outcomes.getLast?.bind (·.error) = some failure
  responses : c.responses = []
  waits : c.desk.pending.lookup path = none

/-- `onError` ran once, saw the failure and was a success, and the item is left as it is. -/
structure Handled (path : String) (outcomes : List Outcome) (c : Chronicle Outcome)
    (failure : Failure) : Prop extends Exhausted path outcomes c failure where
  handlers : ∃ start o, c.handlers = [(start, o)] ∧ o.success = true ∧
    start.vars.get? "error" = some (.map (failureRecord failure))
  marks : c.marks = []

/-- There is no `onError`, or it failed too, and one line below the item tells of the failure. -/
structure Told (b : Binding) (path : String) (outcomes : List Outcome) (c : Chronicle Outcome)
    (failure : Failure) : Prop extends Exhausted path outcomes c failure where
  handlers : b.hasTrigger .onError = false ∧ c.handlers = [] ∨
    b.hasTrigger .onError = true ∧ ∃ start o, c.handlers = [(start, o)] ∧ o.success = false
  marks : ∃ d, c.marks = [(d, Binding.errorEdit (b.stamp (b.errorText failure)), .ok ())] ∧
    ∀ editor, b.engine.tasks = some editor → ∃ item, d.item = some item ∧ item.path = path ∧
      Noted editor d.world.tree item (b.stamp (b.errorText failure)) c.desk.world.tree

/-- The ways in which a checked item can end. -/
inductive Ending where
  | succeeded | handled | told

def Ending.Holds (b : Binding) (path : String) (outcomes : List Outcome) (c : Chronicle Outcome) :
    Ending → Prop
  | .succeeded => ∃ o, Succeeded path outcomes c o
  | .handled => ∃ failure, Handled path outcomes c failure
  | .told => ∃ failure, Told b path outcomes c failure

section Ending

variable {b : Binding} {path : String} {outcomes : List Outcome} {c : Chronicle Outcome}

theorem Succeeded.not_exhausted {o : Outcome} {failure : Failure} (h : Succeeded path outcomes c o) :
    ¬ Exhausted path outcomes c failure := by
  rintro ⟨-, -, hresponses, -⟩
  rw [h.responses] at hresponses
  cases hresponses

theorem Handled.not_told {failure failure' : Failure} (h : Handled path outcomes c failure) :
    ¬ Told b path outcomes c failure' := by
  rintro ⟨-, -, d, hmarks, -⟩
  rw [h.marks] at hmarks
  cases hmarks

/-- An ending is seen in the responses, the runs of `onError`, the marks and what waits. -/
theorem Ending.Holds.congr {c' : Chronicle Outcome} {ending : Ending}
    (h : ending.Holds b path outcomes c) (hresponses : c'.responses = c.responses)
    (hhandlers : c'.handlers = c.handlers) (hmarks : c'.marks = c.marks) (hdesk : c'.desk = c.desk) :
    ending.Holds b path outcomes c' := by
  cases ending with
  | succeeded =>
    obtain ⟨o, h⟩ := h
    exact ⟨o, h.attempts, h.completed, hresponses ▸ h.responses, hdesk ▸ h.waits,
      hhandlers ▸ h.handlers, hmarks ▸ h.marks⟩
  | handled =>
    obtain ⟨failure, h⟩ := h
    exact ⟨failure, ⟨h.attempts, h.last, hresponses ▸ h.responses, hdesk ▸ h.waits⟩,
      hhandlers ▸ h.handlers, hmarks ▸ h.marks⟩
  | told =>
    obtain ⟨failure, h⟩ := h
    exact ⟨failure, ⟨h.attempts, h.last, hresponses ▸ h.responses, hdesk ▸ h.waits⟩,
      hhandlers ▸ h.handlers, hmarks ▸ hdesk ▸ h.marks⟩

/-- No item ends in two ways. -/
theorem Ending.unique {ending ending' : Ending} (h : ending.Holds b path outcomes c)
    (h' : ending'.Holds b path outcomes c) : ending = ending' := by
  cases ending <;> cases ending' <;> obtain ⟨_, h⟩ := h <;> obtain ⟨_, h'⟩ := h'
  case succeeded.succeeded | handled.handled | told.told => rfl
  case succeeded.handled | succeeded.told => exact absurd h'.toExhausted h.not_exhausted
  case handled.succeeded | told.succeeded => exact absurd h.toExhausted h'.not_exhausted
  case handled.told => exact absurd h' h.not_told
  case told.handled => exact absurd h h'.not_told

/-- What is done for an item after some attempts that failed: so many further ones are allowed, and
they are made up to the first success. -/
structure Ends (b : Binding) (path : String) (failed : List Outcome) (allowed : Nat)
    (c : Chronicle Outcome) : Prop where
  result : ∃ o, c.result = .ok o
  count : c.attempts.length = min (c.attempts.findIdx (·.success) + 1) allowed
  ending : ∃ ending, Ending.Holds b path (failed ++ c.attempts) c ending

theorem Ends.after_failed {failed : List Outcome} {allowed : Nat} {o : Outcome}
    (h : Ends b path (failed ++ [o]) allowed c) (ho : o.success = false) (p : String)
    (start : Context) :
    Ends b path failed (allowed + 1) (c.after ⟨p, .runs .onTrigger start o⟩) := by
  obtain ⟨hresult, hcount, ending, hending⟩ := h
  have hall : (c.after ⟨p, .runs .onTrigger start o⟩).attempts = o :: c.attempts := rfl
  refine ⟨hresult, ?_, ending, ?_⟩
  · rw [hall, List.length_cons, List.findIdx_cons, ho, hcount]
    simp
  · rw [hall, List.append_cons]
    exact hending.congr rfl rfl rfl rfl

theorem Ends.after_fails {failed : List Outcome} {allowed : Nat} (h : Ends b path failed allowed c)
    (p : String) : Ends b path failed allowed (c.after ⟨p, .fails⟩) := by
  obtain ⟨hresult, hcount, ending, hending⟩ := h
  exact ⟨hresult, hcount, ending, hending.congr rfl rfl rfl rfl⟩

end Ending

section Mark

variable {b : Binding} {d : Desk} {item item' : WorkItem} {editor : Editor} {tree tree' : Files.Tree}
  {text : String}

theorem noted_of_update
    (h : editor.update tree item (Binding.errorEdit text) = (item', .ok tree')) :
    Noted editor tree item text tree' := by
  rcases hfind : editor.find tree item with failure | ⟨s, index⟩
  · unfold Editor.update at h
    rw [hfind] at h
    cases h
  · obtain ⟨before, line, after, hs, rfl⟩ := Editor.find_split hfind
    obtain ⟨hwrite, -⟩ := (Editor.update_eq_ok hfind).1 h
    refine ⟨s, before, line, after, hfind, hs, ?_⟩
    rw [editText, hs, editLines_append, errorEdit_content, errorEdit_children] at hwrite
    simpa using hwrite

/-- Where the edit of an item does not fail, its document has one more line. -/
theorem noted_of_edit (heditor : b.engine.tasks = some editor) (hitem : d.item = some item)
    (h : ((b.edit (Binding.errorEdit text)).run d).1 = .ok ()) :
    Noted editor d.world.tree item text
      ((b.edit (Binding.errorEdit text)).run d).2.world.tree := by
  rcases hupdate : editor.update d.world.tree item (Binding.errorEdit text) with ⟨item', f | tree'⟩
  · rw [run_edit_error heditor hitem hupdate] at h
    cases h
  · rw [run_edit_ok heditor hitem hupdate]
    exact noted_of_update hupdate

end Mark

/-- No edit that marks the item failed. -/
def Chronicle.Unhindered {α : Type} (c : Chronicle α) : Prop := ∀ m ∈ c.marks, m.2.2 = .ok ()

namespace Telling

variable {b : Binding} {d : Desk} {item : WorkItem} {path : String}
  {failed : List Outcome} {failure : Failure} {last : Outcome}

theorem edit_apply (u : Update) : edit b u d =
    ⟨[⟨d.path, .marks d u ((b.edit u).run d).1⟩], ((b.edit u).run d).1, ((b.edit u).run d).2⟩ := rfl

/-- A success is dealt with once, and the item is marked with it or not. -/
theorem onSuccess_apply (response : Value) :
    let kept := d.stashed d.path response
    onSuccess b response d = ⟨[⟨d.path, .succeeds response⟩], .ok (), kept⟩ ∨
      ∃ mark cleared, onSuccess b response d = goOn ⟨[⟨d.path, .succeeds response⟩], .ok (), kept⟩
        fun _ => edit b (Binding.successEdit mark cleared) := by
  intro kept
  obtain ⟨mark, hmark⟩ : ∃ mark, (if b.editsLine then "" else b.stamp successMark) = mark :=
    ⟨_, rfl⟩
  by_cases hnone : mark = "" ∧ b.clearErrors "clearErrorsOnSuccess" = ""
  · refine .inl ?_
    simp only [onSuccess, hmark, if_pos hnone]
    rfl
  · refine .inr ⟨mark, b.clearErrors "clearErrorsOnSuccess", ?_⟩
    simp only [onSuccess, hmark, if_neg hnone]
    rfl

/-- An attempt that was a success ends what is done for the item. -/
theorem success_ends {o : Outcome} (hpath : d.path = path)
    (hfailed : ∀ x ∈ failed, x.state = .failed) (ho : o.state = .completed)
    (hmarks : (succeed b o d).Unhindered) (p : String) (start : Context) (allowed : Nat) :
    Ends b path failed (allowed + 1) ((succeed b o d).after ⟨p, .runs .onTrigger start o⟩) := by
  let kept := d.stashed d.path (Binding.responseOf o)
  have hsuccess : o.success = true := by simp [Outcome.success, ho]
  have hwaits : kept.pending.lookup path = some (Binding.responseOf o) := by
    simp [kept, Desk.lookup_stashed, hpath]
  have hall : ∃ failed', failed ++ [o] = failed' ++ [o] ∧ ∀ x ∈ failed', x.state = .failed :=
    ⟨failed, rfl, hfailed⟩
  rcases onSuccess_apply (b := b) (d := d) (Binding.responseOf o) with hrun | ⟨mark, cleared, hrun⟩
  · have hc : succeed b o d = ⟨[⟨d.path, .succeeds (Binding.responseOf o)⟩], .ok o, kept⟩ := by
      simp [succeed, kept, bind_apply, hrun]
    rw [hc]
    refine ⟨⟨o, rfl⟩, ?_, .succeeded, o, hall, ho, rfl, hwaits, rfl, ?_⟩
    · simp [Chronicle.after, Chronicle.attempts, Deed.attempt?, hsuccess]
    · simp [Chronicle.after, Chronicle.marks, Deed.mark?]
  · rw [goOn_ok, edit_apply] at hrun
    have hfollows := follows_edit b kept (Binding.successEdit mark cleared)
    rcases hedit : (b.edit (Binding.successEdit mark cleared)).run kept with ⟨result, d'⟩
    rw [hedit] at hrun hfollows
    rw [succeed, bind_apply, hrun] at hmarks ⊢
    obtain rfl : result = .ok () := by
      cases result <;> exact hmarks _ (List.mem_singleton_self _)
    refine ⟨⟨o, rfl⟩, ?_, .succeeded, o, hall, ho, rfl, hfollows.pending ▸ hwaits, rfl,
      fun m hm => ⟨mark, cleared, by rw [List.mem_singleton.1 hm]⟩⟩
    simp [Chronicle.after, Chronicle.attempts, Deed.attempt?, hsuccess]

/-- One line tells of a failure. -/
theorem note_apply (hitem : d.item = some item)
    (hmarks : (note b (some failure) (some last) d).Unhindered) :
    let text := b.stamp (b.errorText failure)
    ∃ d', note b (some failure) (some last) d =
        ⟨[⟨d.path, .marks d (Binding.errorEdit text) (.ok ())⟩], .ok last, d'⟩ ∧
      d.Follows d' ∧
      ∀ editor, b.engine.tasks = some editor →
        Noted editor d.world.tree item text d'.world.tree := by
  intro text
  have hnote : note b (some failure) (some last) d =
      goOn (edit b (Binding.errorEdit text) d) fun _ => pure last := rfl
  rw [edit_apply] at hnote
  rcases hedit : (b.edit (Binding.errorEdit text)).run d with ⟨result, d'⟩
  rw [hedit] at hnote
  obtain rfl : result = .ok () := by
    rw [hnote] at hmarks
    cases result <;> exact hmarks _ (List.mem_singleton_self _)
  refine ⟨d', hnote, ?_, fun editor heditor => ?_⟩
  · simpa [hedit] using follows_edit b d (Binding.errorEdit text)
  · have hnoted := noted_of_edit (d := d) heditor hitem (by rw [hedit])
    rwa [hedit] at hnoted

/-- Once no further attempt is allowed, the failure is handled, or one line tells of it. -/
theorem reportFailure_ends (hitem : d.item.map (·.path) = some path)
    (hnone : d.pending.lookup path = none) (hfailed : ∀ x ∈ failed, x.state = .failed)
    (hlast : failed.getLast?.bind (·.error) = some failure)
    (hmarks : (reportFailure b (some failure) (some last) d).Unhindered) :
    Ends b path failed 0 (reportFailure b (some failure) (some last) d) := by
  have hall : ∀ x ∈ failed ++ [], x.state = .failed := by simpa using hfailed
  have hlast' : (failed ++ []).getLast?.bind (·.error) = some failure := by simpa using hlast
  cases hhandler : b.hasTrigger .onError with
  | false =>
    have hc : reportFailure b (some failure) (some last) d = note b (some failure) (some last) d := by
      simp [reportFailure, bind_apply, handle, runHandler, hhandler, orElse]
    rw [hc] at hmarks ⊢
    obtain ⟨item, hitem, hpath⟩ := Option.map_eq_some_iff.1 hitem
    obtain ⟨d', hnote, hfollows, hnoted⟩ := note_apply hitem hmarks
    rw [hnote]
    refine ⟨⟨last, rfl⟩, by simp [Chronicle.attempts, Deed.attempt?], .told, failure,
      ⟨hall, hlast', rfl, ?_⟩, .inl ⟨hhandler, rfl⟩,
      d, rfl, fun editor heditor => ⟨item, hitem, hpath, hnoted editor heditor⟩⟩
    rw [hfollows.pending, hnone]
  | true =>
    obtain ⟨start, o, d₁, hrun, hfollows, hstart, -⟩ :=
      run_apply b .onError d [("error", .map (failureRecord failure))]
    have hsees : start.vars.get? "error" = some (.map (failureRecord failure)) :=
      start_sees [("error", _)] (by simp) hstart (by decide)
    have hc : reportFailure b (some failure) (some last) d =
        goOn ⟨[⟨d.path, .runs .onError start o⟩], .ok o, d₁⟩ fun o =>
          orElse (if o.success then some o else none) (note b (some failure) (some last)) := by
      simp [reportFailure, bind_apply, handle, runHandler, hhandler, hrun]
    cases hsuccess : o.success with
    | true =>
      have hdone : reportFailure b (some failure) (some last) d =
          ⟨[⟨d.path, .runs .onError start o⟩], .ok o, d₁⟩ := by
        simp [hc, hsuccess, orElse]
      rw [hdone]
      refine ⟨⟨o, rfl⟩, by simp [Chronicle.attempts, Deed.attempt?], .handled, failure,
        ⟨hall, hlast', rfl, ?_⟩,
        ⟨start, o, rfl, hsuccess, hsees⟩, rfl⟩
      rw [hfollows.pending, hnone]
    | false =>
      obtain ⟨item₁, hitem₁, hpath⟩ := Option.map_eq_some_iff.1 (hfollows.item.trans hitem)
      have hgoOn : reportFailure b (some failure) (some last) d =
          goOn ⟨[⟨d.path, .runs .onError start o⟩], .ok o, d₁⟩ fun _ =>
            note b (some failure) (some last) := by
        simp [hc, hsuccess, orElse]
      rw [hgoOn] at hmarks ⊢
      obtain ⟨d', hnote, hfollows', hnoted⟩ := note_apply hitem₁ hmarks
      rw [goOn_ok, hnote]
      refine ⟨⟨last, rfl⟩, by simp [Chronicle.attempts, Deed.attempt?], .told, failure,
        ⟨hall, hlast', rfl, ?_⟩, .inr ⟨hhandler, start, o, rfl, hsuccess⟩, d₁, rfl,
        fun editor heditor => ⟨item₁, hitem₁, hpath, hnoted editor heditor⟩⟩
      rw [hfollows'.pending, hfollows.pending, hnone]

/-- Further attempts are made up to the first success, or as many as are allowed, and then the item
ends in one of the ways. -/
theorem retry_ends (htrigger : b.hasTrigger .onTrigger = true) (event : Option Record)
    (number remaining : Nat) (hitem : d.item.map (·.path) = some path)
    (hnone : d.pending.lookup path = none) (hfailed : ∀ x ∈ failed, x.state = .failed)
    (hlast : failed.getLast?.bind (·.error) = some failure)
    (hmarks : (retry b event (some failure) (some last) number remaining d).Unhindered) :
    Ends b path failed remaining (retry b event (some failure) (some last) number remaining d) := by
  induction remaining generalizing d failed failure last number with
  | zero => exact reportFailure_ends hitem hnone hfailed hlast hmarks
  | succ remaining ih =>
    obtain ⟨start, o, d', hretry, hfollows, hidle, herror⟩ :=
      retry_apply b d event (some failure) (some last) number remaining
    have hitem' := hfollows.item.trans hitem
    rw [hretry] at hmarks ⊢
    cases hstate : o.state with
    | idle =>
      rw [(hidle hstate).1] at htrigger
      cases htrigger
    | completed =>
      rw [if_pos (by simp [Outcome.success, hstate])] at hmarks ⊢
      exact success_ends (congrArg (·.getD "") hitem') hfailed hstate hmarks _ _ _
    | failed =>
      obtain ⟨failure', herror⟩ := herror hstate
      have hsuccess : o.success = false := by simp [Outcome.success, hstate]
      have hfailed' : ∀ x ∈ failed ++ [o], x.state = .failed := by
        simpa [or_imp, forall_and, hstate] using hfailed
      have hlast' : (failed ++ [o]).getLast?.bind (·.error) = some failure' := by
        simpa using herror
      rw [if_neg (by simp [hsuccess]), herror] at hmarks ⊢
      have hends := ih (number + 1) hitem' (hfollows.pending ▸ hnone) hfailed' hlast' hmarks
      exact hends.after_failed hsuccess _ _

theorem onTrigger_ends {r : Nat} (htrigger : b.hasTrigger .onTrigger = true)
    (hretries : b.retries = .ok r) (event : Option Record) (hitem : d.item.map (·.path) = some path)
    (hmarks : (onTrigger b event d).Unhindered) :
    Ends b path [] (r + 1) (onTrigger b event d) := by
  obtain ⟨start, o, d', hrun, hfollows, hidle, herror⟩ := onTrigger_apply b d event
  have hitem' := hfollows.item.trans hitem
  have hpath : d'.path = path := congrArg (·.getD "") hitem'
  rw [hrun] at hmarks ⊢
  cases hstate : o.state with
  | idle =>
    rw [hidle hstate] at htrigger
    cases htrigger
  | completed =>
    simp only [hstate] at hmarks ⊢
    exact success_ends hpath (by simp) hstate hmarks _ _ _
  | failed =>
    obtain ⟨failure, herror⟩ := herror hstate
    simp only [hstate, onError_apply, hretries, herror] at hmarks ⊢
    have hdiscarded : (d'.discarded d'.path).item.map (·.path) = some path := hitem'
    have hnone : (d'.discarded d'.path).pending.lookup path = none := by
      simp [Desk.lookup_discarded, hpath]
    have hfailed : ∀ x ∈ [] ++ [o], x.state = .failed := by simpa using hstate
    have hlast : ([] ++ [o]).getLast?.bind (·.error) = some failure := by simpa using herror
    have hends := retry_ends htrigger event 1 r hdiscarded hnone hfailed hlast hmarks
    exact (hends.after_fails _).after_failed (by simp [Outcome.success, hstate]) _ _

end Telling

theorem retries_of_int {b : Binding} {r : Nat} (h : b.options.getD "retry" (.int 0) = .int r) :
    b.retries = .ok r := by
  unfold Binding.retries
  unfold Record.getD at h
  cases hretry : b.options.get? "retry" with
  | none =>
    rw [hretry, Option.getD_none, Value.int.injEq] at h
    obtain rfl : r = 0 := by omega
    rfl
  | some v =>
    rw [hretry, Option.getD_some] at h
    subst h
    by_cases hr : r = 0
    · subst hr
      rfl
    · have hsome : Option.filter Value.isSome (some (.int r)) = some (.int r) := by
        simp [Option.filter_some, Value.isSome, hr]
      rw [hsome]
      rfl

/-- A checked item is attempted up to the first success, or once more than further attempts are
allowed, and it ends in exactly one way. -/
theorem checked_item_ends {b : Binding} {event : Option Record} {d : Desk} {item : WorkItem} {r : Nat}
    (htrigger : b.hasTrigger .onTrigger = true) (hretry : b.options.getD "retry" (.int 0) = .int r)
    (hitem : d.item = some item) (hmarks : (Telling.onTrigger b event d).Unhindered) :
    let c := Telling.onTrigger b event d
    (b.onTrigger event).run d = (c.result, c.desk) ∧ (∃ o, c.result = .ok o) ∧
      c.attempts.length = min (c.attempts.findIdx (·.success) + 1) (r + 1) ∧
      ∃! ending, Ending.Holds b item.path c.attempts c ending := by
  intro c
  have hpath : d.item.map (·.path) = some item.path := by rw [hitem]; rfl
  obtain ⟨hresult, hcount, ending, hending⟩ :=
    Telling.onTrigger_ends htrigger (retries_of_int hretry) event hpath hmarks
  refine ⟨?_, hresult, hcount, ending, hending, fun other hother => Ending.unique hother hending⟩
  rw [← Telling.plain_onTrigger]
  rfl

/-- A script that fails, and is attempted twice. -/
def choreBinding : Binding where
  tag := "#chore"
  engine :=
    { settings := { documentRoot := "/" }, tasks := some twoBlanks
      now := ⟨⟨2026, 1, 1⟩, none, some 0⟩ }
  config := ⟨[⟨.onTrigger, [.step (.validate "false" none) [] none]⟩], "#chore", []⟩
  options := [("retry", .int 1)]

def choreDesk : Desk := { world := { tree := deepTree }, item := some deepItem }

theorem checked_item_ends_chore :
    let c := Telling.onTrigger choreBinding none choreDesk
    (choreBinding.onTrigger none).run choreDesk = (c.result, c.desk) ∧ (∃ o, c.result = .ok o) ∧
      c.attempts.length = min (c.attempts.findIdx (·.success) + 1) (1 + 1) ∧
      ∃! ending, Ending.Holds choreBinding deepItem.path c.attempts c ending := by
  refine checked_item_ends rfl rfl rfl fun m hm => ?_
  have hmarks : ((Telling.onTrigger choreBinding none choreDesk).marks.all fun m =>
      m.2.2.toOption.isSome) = true := by
    decide +kernel
  have hm := List.all_eq_true.1 hmarks m hm
  cases hresult : m.2.2 with
  | error f => simp [hresult, Except.toOption] at hm
  | ok u => rfl

end BulletScript.Engine
