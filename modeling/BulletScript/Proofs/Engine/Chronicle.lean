import BulletScript.Proofs.Engine.Deal

/-! Deals told as they go. What an engine does for an item goes down in a chronicle: the triggers that
ran, the successes and failures that were dealt with, and the edits that mark the item. Telling
changes nothing. -/
namespace BulletScript.Engine

open Script Tasks

/-- What an engine did for an item. -/
inductive Deed where
  /-- A trigger ran from a context, and ended so. -/
  | runs (kind : TriggerKind) (start : Context) (outcome : Outcome)
  /-- A success is dealt with, and its response is kept. -/
  | succeeds (response : Value)
  /-- A failure is dealt with. -/
  | fails
  /-- The item of a desk was edited to show how it went, or the edit failed. -/
  | marks (d : Desk) (u : Update) (result : Except Failure Unit)

/-- A deed for the item at a path. -/
structure Entry where
  path : String
  deed : Deed

/-- What a deal leaves: what was done in it, its result and the desk. -/
structure Chronicle (α : Type) where
  entries : List Entry
  result : Except Failure α
  desk : Desk

/-- The chronicle with one more entry before it. -/
def Chronicle.after {α : Type} (c : Chronicle α) (e : Entry) : Chronicle α :=
  ⟨e :: c.entries, c.result, c.desk⟩

/-- A deal that is told, by the desk it begins at. -/
def Telling (α : Type) : Type := Desk → Chronicle α

namespace Telling

variable {α β : Type}

/-- The second chronicle goes on where the first one ends. -/
def goOn (c : Chronicle α) (k : α → Telling β) : Chronicle β :=
  match c.result with
  | .ok a => ⟨c.entries ++ (k a c.desk).entries, (k a c.desk).result, (k a c.desk).desk⟩
  | .error f => ⟨c.entries, .error f, c.desk⟩

instance : Monad Telling where
  pure a := fun d => ⟨[], .ok a, d⟩
  bind m k := fun d => goOn (m d) k

/-- A deal that no entry tells of. -/
def quiet (m : Deal α) : Telling α := fun d => ⟨[], (m.run d).1, (m.run d).2⟩

def tell (deed : Deed) : Telling Unit := fun d => ⟨[⟨d.path, deed⟩], .ok (), d⟩

/-- Runs a trigger of a script on the item and the buffer at hand. -/
def runTrigger (b : Binding) (kind : TriggerKind) (withBuffer : Bool) (document : Option String)
    (vars : Record) : Telling Outcome := do
  let d ← quiet get
  let buffer := if withBuffer then d.buffer else none
  let context ← quiet <| Deal.ofResult <|
    Context.start d.item none document buffer kind.text b.config.tag vars
  let outcome ← quiet (Deal.act withBuffer context (b.engine.execute b.config kind.text))
  tell (.runs kind context outcome)
  return outcome

def edit (b : Binding) (u : Update) : Telling Unit := fun d =>
  let (result, d') := (b.edit u).run d
  ⟨[⟨d.path, .marks d u result⟩], result, d'⟩

def run (b : Binding) (kind : TriggerKind) (extra : Record) : Telling Outcome :=
  runTrigger b kind false none (b.varsWith extra)

def attempt (b : Binding) (event : Option Record) : Telling Outcome :=
  run b .onTrigger (Binding.eventVariable event)

def onSuccess (b : Binding) (response : Value) : Telling Unit := do
  tell (.succeeds response)
  quiet (Deal.stash (← quiet Deal.itemPath) response)
  let mark := if b.editsLine then "" else b.stamp successMark
  let cleared := b.clearErrors "clearErrorsOnSuccess"
  if mark = "" ∧ cleared = "" then return
  edit b (Binding.successEdit mark cleared)

/-- Deals with an attempt that was a success. -/
def succeed (b : Binding) (outcome : Outcome) : Telling Outcome := do
  onSuccess b (Binding.responseOf outcome)
  return outcome

/-- Runs a trigger if there is one. An outcome is there only if it is no failure. -/
def runHandler (b : Binding) (kind : TriggerKind) (extra : Record) : Telling (Option Outcome) := do
  if b.hasTrigger kind then
    let outcome ← run b kind extra
    return if outcome.success then some outcome else none
  else return none

/-- What is there, or else what another deal makes. -/
def orElse (found : Option α) (other : Telling α) : Telling α :=
  match found with
  | some a => pure a
  | none => other

/-- Runs `onError` for a failure. -/
def handle (b : Binding) : Option Failure → Telling (Option Outcome)
  | some failure => runHandler b .onError [("error", .map (failureRecord failure))]
  | none => pure none

/-- Leaves a line that tells of the error below the item. -/
def note (b : Binding) (error : Option Failure) (last : Option Outcome) : Telling Outcome := do
  let format := (b.options.getD "errorFormat" (.str "✗ ")).plain
  let message := format ++ (error.map (·.message)).getD "None"
  edit b (Binding.errorEdit (b.stamp message))
  orElse last (quiet (b.withoutRun .failed error))

def reportFailure (b : Binding) (error : Option Failure) (last : Option Outcome) :
    Telling Outcome := do
  orElse (← handle b error) (note b error last)

def retry (b : Binding) (event : Option Record) (error : Option Failure) (last : Option Outcome)
    (number : Nat) : Nat → Telling Outcome
  | 0 => reportFailure b error last
  | remaining + 1 => do
    let text := (((← quiet get).item).map (·.text)).getD ""
    quiet <| Deal.log .info <|
      b.tag ++ ": retrying " ++ text ++ " (attempt " ++ toString number ++ ")"
    let outcome ← attempt b event
    if outcome.success then succeed b outcome
    else retry b event outcome.error (some outcome) (number + 1) remaining

def onError (b : Binding) (error : Option Failure) (event : Option Record)
    (first : Option Outcome) : Telling Outcome := do
  tell .fails
  quiet (Deal.discard (← quiet Deal.itemPath))
  retry b event error first 1 (← quiet (Deal.ofResult b.retries))

def onTrigger (b : Binding) (event : Option Record) : Telling Outcome := do
  let outcome ← attempt b event
  match outcome.state with
  | .idle => return outcome
  | .completed => succeed b outcome
  | .failed => onError b outcome.error event outcome

def onReset (b : Binding) : Telling Outcome := do
  orElse (← runHandler b .onReset []) do
    edit b (Binding.resetEdit (b.clearErrors "clearErrorsOnReset"))
    quiet (b.withoutRun .completed none)

def onStatusChange (b : Binding) (oldStatus newStatus : String) : Telling (Option Outcome) := do
  match (triggerOfStatus? newStatus).filter b.hasTrigger with
  | none => return none
  | some kind =>
    let event : Record := [("fromStatus", .str oldStatus), ("toStatus", .str newStatus)]
    let response ← quiet <|
      if newStatus = "x" then do Deal.consume (← Deal.itemPath) else pure none
    let extra : Record := [("event", .map event), ("response", response.getD .null)]
    return some (← run b kind extra)

def onEnter (b : Binding) (document : Option String) : Telling (Option Outcome) := do
  if !b.hasTrigger .onEnter then return none
  let outcome ← runTrigger b .onEnter true document (b.varsWith [])
  if !outcome.success && (← quiet get).item.isNone then quiet (b.noteBelow outcome)
  return some outcome

def onData (b : Binding) (data : Value) (document : Option String) :
    Telling (Option Outcome) := do
  if !b.hasTrigger .onData then return none
  return some (← runTrigger b .onData false document (b.varsWith [("data", data)]))

/-- A deal that is told, without its chronicle. -/
def plain (w : Telling α) : Deal α := ExceptT.mk fun d => ((w d).result, (w d).desk)

@[simp] theorem run_plain (w : Telling α) (d : Desk) :
    w.plain.run d = ((w d).result, (w d).desk) := rfl

theorem bind_apply (m : Telling α) (k : α → Telling β) (d : Desk) : (m >>= k) d = goOn (m d) k := rfl

@[simp] theorem plain_pure (a : α) : (pure a : Telling α).plain = pure a := rfl

@[simp] theorem plain_quiet (m : Deal α) : (quiet m).plain = m := rfl

@[simp] theorem plain_tell (deed : Deed) : (tell deed).plain = pure () := rfl

@[simp] theorem plain_edit (b : Binding) (u : Update) : (edit b u).plain = b.edit u := rfl

@[simp] theorem plain_bind (m : Telling α) (k : α → Telling β) :
    (m >>= k).plain = m.plain >>= fun a => (k a).plain := by
  apply Deal.ext
  intro d
  rw [Deal.run_bind, run_plain, run_plain, bind_apply]
  cases h : (m d).result <;> simp [goOn, h]

@[simp] theorem plain_ite (c : Prop) [Decidable c] (m n : Telling α) :
    (if c then m else n).plain = if c then m.plain else n.plain := by
  split <;> rfl

@[simp] theorem plain_orElse (found : Option α) (other : Telling α) :
    (orElse found other).plain = match found with
      | some a => pure a
      | none => other.plain := by
  cases found <;> rfl

@[simp] theorem goOn_ok (entries : List Entry) (a : α) (d : Desk) (k : α → Telling β) :
    goOn ⟨entries, .ok a, d⟩ k =
      ⟨entries ++ (k a d).entries, (k a d).result, (k a d).desk⟩ := rfl

@[simp] theorem goOn_error (entries : List Entry) (f : Failure) (d : Desk) (k : α → Telling β) :
    goOn ⟨entries, .error f, d⟩ k = ⟨entries, .error f, d⟩ := rfl

@[simp] theorem pure_apply (a : α) (d : Desk) : (pure a : Telling α) d = ⟨[], .ok a, d⟩ := rfl

theorem quiet_apply (m : Deal α) (d : Desk) : quiet m d = ⟨[], (m.run d).1, (m.run d).2⟩ := rfl

@[simp] theorem tell_apply (deed : Deed) (d : Desk) : tell deed d = ⟨[⟨d.path, deed⟩], .ok (), d⟩ :=
  rfl

section Plain

variable (b : Binding)

@[simp] theorem plain_runTrigger (kind : TriggerKind) (withBuffer : Bool) (document : Option String)
    (vars : Record) : (runTrigger b kind withBuffer document vars).plain =
      Deal.runTrigger b.engine b.config kind.text withBuffer none document vars := by
  simp [runTrigger, Deal.runTrigger, Deal.runTriggerAs]

@[simp] theorem plain_run (kind : TriggerKind) (extra : Record) :
    (run b kind extra).plain = b.runTrigger kind extra := by
  rw [run, plain_runTrigger, Binding.runTrigger]

@[simp] theorem plain_attempt (event : Option Record) : (attempt b event).plain = b.attempt event :=
  plain_run b _ _

@[simp] theorem plain_onSuccess (response : Value) :
    (onSuccess b response).plain = b.onSuccess response := by
  simp [onSuccess, Binding.onSuccess]

@[simp] theorem plain_reportFailure (error : Option Failure) (last : Option Outcome) :
    (reportFailure b error last).plain = b.reportFailure error last := by
  cases error with
  | none => cases last <;> simp [reportFailure, Binding.reportFailure, handle, note]
  | some failure =>
    cases h : b.hasTrigger .onError with
    | false =>
      cases last <;> simp [reportFailure, Binding.reportFailure, handle, note, runHandler, h]
    | true =>
      cases last <;>
      · simp [reportFailure, Binding.reportFailure, handle, note, runHandler, h]
        congr
        funext outcome
        cases outcome.success <;> rfl

@[simp] theorem plain_retry (event : Option Record) (error : Option Failure) (last : Option Outcome)
    (number remaining : Nat) :
    (retry b event error last number remaining).plain =
      b.retry event error last number remaining := by
  induction remaining generalizing error last number with
  | zero => simp [retry, Binding.retry]
  | succ remaining ih => simp [retry, Binding.retry, succeed, ih]

@[simp] theorem plain_onError (error : Option Failure) (event : Option Record)
    (first : Option Outcome) : (onError b error event first).plain = b.onError error event first := by
  simp [onError, Binding.onError]

@[simp] theorem plain_onTrigger (event : Option Record) :
    (onTrigger b event).plain = b.onTrigger event := by
  simp only [onTrigger, Binding.onTrigger, plain_bind, plain_attempt]
  congr
  funext outcome
  cases outcome.state <;> simp [succeed]

@[simp] theorem plain_onReset : (onReset b).plain = b.onReset := by
  cases h : b.hasTrigger .onReset with
  | false => simp [onReset, Binding.onReset, runHandler, h]
  | true =>
    simp [onReset, Binding.onReset, runHandler, h]
    congr
    funext outcome
    cases outcome.success <;> rfl

@[simp] theorem plain_onStatusChange (oldStatus newStatus : String) :
    (onStatusChange b oldStatus newStatus).plain = b.onStatusChange oldStatus newStatus := by
  simp only [onStatusChange, Binding.onStatusChange]
  cases (triggerOfStatus? newStatus).filter b.hasTrigger with
  | none => rfl
  | some kind => by_cases h : newStatus = "x" <;> simp [h]

@[simp] theorem plain_onEnter (document : Option String) :
    (onEnter b document).plain = b.onEnter document := by
  simp [onEnter, Binding.onEnter]

@[simp] theorem plain_onData (data : Value) (document : Option String) :
    (onData b data document).plain = b.onData data document := by
  simp [onData, Binding.onData]

end Plain

section Run

variable (b : Binding) (kind : TriggerKind) (d : Desk) (withBuffer : Bool)
  (document : Option String) (vars : Record)

/-- A run that cannot begin does nothing. -/
theorem runTrigger_error {f : Failure}
    (h : Context.start d.item none document (if withBuffer then d.buffer else none) kind.text
      b.config.tag vars = .error f) :
    runTrigger b kind withBuffer document vars d = ⟨[], .error f, d⟩ := by
  simp [runTrigger, bind_apply, quiet_apply, h]

/-- A run of a trigger goes down in the chronicle once it has begun. -/
theorem runTrigger_ok {start : Context}
    (h : Context.start d.item none document (if withBuffer then d.buffer else none) kind.text
      b.config.tag vars = .ok start) :
    ∃ o d', runTrigger b kind withBuffer document vars d =
        ⟨[⟨d.path, .runs kind start o⟩], .ok o, d'⟩ ∧ d.Follows d' ∧
      o = (b.engine.execute b.config kind.text
        ⟨d.world, d.item, if withBuffer then d.buffer else none, start⟩).1 := by
  obtain ⟨o, d', hact, hfollows, ho⟩ := follows_act withBuffer start
    (b.engine.execute b.config kind.text) (execute_path b.engine b.config kind.text) d
  refine ⟨o, d', ?_, hfollows, ho⟩
  simp [runTrigger, bind_apply, quiet_apply, h, hact, hfollows.path]

/-- A run for an item always begins. -/
theorem run_apply (extra : Record) :
    ∃ start o d', run b kind extra d = ⟨[⟨d.path, .runs kind start o⟩], .ok o, d'⟩ ∧ d.Follows d' ∧
      Context.start d.item none none none kind.text b.config.tag (b.varsWith extra) = .ok start ∧
      o = (b.engine.execute b.config kind.text ⟨d.world, d.item, none, start⟩).1 := by
  obtain ⟨start, -, hstart, -, -, -⟩ :=
    Context.exists_start d.item kind.text b.config.tag (b.varsWith extra)
  obtain ⟨o, d', hrun, hfollows, ho⟩ := runTrigger_ok b kind d false none _ hstart
  exact ⟨start, o, d', hrun, hfollows, hstart, ho⟩

/-- An attempt is idle only if the script has no such trigger, and then there is no response. -/
theorem attempt_apply (event : Option Record) :
    ∃ start o d', attempt b event d = ⟨[⟨d.path, .runs .onTrigger start o⟩], .ok o, d'⟩ ∧
      d.Follows d' ∧
      (o.state = .idle → b.hasTrigger .onTrigger = false ∧ Binding.responseOf o = .null) ∧
      (o.state = .failed → ∃ failure, o.error = some failure) := by
  obtain ⟨start, o, d', hrun, hfollows, hstart, rfl⟩ :=
    run_apply b .onTrigger d (Binding.eventVariable event)
  refine ⟨start, _, d', hrun, hfollows, fun hidle => ?_, execute_failed⟩
  obtain ⟨hnone, ho⟩ := execute_idle hidle
  refine ⟨hnone, ?_⟩
  have hresponse : start.vars.get? "response" = none := by
    unfold Binding.eventVariable at hstart
    split at hstart
    · exact start_sees [("event", _)] (by simp) hstart (by decide)
    · exact start_sees [] (by simp) hstart (by decide)
  rw [ho, Binding.responseOf, if_pos (by rfl), response_of_start hstart, Record.getD, hresponse]
  rfl

/-- A further attempt, and what comes after it. -/
theorem retry_apply (event : Option Record) (error : Option Failure) (last : Option Outcome)
    (number remaining : Nat) :
    ∃ start o d', retry b event error last number (remaining + 1) d =
        Chronicle.after (if o.success then succeed b o d'
          else retry b event o.error (some o) (number + 1) remaining d')
          ⟨d.path, .runs .onTrigger start o⟩ ∧
      d.Follows d' ∧
      (o.state = .idle → b.hasTrigger .onTrigger = false ∧ Binding.responseOf o = .null) ∧
      (o.state = .failed → ∃ failure, o.error = some failure) := by
  let message := b.tag ++ ": retrying " ++ ((d.item.map (·.text)).getD "") ++
    " (attempt " ++ toString number ++ ")"
  let logged : Desk := { d with world := d.world.log .info message }
  have hlogged : d.Follows logged := ⟨rfl, rfl⟩
  obtain ⟨start, o, d', hattempt, hfollows, hstate⟩ := attempt_apply b logged event
  refine ⟨start, o, d', ?_, hlogged.trans hfollows, hstate⟩
  change goOn (attempt b event logged) _ = _
  rw [hattempt]
  cases hsuccess : o.success <;> simp [hsuccess, Chronicle.after] <;> rfl

/-- The first attempt, and what comes after it. -/
theorem onTrigger_apply (event : Option Record) :
    ∃ start o d', onTrigger b event d =
        Chronicle.after (match o.state with
          | .idle => ⟨[], .ok o, d'⟩
          | .completed => succeed b o d'
          | .failed => onError b o.error event (some o) d') ⟨d.path, .runs .onTrigger start o⟩ ∧
      d.Follows d' ∧
      (o.state = .idle → b.hasTrigger .onTrigger = false) ∧
      (o.state = .failed → ∃ failure, o.error = some failure) := by
  obtain ⟨start, o, d', hattempt, hfollows, hidle, hfailed⟩ := attempt_apply b d event
  refine ⟨start, o, d', ?_, hfollows, fun h => (hidle h).1, hfailed⟩
  rw [onTrigger, bind_apply, hattempt]
  cases hstate : o.state <;> simp [hstate, Chronicle.after]

/-- Once nothing waits any more, further attempts are made. -/
theorem onError_apply (error : Option Failure) (event : Option Record) (first : Option Outcome) :
    onError b error event first d = Chronicle.after (match b.retries with
      | .ok n => retry b event error first 1 n (d.discarded d.path)
      | .error f => ⟨[], .error f, d.discarded d.path⟩) ⟨d.path, .fails⟩ := by
  cases hretries : b.retries <;>
    simp [onError, bind_apply, quiet_apply, hretries, Chronicle.after]

end Run

section Preserves

variable {I : List Entry → Desk → Prop} {allowed : Deed → Prop}

/-- A deal that keeps an invariant of the chronicle and the desk, whatever was told before. -/
def Preserves (I : List Entry → Desk → Prop) (w : Telling α) : Prop :=
  ∀ entries d, I entries d → I (entries ++ (w d).entries) (w d).desk

/-- An invariant that no work on the item breaks, nor the deeds that are allowed. -/
structure Lasting (I : List Entry → Desk → Prop) (allowed : Deed → Prop) : Prop where
  follows {entries : List Entry} {d d' : Desk} : I entries d → d.Follows d' → I entries d'
  deed {entries : List Entry} {d : Desk} {deed : Deed} :
    I entries d → allowed deed → I (entries ++ [⟨d.path, deed⟩]) d

theorem follow {entries : List Entry} {d : Desk} {m : Telling α} {k : α → Telling β}
    (h : I (entries ++ (m d).entries) (m d).desk) (hk : ∀ a, Preserves I (k a)) :
    I (entries ++ ((m >>= k) d).entries) ((m >>= k) d).desk := by
  rw [bind_apply]
  rcases hrun : m d with ⟨es, _ | a, d'⟩
  · simpa [hrun] using h
  · rw [hrun] at h
    simpa using hk a _ _ h

namespace Preserves

theorem pure (a : α) : Preserves I (Pure.pure a : Telling α) := fun entries d h => by simpa using h

theorem bind {m : Telling α} {k : α → Telling β} (hm : Preserves I m)
    (hk : ∀ a, Preserves I (k a)) : Preserves I (m >>= k) :=
  fun entries d h => follow (hm entries d h) hk

theorem quiet {m : Deal α} (h : ∀ entries d, I entries d → I entries (m.run d).2) :
    Preserves I (quiet m) :=
  fun entries d hI => by simpa [quiet_apply] using h entries d hI

/-- A deal that only looks. -/
theorem look {m : Deal α} (h : ∀ d, (m.run d).2 = d) : Preserves I (Telling.quiet m) :=
  .quiet fun _ d hI => (h d).symm ▸ hI

theorem ite (c : Prop) [Decidable c] {m n : Telling α} (hm : Preserves I m) (hn : Preserves I n) :
    Preserves I (if c then m else n) := by
  split
  · exact hm
  · exact hn

theorem orElse (found : Option α) {other : Telling α} (h : Preserves I other) :
    Preserves I (orElse found other) := by
  cases found with
  | none => exact h
  | some a => exact .pure a

theorem withoutRun (b : Binding) (state : RunState) (error : Option Failure) :
    Preserves I (Telling.quiet (b.withoutRun state error)) :=
  .look fun d => by
    simp only [Binding.withoutRun, Deal.run_bind, Deal.run_get, Deal.run_ofResult]
    cases Context.start d.item none none none none b.tag [] <;> rfl

end Preserves

namespace Lasting

variable (hI : Lasting I allowed) (b : Binding)

include hI

theorem tell {deed : Deed} (h : allowed deed) : Preserves I (tell deed) :=
  fun _ _ hentries => hI.deed hentries h

theorem edit (u : Update) (h : ∀ d result, allowed (.marks d u result)) : Preserves I (edit b u) :=
  fun _ d hentries => hI.follows (hI.deed hentries (h _ _)) (follows_edit b d u)

theorem runTrigger {kind : TriggerKind} (h : ∀ start o, allowed (.runs kind start o))
    (withBuffer : Bool) (document : Option String) (vars : Record) :
    Preserves I (runTrigger b kind withBuffer document vars) := by
  intro entries d hentries
  cases hstart : Context.start d.item none document (if withBuffer then d.buffer else none)
    kind.text b.config.tag vars with
  | error f => simpa [runTrigger_error b kind d withBuffer document vars hstart] using hentries
  | ok start =>
    obtain ⟨o, d', hrun, hfollows, -⟩ := runTrigger_ok b kind d withBuffer document vars hstart
    rw [hrun]
    exact hI.follows (hI.deed hentries (h start o)) hfollows

theorem runHandler {kind : TriggerKind} (h : ∀ start o, allowed (.runs kind start o))
    (extra : Record) : Preserves I (runHandler b kind extra) :=
  .ite _ (.bind (hI.runTrigger b h _ _ _) fun _ => .pure _) (.pure none)

theorem reportFailure (hhandler : ∀ start o, allowed (.runs .onError start o))
    (hmark : ∀ d u result, allowed (.marks d u result)) (error : Option Failure)
    (last : Option Outcome) : Preserves I (reportFailure b error last) := by
  refine .bind ?_ fun handled => .orElse _ <|
    .bind (hI.edit b _ fun d => hmark d _) fun _ => .orElse _ (.withoutRun b _ _)
  cases error with
  | none => exact .pure none
  | some failure => exact hI.runHandler b hhandler _

theorem onReset (hhandler : ∀ start o, allowed (.runs .onReset start o))
    (hmark : ∀ d u result, allowed (.marks d u result)) : Preserves I (onReset b) :=
  .bind (hI.runHandler b hhandler _) fun _ =>
    .orElse _ (.bind (hI.edit b _ fun d => hmark d _) fun _ => .withoutRun b _ _)

theorem onEnter (h : ∀ start o, allowed (.runs .onEnter start o)) (document : Option String) :
    Preserves I (onEnter b document) := by
  have hnote (outcome : Outcome) : Preserves I (Telling.quiet (b.noteBelow outcome)) := by
    refine .quiet fun _ d hentries => hI.follows hentries ?_
    unfold Binding.noteBelow
    cases hbuffer : d.buffer with
    | none => simp [Deal.run_bind, hbuffer, Desk.Follows.refl]
    | some buffer =>
      simp only [Deal.run_bind, Deal.run_get, hbuffer, Deal.run_ofResult]
      rcases buffer.line _ with _ | line
      · exact .refl d
      · dsimp only
        rcases Buffer.setCursor _ _ with _ | buffer
        · exact .refl d
        · exact ⟨rfl, rfl⟩
  refine .ite _ (.pure none) (.bind (hI.runTrigger b h _ _ _) fun outcome => ?_)
  exact .bind (.look fun _ => rfl) fun _ =>
    .ite _ (.bind (hnote outcome) fun _ => .pure _) (.pure _)

theorem onData (h : ∀ start o, allowed (.runs .onData start o)) (data : Value)
    (document : Option String) : Preserves I (onData b data document) :=
  .ite _ (.pure none) (.bind (hI.runTrigger b h _ _ _) fun _ => .pure _)

end Lasting

end Preserves

end Telling

end BulletScript.Engine
