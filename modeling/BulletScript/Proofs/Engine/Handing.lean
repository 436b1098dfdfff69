import BulletScript.Proofs.Engine.Chronicle
import Mathlib.Data.List.Induction

/-! The response of a success is handed on to the run of `onDone` at the same path. What a run of
`onDone` sees is decided by the chronicle: it is the response of the last success at its path, unless
a failure was dealt with there since, or `onDone` ran. -/
namespace BulletScript.Engine

open Script Tasks

/-- An event that a script is called for. -/
inductive Call where
  | trigger (event : Option Record)
  | failure (error : Option Failure) (event : Option Record) (first : Option Outcome)
  | reset
  | statusChange (oldStatus newStatus : String)
  | enter (document : Option String)
  | data (payload : Value) (document : Option String)

namespace Call

variable (b : Binding)

def deal : Call → Deal Unit
  | .trigger event => do let _ ← b.onTrigger event
  | .failure error event first => do let _ ← b.onError error event first
  | .reset => do let _ ← b.onReset
  | .statusChange oldStatus newStatus => do let _ ← b.onStatusChange oldStatus newStatus
  | .enter document => do let _ ← b.onEnter document
  | .data payload document => do let _ ← b.onData payload document

def told : Call → Telling Unit
  | .trigger event => do let _ ← Telling.onTrigger b event
  | .failure error event first => do let _ ← Telling.onError b error event first
  | .reset => do let _ ← Telling.onReset b
  | .statusChange oldStatus newStatus => do let _ ← Telling.onStatusChange b oldStatus newStatus
  | .enter document => do let _ ← Telling.onEnter b document
  | .data payload document => do let _ ← Telling.onData b payload document

theorem plain_told (call : Call) : (call.told b).plain = call.deal b := by
  cases call <;> simp [told, deal]

end Call

theorem triggerOfStatus?_eq_some {status : String} {kind : TriggerKind}
    (h : triggerOfStatus? status = some kind) :
    kind ≠ .onTrigger ∧ (kind = .onDone ↔ status = "x") := by
  obtain ⟨before, after, htriggers, -⟩ := List.lookup_eq_some_iff.1 h
  have hmem : (status, kind) ∈ before ++ (status, kind) :: after := by simp
  rw [← htriggers] at hmem
  simp only [List.mem_cons, Prod.mk.injEq, List.not_mem_nil, or_false] at hmem
  obtain ⟨rfl, rfl⟩ | ⟨rfl, rfl⟩ | ⟨rfl, rfl⟩ | ⟨rfl, rfl⟩ := hmem <;> decide

/-- What was done in calls one after the other, for any scripts and any items, and the desk they
leave. Between two calls everything may change but the responses that wait. -/
inductive History : List Entry → Desk → Prop
  | start (d : Desk) (h : d.pending = []) : History [] d
  | call {entries : List Entry} {d : Desk} (history : History entries d) (b : Binding) (call : Call)
      (d' : Desk) (h : d'.pending = d.pending) :
      History (entries ++ (call.told b d').entries) ((call.deal b).run d').2

namespace Entry

/-- An attempt at a path that was a success, and its response. -/
def Succeeds (e : Entry) (path : String) (response : Value) : Prop :=
  e.path = path ∧ ∃ start o, e.deed = .runs .onTrigger start o ∧ o.state = .completed ∧
    Binding.responseOf o = response

/-- A failure at a path is dealt with, or `onDone` runs there. -/
def Settles (e : Entry) (path : String) : Prop :=
  e.path = path ∧ (e.deed = .fails ∨ ∃ start o, e.deed = .runs .onDone start o)

end Entry

/-- The last success at a path has this response, and nothing at the path has settled it since. -/
def LastSuccess (entries : List Entry) (path : String) (response : Value) : Prop :=
  ∃ before e after, entries = before ++ e :: after ∧ e.Succeeds path response ∧
    ∀ later ∈ after, ¬ later.Settles path ∧ ∀ v, ¬ later.Succeeds path v

/-- What waits at a path after a deed, by what waited there before. -/
def Deed.leaves (waiting : Option Value) : Deed → Option Value
  | .runs .onTrigger _ o => if o.state = .completed then some (Binding.responseOf o) else waiting
  | .runs .onDone _ _ | .fails => none
  | _ => waiting

/-- What waits at a path after the entries. -/
def waitingAt (path : String) (entries : List Entry) : Option Value :=
  entries.foldl (fun waiting e => if e.path = path then e.deed.leaves waiting else waiting) none

section Waiting

variable {path : String} {entries : List Entry} {e : Entry} {v : Value}

theorem waitingAt_concat : waitingAt path (entries ++ [e]) =
    if e.path = path then e.deed.leaves (waitingAt path entries) else waitingAt path entries := by
  simp [waitingAt]

theorem waitingAt_of_succeeds (entries : List Entry) (h : e.Succeeds path v) :
    waitingAt path (entries ++ [e]) = some v := by
  obtain ⟨hpath, start, o, hdeed, hstate, hresponse⟩ := h
  simp [waitingAt_concat, hpath, hdeed, Deed.leaves, hstate, hresponse]

theorem waitingAt_of_settles (entries : List Entry) (h : e.Settles path) :
    waitingAt path (entries ++ [e]) = none := by
  obtain ⟨hpath, hdeed | ⟨start, o, hdeed⟩⟩ := h <;>
    simp [waitingAt_concat, hpath, hdeed, Deed.leaves]

theorem waitingAt_of_neither (hsettles : ¬ e.Settles path) (hsucceeds : ∀ v, ¬ e.Succeeds path v) :
    waitingAt path (entries ++ [e]) = waitingAt path entries := by
  rw [waitingAt_concat]
  split
  · rename_i hpath
    obtain ⟨_, deed⟩ := e
    unfold Deed.leaves
    split
    · rename_i start o hdeed
      exact if_neg fun hstate => hsucceeds _ ⟨hpath, start, o, hdeed, hstate, rfl⟩
    · rename_i start o hdeed
      exact absurd ⟨hpath, .inr ⟨start, o, hdeed⟩⟩ hsettles
    · rename_i hdeed
      exact absurd ⟨hpath, .inl hdeed⟩ hsettles
    · rfl
  · rfl

theorem Entry.Succeeds.not_settles (h : e.Succeeds path v) : ¬ e.Settles path := by
  intro hsettles
  have h := (waitingAt_of_succeeds [] h).symm.trans (waitingAt_of_settles [] hsettles)
  cases h

theorem LastSuccess.concat_iff : LastSuccess (entries ++ [e]) path v ↔
    e.Succeeds path v ∨
      LastSuccess entries path v ∧ ¬ e.Settles path ∧ ∀ w, ¬ e.Succeeds path w := by
  constructor
  · rintro ⟨before, found, after, heq, hfound, hafter⟩
    rcases List.eq_nil_or_concat after with rfl | ⟨after, last, rfl⟩
    · obtain ⟨-, hlast⟩ := List.append_inj' heq rfl
      exact .inl (List.singleton_inj.1 hlast ▸ hfound)
    · rw [List.concat_eq_append, ← List.cons_append, ← List.append_assoc] at heq
      obtain ⟨hentries, hlast⟩ := List.append_inj' heq rfl
      obtain rfl := List.singleton_inj.1 hlast
      exact .inr ⟨⟨before, found, after, hentries, hfound, fun later h => hafter later (by simp [h])⟩,
        hafter e (by simp)⟩
  · rintro (hlast | ⟨⟨before, found, after, rfl, hfound, hafter⟩, hnot⟩)
    · exact ⟨entries, e, [], rfl, hlast, by simp⟩
    · refine ⟨before, found, after ++ [e], by simp, hfound, fun later hlater => ?_⟩
      rcases List.mem_append.1 hlater with hlater | hlater
      · exact hafter later hlater
      · exact List.mem_singleton.1 hlater ▸ hnot

theorem waitingAt_eq_some_iff : waitingAt path entries = some v ↔ LastSuccess entries path v := by
  induction entries using List.reverseRecOn with
  | nil => simp [waitingAt, LastSuccess]
  | append_singleton entries e ih =>
    rw [LastSuccess.concat_iff, ← ih]
    by_cases hsettles : e.Settles path
    · rw [waitingAt_of_settles entries hsettles]
      simp only [reduceCtorEq, hsettles, not_true_eq_false, false_and, and_false, or_false, false_iff]
      exact fun h => h.not_settles hsettles
    · by_cases hsucceeds : ∃ w, e.Succeeds path w
      · obtain ⟨w, hw⟩ := hsucceeds
        rw [waitingAt_of_succeeds entries hw]
        constructor
        · rintro ⟨⟩
          exact .inl hw
        · rintro (h | ⟨-, -, h⟩)
          · exact (waitingAt_of_succeeds [] hw).symm.trans (waitingAt_of_succeeds [] h)
          · exact absurd hw (h w)
      · rw [not_exists] at hsucceeds
        simp [waitingAt_of_neither hsettles hsucceeds, hsettles, hsucceeds]

theorem waitingAt_append_of_none (h : waitingAt path entries = none) (more : List Entry) :
    waitingAt path (entries ++ more) = waitingAt path more := by
  rw [waitingAt, List.foldl_append, ← waitingAt, h]
  rfl

/-- Only what is done at a path counts there. -/
theorem waitingAt_filter :
    waitingAt path (entries.filter (·.path = path)) = waitingAt path entries := by
  induction entries using List.reverseRecOn with
  | nil => rfl
  | append_singleton entries e ih =>
    rw [List.filter_append, waitingAt_concat]
    by_cases hpath : e.path = path
    · simp [hpath, waitingAt_concat, ih]
    · simp [hpath, ih]

end Waiting

/-- The responses that wait are those that the chronicle leaves, and each run of `onDone` saw the one
that waited at its path. A response that is null counts as none. -/
structure Accords (entries : List Entry) (d : Desk) : Prop where
  waits : ∀ path, Value.present (d.pending.lookup path) =
    Value.present (waitingAt path entries)
  saw : ∀ before path start o after, entries = before ++ ⟨path, .runs .onDone start o⟩ :: after →
    start.vars.get? "response" = Value.present (waitingAt path before)

namespace Accords

variable {entries : List Entry} {d d' : Desk} {path : String} {deed : Deed}

theorem start (h : d.pending = []) : Accords [] d where
  waits path := by simp [h, waitingAt]
  saw before path start o after h := by simp at h

theorem of_pending (h : Accords entries d) (hpending : d'.pending = d.pending) :
    Accords entries d' :=
  ⟨fun path => by rw [hpending, h.waits path], h.saw⟩

theorem concat {e : Entry} (h : Accords entries d)
    (hwaits : ∀ path, Value.present (d'.pending.lookup path) =
      Value.present (waitingAt path (entries ++ [e])))
    (hsaw : ∀ path start o, e = ⟨path, .runs .onDone start o⟩ →
      start.vars.get? "response" = Value.present (waitingAt path entries)) :
    Accords (entries ++ [e]) d' where
  waits := hwaits
  saw before path start o after heq := by
    rcases List.eq_nil_or_concat after with rfl | ⟨after, last, rfl⟩
    · obtain ⟨rfl, hlast⟩ := List.append_inj' heq rfl
      exact hsaw path start o (List.singleton_inj.1 hlast)
    · rw [List.concat_eq_append, ← List.cons_append, ← List.append_assoc] at heq
      exact h.saw before path start o after (List.append_inj' heq rfl).1

theorem neutral (h : Accords entries d) (hpending : d'.pending = d.pending)
    (hleaves : ∀ waiting, deed.leaves waiting = waiting) :
    Accords (entries ++ [⟨path, deed⟩]) d' := by
  refine h.concat (fun p => ?_) fun p start o heq => ?_
  · rw [hpending, h.waits p, waitingAt_concat, hleaves, ite_self]
  · injection heq with _ hdeed
    have hnone := hleaves (some .null)
    rw [hdeed] at hnone
    cases hnone

end Accords

/-- A deed after which the same response waits. -/
def Deed.IsNeutral (deed : Deed) : Prop := ∀ waiting, deed.leaves waiting = waiting

theorem isNeutral_runs {kind : TriggerKind} (hkind : kind ≠ .onTrigger ∧ kind ≠ .onDone)
    (start : Context) (o : Outcome) : (Deed.runs kind start o).IsNeutral := by
  intro waiting
  cases kind <;> simp [Deed.leaves] at hkind ⊢

theorem isNeutral_marks (d : Desk) (u : Update) (result : Except Failure Unit) :
    (Deed.marks d u result).IsNeutral :=
  fun _ => rfl

theorem lasting_accords : Telling.Lasting Accords Deed.IsNeutral where
  follows h hfollows := h.of_pending hfollows.pending
  deed h hneutral := h.neutral rfl hneutral

namespace Accords

variable {entries : List Entry} {d : Desk} {b : Binding}

open Telling

/-- A success is dealt with: the response that is kept is the one that the chronicle leaves. -/
theorem onSuccess {response : Value} (h : Accords entries (d.stashed d.path response)) :
    Accords (entries ++ (onSuccess b response d).entries) (onSuccess b response d).desk := by
  have hmark : Preserves Accords (do
      let mark := if b.editsLine then "" else b.stamp successMark
      let cleared := b.clearErrors "clearErrorsOnSuccess"
      if mark = "" ∧ cleared = "" then return
      Telling.edit b (Binding.successEdit mark cleared)) :=
    .ite _ (.pure ()) (lasting_accords.edit b _ fun d => isNeutral_marks d _)
  have hkept : Accords (entries ++ [⟨d.path, .succeeds response⟩]) (d.stashed d.path response) :=
    h.neutral rfl fun _ => rfl
  have htold := hmark _ _ hkept
  simpa [Telling.onSuccess, bind_apply, quiet_apply] using htold

/-- An attempt that was a success is dealt with. -/
theorem success {d' : Desk} (start : Context) {o : Outcome} (h : Accords entries d)
    (hfollows : d.Follows d') (hsuccess : o.success = true)
    (hidle : o.state = .idle → d.pending.lookup d.path = none ∧ Binding.responseOf o = .null) :
    Accords (entries ++ [⟨d.path, .runs .onTrigger start o⟩])
      (d'.stashed d'.path (Binding.responseOf o)) := by
  refine h.concat (fun path => ?_) fun path start' o' heq => by cases heq
  rw [Desk.lookup_stashed, waitingAt_concat, hfollows.path, hfollows.pending]
  by_cases hpath : path = d.path
  · subst hpath
    rw [if_pos rfl, if_pos rfl, Deed.leaves]
    split
    · rfl
    · have hstate : o.state = .idle := by
        cases hstate : o.state <;> simp_all [Outcome.success]
      rw [← h.waits, (hidle hstate).1, (hidle hstate).2]
      rfl
  · rw [if_neg hpath, if_neg (Ne.symm hpath), h.waits]

/-- What is done after an entry. -/
theorem after {e : Entry} {c : Chronicle Outcome}
    (h : Accords (entries ++ [e] ++ c.entries) c.desk) :
    Accords (entries ++ (c.after e).entries) (c.after e).desk := by
  rw [Chronicle.after, List.append_cons]
  exact h

theorem succeed {d' : Desk} {start : Context} {o : Outcome}
    (h : Accords (entries ++ [⟨d.path, .runs .onTrigger start o⟩])
      (d'.stashed d'.path (Binding.responseOf o))) :
    Accords (entries ++ ((succeed b o d').after ⟨d.path, .runs .onTrigger start o⟩).entries)
      ((succeed b o d').after ⟨d.path, .runs .onTrigger start o⟩).desk :=
  after (follow h.onSuccess fun _ => .pure o)

/-- Attempts are made while nothing waits at the path. -/
theorem retry (event : Option Record) (error : Option Failure) (last : Option Outcome)
    (number remaining : Nat) (h : Accords entries d) (hnone : d.pending.lookup d.path = none) :
    Accords (entries ++ (retry b event error last number remaining d).entries)
      (retry b event error last number remaining d).desk := by
  induction remaining generalizing entries d error last number with
  | zero =>
    exact lasting_accords.reportFailure b (isNeutral_runs (by decide)) isNeutral_marks error last _ _ h
  | succ remaining ih =>
    obtain ⟨start, o, d', hretry, hfollows, hidle, -⟩ :=
      retry_apply b d event error last number remaining
    rw [hretry]
    cases hsuccess : o.success with
    | true => exact succeed (h.success start hfollows hsuccess fun hstate => ⟨hnone, (hidle hstate).2⟩)
    | false =>
      refine after (ih _ _ _ (h.neutral hfollows.pending fun waiting => if_neg fun hstate => ?_) ?_)
      · simp [Outcome.success, hstate] at hsuccess
      · rw [hfollows.pending, hfollows.path, hnone]

theorem onError (error : Option Failure) (event : Option Record) (first : Option Outcome)
    (h : Accords entries d) :
    Accords (entries ++ (onError b error event first d).entries)
      (onError b error event first d).desk := by
  have hdropped : Accords (entries ++ [⟨d.path, .fails⟩]) (d.discarded d.path) := by
    refine h.concat (fun path => ?_) fun path start o heq => by cases heq
    rw [Desk.lookup_discarded, waitingAt_concat]
    by_cases hpath : path = d.path
    · simp [hpath, Deed.leaves]
    · rw [if_neg hpath, if_neg (Ne.symm hpath), h.waits]
  have hnone : (d.discarded d.path).pending.lookup d.path = none := by
    simp [Desk.lookup_discarded]
  rw [onError_apply]
  cases b.retries with
  | error f => exact hdropped
  | ok n => exact after (hdropped.retry event error first 1 n hnone)

theorem onTrigger (event : Option Record) (h : Accords entries d) :
    Accords (entries ++ (onTrigger b event d).entries) (onTrigger b event d).desk := by
  obtain ⟨start, o, d', hrun, hfollows, -, -⟩ := onTrigger_apply b d event
  rw [hrun]
  have hquiet (hstate : o.state ≠ .completed) :
      Accords (entries ++ [⟨d.path, .runs .onTrigger start o⟩]) d' :=
    h.neutral hfollows.pending fun waiting => if_neg hstate
  cases hstate : o.state with
  | idle => exact hquiet (by simp [hstate])
  | completed =>
    have hsuccess : o.success = true := by simp [Outcome.success, hstate]
    exact succeed (h.success start hfollows hsuccess fun hidle => by rw [hstate] at hidle; cases hidle)
  | failed => exact after ((hquiet (by simp [hstate])).onError o.error event o)

/-- An item that is done runs `onDone` with the response that waits, and takes it. -/
theorem onStatusChange_done (hdone : b.hasTrigger .onDone = true) (oldStatus : String) (d : Desk) :
    ∃ start o d', Telling.onStatusChange b oldStatus "x" d =
        ⟨[⟨d.path, .runs .onDone start o⟩], .ok (some o), d'⟩ ∧
      (d.discarded d.path).Follows d' ∧
      Context.start d.item none none none TriggerKind.onDone.text b.config.tag
        (b.varsWith [("event", .map [("fromStatus", .str oldStatus), ("toStatus", .str "x")]),
          ("response", (d.pending.lookup d.path).getD .null)]) = .ok start := by
  obtain ⟨start, o, d', hrun, hfollows, hstart, -⟩ := run_apply b .onDone (d.discarded d.path)
    [("event", .map [("fromStatus", .str oldStatus), ("toStatus", .str "x")]),
      ("response", (d.pending.lookup d.path).getD .null)]
  refine ⟨start, o, d', ?_, hfollows, hstart⟩
  have hkind : (triggerOfStatus? "x").filter b.hasTrigger = some .onDone :=
    Option.filter_eq_some_iff.2 ⟨rfl, hdone⟩
  unfold Telling.onStatusChange
  simp [hkind, bind_apply, quiet_apply, Deal.run_bind, hrun]

/-- `onDone` takes the response that waits, and sees it. -/
theorem done (event : Value) (h : Accords entries d) {start : Context} {o : Outcome} {d' : Desk}
    (hfollows : (d.discarded d.path).Follows d')
    (hstart : Context.start d.item none none none TriggerKind.onDone.text b.config.tag
      (b.varsWith [("event", event),
        ("response", (d.pending.lookup d.path).getD .null)]) = .ok start) :
    Accords (entries ++ [⟨d.path, .runs .onDone start o⟩]) d' := by
  refine h.concat (fun path => ?_) fun path start' o' heq => ?_
  · rw [hfollows.pending, Desk.lookup_discarded, waitingAt_concat]
    by_cases hpath : path = d.path
    · simp [hpath, Deed.leaves]
    · rw [if_neg hpath, if_neg (Ne.symm hpath), h.waits]
  · injection heq with hpath hdeed
    injection hdeed with _ hstart'
    subst hpath hstart'
    rw [← h.waits]
    refine (start_sees [("event", event), ("response", _)] (by simp) hstart (by decide)).trans ?_
    cases d.pending.lookup d.path <;> rfl

theorem onStatusChange (oldStatus newStatus : String) (h : Accords entries d) :
    Accords (entries ++ (onStatusChange b oldStatus newStatus d).entries)
      (onStatusChange b oldStatus newStatus d).desk := by
  cases hkind : (triggerOfStatus? newStatus).filter b.hasTrigger with
  | none => simpa [Telling.onStatusChange, hkind] using h
  | some kind =>
    obtain ⟨hstatus, htrigger⟩ := Option.filter_eq_some_iff.1 hkind
    obtain ⟨hother, hdone⟩ := triggerOfStatus?_eq_some hstatus
    by_cases hx : newStatus = "x"
    · subst hx
      obtain rfl := hdone.2 rfl
      obtain ⟨start, o, d', hrun, hfollows, hstart⟩ := onStatusChange_done htrigger oldStatus d
      rw [hrun]
      exact h.done _ hfollows hstart
    · have hneutral := isNeutral_runs ⟨hother, fun h => hx (hdone.1 h)⟩
      simp only [Telling.onStatusChange, hkind]
      refine Preserves.bind (.look fun d => ?_) (fun _ => ?_) _ _ h
      · simp [hx]
      · exact .bind (lasting_accords.runTrigger b hneutral _ _ _) fun _ => .pure _

theorem call (call : Call) (b : Binding) (h : Accords entries d) :
    Accords (entries ++ (call.told b d).entries) ((call.deal b).run d).2 := by
  rw [← call.plain_told, run_plain]
  cases call with
  | trigger event => exact follow (h.onTrigger event) fun _ => .pure ()
  | failure error event first => exact follow (h.onError error event first) fun _ => .pure ()
  | reset =>
    refine Preserves.bind ?_ (fun _ => .pure ()) _ _ h
    exact lasting_accords.onReset b (isNeutral_runs (by decide)) isNeutral_marks
  | statusChange oldStatus newStatus =>
    exact follow (h.onStatusChange oldStatus newStatus) fun _ => .pure ()
  | enter document =>
    refine Preserves.bind ?_ (fun _ => .pure ()) _ _ h
    exact lasting_accords.onEnter b (isNeutral_runs (by decide)) document
  | data payload document =>
    refine Preserves.bind ?_ (fun _ => .pure ()) _ _ h
    exact lasting_accords.onData b (isNeutral_runs (by decide)) payload document

end Accords

theorem History.accords {entries : List Entry} {d : Desk} (h : History entries d) :
    Accords entries d := by
  induction h with
  | start d h => exact .start h
  | call _ b call d' hpending ih => exact (ih.of_pending hpending).call call b

/-- All that was done is of one path, and the item at hand is there. -/
def AllAt (path : String) (entries : List Entry) (d : Desk) : Prop :=
  (∀ e ∈ entries, e.path = path) ∧ d.path = path

section Path

variable {path : String}

open Telling

theorem lasting_allAt : Lasting (AllAt path) fun _ => True where
  follows h hfollows := ⟨h.1, hfollows.path.trans h.2⟩
  deed h _ := by
    refine ⟨fun e he => ?_, h.2⟩
    rcases List.mem_append.1 he with he | he
    · exact h.1 e he
    · rw [List.mem_singleton.1 he]
      exact h.2

namespace AllAt

variable (b : Binding)

theorem run (kind : TriggerKind) (extra : Record) : Preserves (AllAt path) (run b kind extra) :=
  lasting_allAt.runTrigger b (fun _ _ => trivial) _ _ _

theorem onSuccess (response : Value) : Preserves (AllAt path) (onSuccess b response) := by
  refine .bind (lasting_allAt.tell trivial) fun _ => .bind (.look fun _ => rfl) fun p => ?_
  refine .bind (.quiet fun _ _ h => h) fun _ => ?_
  exact .ite _ (.pure ()) (lasting_allAt.edit b _ fun _ _ => trivial)

theorem retry (event : Option Record) (error : Option Failure) (last : Option Outcome)
    (number remaining : Nat) :
    Preserves (AllAt path) (retry b event error last number remaining) := by
  induction remaining generalizing error last number with
  | zero => exact lasting_allAt.reportFailure b (fun _ _ => trivial) (fun _ _ _ => trivial) error last
  | succ remaining ih =>
    refine .bind (.look fun _ => rfl) fun d => .bind (.quiet fun _ _ h => h) fun _ => ?_
    refine .bind (run b _ _) fun outcome => .ite _ ?_ (ih _ _ _)
    exact .bind (onSuccess b _) fun _ => .pure _

theorem onError (error : Option Failure) (event : Option Record) (first : Option Outcome) :
    Preserves (AllAt path) (onError b error event first) := by
  refine .bind (lasting_allAt.tell trivial) fun _ => .bind (.look fun _ => rfl) fun p => ?_
  refine .bind (.quiet fun _ _ h => h) fun _ => .bind (.look fun _ => rfl) fun n => ?_
  exact retry b event error first 1 n

theorem onTrigger (event : Option Record) : Preserves (AllAt path) (onTrigger b event) := by
  refine .bind (run b _ _) fun outcome => ?_
  cases outcome.state with
  | idle => exact .pure _
  | completed => exact .bind (onSuccess b _) fun _ => .pure _
  | failed => exact onError b _ _ _

theorem onStatusChange (oldStatus newStatus : String) :
    Preserves (AllAt path) (onStatusChange b oldStatus newStatus) := by
  unfold Telling.onStatusChange
  cases (triggerOfStatus? newStatus).filter b.hasTrigger with
  | none => exact .pure none
  | some kind =>
    refine .bind (.quiet fun _ d h => ?_) fun _ => .bind (run b _ _) fun _ => .pure _
    split
    · simpa [Deal.run_bind, AllAt] using h
    · exact h

theorem call (call : Call) : Preserves (AllAt path) (call.told b) := by
  cases call with
  | trigger event => exact .bind (onTrigger b event) fun _ => .pure ()
  | failure error event first => exact .bind (onError b error event first) fun _ => .pure ()
  | reset =>
    exact .bind (lasting_allAt.onReset b (fun _ _ => trivial) fun _ _ _ => trivial) fun _ => .pure ()
  | statusChange oldStatus newStatus =>
    exact .bind (onStatusChange b oldStatus newStatus) fun _ => .pure ()
  | enter document =>
    exact .bind (lasting_allAt.onEnter b (fun _ _ => trivial) document) fun _ => .pure ()
  | data payload document =>
    exact .bind (lasting_allAt.onData b (fun _ _ => trivial) payload document) fun _ => .pure ()

end AllAt

/-- A call for an item at another path leaves what waits at a path. -/
theorem waitingAt_told (b : Binding) (call : Call) {d : Desk} (h : d.path ≠ path)
    (entries : List Entry) :
    waitingAt path (entries ++ (call.told b d).entries) = waitingAt path entries := by
  have hall := (AllAt.call b call [] d ⟨by simp, rfl⟩).1
  have hnone : (call.told b d).entries.filter (·.path = path) = [] := by
    refine List.filter_eq_nil_iff.2 fun e he => ?_
    rw [decide_eq_true_iff, hall e he]
    exact h
  rw [← waitingAt_filter, List.filter_append, hnone, List.append_nil, waitingAt_filter]

end Path

/-- A run of `onDone` sees the response of the last success at its path, unless a failure was dealt
with there since or `onDone` ran, or the response is null. So no two runs see one response, and what
is done for items at other paths changes nothing. -/
theorem done_sees_last_success {before after : List Entry} {d : Desk} {path : String}
    {start : Context} {o : Outcome}
    (h : History (before ++ ⟨path, .runs .onDone start o⟩ :: after) d) :
    (∀ v, start.vars.get? "response" = some v ↔ LastSuccess before path v ∧ v ≠ .null) ∧
    (∀ between rest start' o' v, after = between ++ ⟨path, .runs .onDone start' o'⟩ :: rest →
      start'.vars.get? "response" = some v → LastSuccess between path v) ∧
    ∀ (b : Binding) (call : Call) (d' : Desk), d'.path ≠ path → ∀ v,
      LastSuccess (before ++ (call.told b d').entries) path v ↔ LastSuccess before path v := by
  have haccords := h.accords
  refine ⟨fun v => ?_, fun between rest start' o' v hafter hsees => ?_, fun b call d' hpath v => ?_⟩
  · rw [haccords.saw before path start o after rfl, Value.present_eq_some_iff, waitingAt_eq_some_iff]
  · have hsaw := haccords.saw (before ++ ⟨path, .runs .onDone start o⟩ :: between) path start' o' rest
      (by rw [hafter]; simp)
    rw [hsees, eq_comm, Value.present_eq_some_iff] at hsaw
    have hnone : waitingAt path (before ++ [⟨path, .runs .onDone start o⟩]) = none :=
      waitingAt_of_settles before ⟨rfl, .inr ⟨start, o, rfl⟩⟩
    rw [← waitingAt_eq_some_iff, ← hsaw.1, ← List.singleton_append, ← List.append_assoc,
      waitingAt_append_of_none hnone]
  · rw [← waitingAt_eq_some_iff, ← waitingAt_eq_some_iff, waitingAt_told b call hpath]

/-- A script whose `onTrigger` returns a text, with an `onDone`. -/
def mailBinding : Binding where
  tag := "#mail"
  engine := { settings := { documentRoot := "/" }, now := ⟨⟨2026, 1, 1⟩, none, none⟩ }
  config := ⟨[⟨.onTrigger, [.step (.return (some "sent")) [] none]⟩, ⟨.onDone, []⟩], "#mail", []⟩
  options := []

def mailDesk : Desk where
  world := { tree := { root := "/", files := [] } }
  item := some { text := "T", path := "a.md", line := 0, status := " ", tags := [], indent := "" }

theorem done_sees_last_success_mail :
    ∃ start o d, History (((Call.trigger none).told mailBinding mailDesk).entries ++
        ⟨"a.md", .runs .onDone start o⟩ :: []) d ∧
      start.vars.get? "response" = some (.str "sent") := by
  have hsent := (History.start mailDesk rfl).call mailBinding (.trigger none) mailDesk rfl
  have hdone := hsent.call mailBinding (.statusChange " " "x") _ rfl
  have hpath : (((Call.trigger none).deal mailBinding).run mailDesk).2.path = "a.md" := by
    rw [← Call.plain_told]
    exact (AllAt.call mailBinding (.trigger none) [] mailDesk ⟨by simp, rfl⟩).2
  have hresponse : waitingAt "a.md" ((Call.trigger none).told mailBinding mailDesk).entries =
      some (.str "sent") := by
    have hshown : (waitingAt "a.md" ((Call.trigger none).told mailBinding mailDesk).entries).map
        (fun v => (v.typeName, v.plain)) = some ("str", "sent") := by
      decide +kernel
    obtain ⟨v, hv, hshown⟩ := Option.map_eq_some_iff.1 hshown
    cases v <;> simp_all [Value.typeName, Value.plain, ite_eq_iff]
  obtain ⟨start, o, d', hrun, -⟩ := Accords.onStatusChange_done (b := mailBinding) rfl " "
    (((Call.trigger none).deal mailBinding).run mailDesk).2
  have htold : ((Call.statusChange " " "x").told mailBinding
      (((Call.trigger none).deal mailBinding).run mailDesk).2).entries =
        [⟨"a.md", .runs .onDone start o⟩] := by
    rw [Call.told, Telling.bind_apply, hrun, hpath]
    rfl
  rw [htold] at hdone
  refine ⟨start, o, _, hdone, ?_⟩
  exact ((done_sees_last_success hdone).1 (.str "sent")).2
    ⟨waitingAt_eq_some_iff.1 hresponse, by simp⟩

end BulletScript.Engine
