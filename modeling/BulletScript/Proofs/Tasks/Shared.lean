import BulletScript.Proofs.Documents.Store
import BulletScript.Proofs.Tasks.Visit
import Mathlib.Logic.Function.Basic

/-! What a call depends on and what it changes: its item and the document of its item. A document
that is written was a file before, so that the tree stays alike. -/
namespace BulletScript.Tasks

open Text Outline Files

variable {editor : Editor} {job : Job}

/-- How an item changes does not move it to another document. -/
theorem Job.outcome_settle_path {unit s text : String} {item : WorkItem} {index : Nat}
    {settle : WorkItem → WorkItem} (h : job.outcome unit item s index = .ok (text, settle))
    (item' : WorkItem) : (settle item').path = item'.path := by
  cases job with
  | update u => cases h; rfl
  | mark c =>
    simp only [outcome] at h
    split at h
    · cases h
    · cases h; rfl

/-- A call that has read its document and not written it yet. -/
def Phase.HasRead : Phase → Prop
  | .loaded _ | .ready .. => True
  | _ => False

/-- What is still to be done to the item leaves it in its document. -/
def Phase.KeepsPath : Phase → Prop
  | .ready _ settle | .written settle => ∀ item, (settle item).path = item.path
  | _ => True

namespace Visit

variable {v w : Visit}

/-- The place of the document of a call. -/
def place (editor : Editor) (v : Visit) : Result Place := editor.store.place v.tree v.item.path

/-- A step leaves the item in its document, and so does what is still to be done then. -/
theorem next_keepsPath (job : Job) (h : v.phase.KeepsPath) :
    (v.next editor job).item.path = v.item.path ∧ (v.next editor job).phase.KeepsPath ∧
      (v.next editor job).place editor = v.place editor := by
  obtain ⟨phase, tree, item⟩ := v
  cases phase with
  | started => simp only [next]; split <;> exact ⟨rfl, trivial, rfl⟩
  | loaded s =>
    simp only [next]
    split
    · exact ⟨rfl, trivial, rfl⟩
    · split
      · rename_i houtcome
        exact ⟨rfl, Job.outcome_settle_path houtcome, rfl⟩
      · exact ⟨rfl, trivial, rfl⟩
  | ready text settle =>
    simp only [next]
    split
    · rename_i hwrite
      obtain ⟨place, -, -, rfl⟩ := Documents.Store.write_eq_ok.1 hwrite
      exact ⟨rfl, h, rfl⟩
    · exact ⟨rfl, trivial, rfl⟩
  | written settle =>
    refine ⟨h item, trivial, ?_⟩
    rw [place, place]
    exact congrArg _ (h item)
  | ended result => exact ⟨rfl, trivial, rfl⟩

/-- A call that can have come as far as it says. -/
structure Sound (editor : Editor) (v : Visit) : Prop where
  isFile : v.phase.HasRead → ∃ place, v.place editor = .ok place ∧ v.tree.isFile place
  keepsPath : v.phase.KeepsPath

/-- What a call changes from one point to a later one: nothing but its item and its document. -/
structure Leads (editor : Editor) (v w : Visit) : Prop where
  alike : v.tree.Alike w.tree
  path : w.item.path = v.item.path
  others : ∀ q, v.place editor ≠ .ok q → w.tree.file? q = v.tree.file? q

theorem Leads.refl (v : Visit) : v.Leads editor v := ⟨.refl _, rfl, fun _ _ => rfl⟩

theorem Leads.place (h : v.Leads editor w) : w.place editor = v.place editor := by
  rw [Visit.place, Visit.place, h.path]
  exact Documents.Store.place_congr h.alike

theorem Leads.trans {x : Visit} (h : v.Leads editor w) (h' : w.Leads editor x) :
    v.Leads editor x :=
  ⟨h.alike.trans h'.alike, h'.path.trans h.path, fun q hq =>
    (h'.others q (h.place ▸ hq)).trans (h.others q hq)⟩

/-- A step of a call changes its item and its document at most. -/
theorem next_leads (job : Job) (hv : v.Sound editor) (ht : v.tree.Grounded) :
    v.Leads editor (v.next editor job) ∧ (v.next editor job).Sound editor := by
  obtain ⟨hpath, hkeeps, -⟩ := @next_keepsPath editor v job hv.keepsPath
  suffices h : v.tree.Alike (v.next editor job).tree ∧
      (∀ q, v.place editor ≠ .ok q → (v.next editor job).tree.file? q = v.tree.file? q) ∧
      ((v.next editor job).phase.HasRead →
        ∃ place, v.place editor = .ok place ∧ v.tree.isFile place) by
    obtain ⟨halike, hothers, hread⟩ := h
    have hleads : v.Leads editor (v.next editor job) := ⟨halike, hpath, hothers⟩
    refine ⟨hleads, fun h => ?_, hkeeps⟩
    obtain ⟨place, hplace, hfile⟩ := hread h
    exact ⟨place, hleads.place.trans hplace, (halike.isFile place).trans hfile⟩
  clear hpath hkeeps
  obtain ⟨phase, tree, item⟩ := v
  cases phase with
  | started =>
    cases hread : editor.store.read tree item.path with
    | error failure => simp only [next, hread]; exact ⟨.refl _, fun _ _ => trivial, False.elim⟩
    | ok s =>
      simp only [next, hread]
      exact ⟨.refl _, fun _ _ => trivial, fun _ => Documents.Store.isFile_of_read hread⟩
  | loaded s =>
    have hfile := hv.isFile trivial
    simp only [next]
    split
    · exact ⟨.refl _, fun _ _ => rfl, False.elim⟩
    · split
      · exact ⟨.refl _, fun _ _ => rfl, fun _ => hfile⟩
      · exact ⟨.refl _, fun _ _ => rfl, False.elim⟩
  | ready text settle =>
    obtain ⟨place, hplace, hfile⟩ := hv.isFile trivial
    cases hwrite : editor.store.write tree item.path text with
    | error failure => simp only [next, hwrite]; exact ⟨.refl _, fun _ _ => trivial, False.elim⟩
    | ok tree' =>
      obtain ⟨place', hplace', -, rfl⟩ := Documents.Store.write_eq_ok.1 hwrite
      obtain rfl := Except.ok.inj (hplace'.symm.trans hplace)
      simp only [next, hwrite]
      refine ⟨Tree.alike_put ht hfile _, fun q hq => ?_, False.elim⟩
      rw [Tree.file?_put, if_neg]
      rintro rfl
      exact hq hplace
  | written settle => exact ⟨.refl _, fun _ _ => rfl, False.elim⟩
  | ended result => exact ⟨.refl _, fun _ _ => rfl, False.elim⟩

/-- What a step preserves, a whole call preserves. -/
theorem run_induction {P : Visit → Prop} (hnext : ∀ v, P v → P (v.next editor job)) (h : P v) :
    P (v.run editor job).1 := by
  have hafter (n : Nat) : P (v.after editor job n).1 := by
    induction n generalizing v with
    | zero => exact h
    | succ n ih => exact ih (hnext v h)
  exact hafter _

/-- A call changes its item and its document at most. -/
theorem run_leads (job : Job) (hv : v.Sound editor) (ht : v.tree.Grounded) :
    v.Leads editor (v.run editor job).1 := by
  refine (run_induction (P := fun w => v.Leads editor w ∧ w.Sound editor) ?_ ⟨.refl v, hv⟩).1
  rintro w ⟨hleads, hw⟩
  obtain ⟨hnext, hsound⟩ := next_leads job hw (ht.of_alike hleads.alike)
  exact ⟨hleads.trans hnext, hsound⟩

/-- Two calls that are at the same point and see the same item and the same document. -/
structure Similar (editor : Editor) (v w : Visit) : Prop where
  keepsPath : v.phase.KeepsPath
  phase : w.phase = v.phase
  item : w.item = v.item
  alike : v.tree.Alike w.tree
  file : ∀ q, v.place editor = .ok q → w.tree.file? q = v.tree.file? q

theorem Similar.refl (hv : v.Sound editor) : v.Similar editor v :=
  ⟨hv.keepsPath, rfl, rfl, .refl _, fun _ _ => rfl⟩

theorem Similar.place (h : v.Similar editor w) : w.place editor = v.place editor := by
  rw [Visit.place, h.item]
  exact Documents.Store.place_congr h.alike

theorem Similar.sound (h : v.Similar editor w) (hv : v.Sound editor) : w.Sound editor := by
  refine ⟨fun hread => ?_, h.phase ▸ hv.keepsPath⟩
  obtain ⟨place, hplace, hfile⟩ := hv.isFile (h.phase ▸ hread)
  exact ⟨place, h.place.trans hplace, (h.alike.isFile place).trans hfile⟩

/-- Calls that see the same do the same. -/
theorem Similar.next (h : v.Similar editor w) :
    (v.next editor job).Similar editor (w.next editor job) ∧
      w.access? editor = v.access? editor := by
  obtain ⟨-, hkeeps, hplace⟩ := @next_keepsPath editor v job h.keepsPath
  suffices hsame : (w.next editor job).phase = (v.next editor job).phase ∧
      (w.next editor job).item = (v.next editor job).item ∧
      (v.next editor job).tree.Alike (w.next editor job).tree ∧
      (∀ q, v.place editor = .ok q →
        (w.next editor job).tree.file? q = (v.next editor job).tree.file? q) ∧
      w.access? editor = v.access? editor by
    obtain ⟨hphase, hitem, halike, hfile, haccess⟩ := hsame
    exact ⟨⟨hkeeps, hphase, hitem, halike, fun q hq => hfile q (hplace ▸ hq)⟩, haccess⟩
  clear hkeeps hplace
  obtain ⟨_, tree, _⟩ := v
  obtain ⟨phase, tree', item⟩ := w
  obtain ⟨-, hphase, hitem, halike, hfile⟩ := h
  dsimp only at hphase hitem halike hfile
  subst hphase hitem
  cases phase with
  | started =>
    have hsame : editor.store.read tree' item.path = editor.store.read tree item.path :=
      Documents.Store.read_congr halike hfile
    simp only [Visit.next, hsame]
    split <;> exact ⟨rfl, rfl, halike, hfile, rfl⟩
  | loaded s =>
    simp only [Visit.next]
    split
    · exact ⟨rfl, rfl, halike, hfile, rfl⟩
    · split <;> exact ⟨rfl, rfl, halike, hfile, rfl⟩
  | ready text settle =>
    obtain ⟨place, hplace, hwrite, hwrite'⟩ | ⟨failure, hwrite, hwrite'⟩ :=
      @Documents.Store.write_congr editor.store _ _ halike item.path text
    · simp only [Visit.next, access?, hwrite, hwrite', true_and, and_true]
      refine ⟨halike.put place _, fun q hq => ?_⟩
      rw [Tree.file?_put, Tree.file?_put]
      split
      · rfl
      · exact hfile q hq
    · simp only [Visit.next, access?, hwrite, hwrite', true_and, and_true]
      exact ⟨halike, hfile⟩
  | written settle => exact ⟨rfl, rfl, halike, hfile, rfl⟩
  | ended result => exact ⟨rfl, rfl, halike, hfile, rfl⟩

/-- Calls that see the same end the same. -/
theorem Similar.run (h : v.Similar editor w) :
    (v.run editor job).1.Similar editor (w.run editor job).1 := by
  have hafter (n : Nat) : (v.after editor job n).1.Similar editor (w.after editor job n).1 := by
    induction n generalizing v w with
    | zero => exact h
    | succ n ih => exact ih h.next.1
  rw [Visit.run, Visit.run, h.phase]
  exact hafter _

end Visit

end BulletScript.Tasks

/-! Calls of one editor that share documents and items. A call holds the lock of its document's path
from before it reads the document until it has told the item, and between any two of its steps
others may run. -/
namespace BulletScript.Tasks

open Text Outline Files

variable {ι κ : Type}

/-- One call of the editor: the item it is about, and what it asks for. -/
structure Call (ι : Type) where
  item : ι
  request : Request

/-- Where a call is. -/
inductive Stage where
  | waiting
  | visiting (job : Job) (phase : Phase)
  | finished (result : Result Unit)

/-- What the calls share: the documents, the items, who holds the lock of each path, and where each
call is. -/
structure Shared (ι κ : Type) where
  tree : Tree
  items : ι → WorkItem
  holder : String → Option κ
  stage : κ → Stage

/-- What happens to a call. -/
inductive Event where
  | refused
  | acquired
  | advanced (access : Option Access)
  | released
  deriving Repr, DecidableEq

/-- Whether a call has had its turn with this event. -/
def Event.isTurn : Event → Bool
  | .refused | .acquired => true
  | _ => false

/-- Where calls have led that ran one after the other. -/
structure Serial (ι κ : Type) where
  tree : Tree
  items : ι → WorkItem
  outcome : κ → Option (Result Unit)

namespace Shared

variable (editor : Editor) (calls : κ → Call ι)

/-- The path of the item of a call, which also names its lock. -/
def path (σ : Shared ι κ) (c : κ) : String := (σ.items (calls c).item).path

/-- A call with the documents and the item as it finds them. -/
def visit (σ : Shared ι κ) (c : κ) (phase : Phase) : Visit :=
  ⟨phase, σ.tree, σ.items (calls c).item⟩

/-- A call that holds its lock. -/
def Visits (σ : Shared ι κ) (c : κ) : Prop := ∃ job phase, σ.stage c = .visiting job phase

/-- Calls that have not begun, on items of which those in one document have one path. -/
structure Initial (start : Shared ι κ) : Prop where
  grounded : start.tree.Grounded
  waiting : ∀ c, start.stage c = .waiting
  free : ∀ path, start.holder path = none
  onePath : ∀ i j place, editor.store.place start.tree (start.items i).path = .ok place →
    editor.store.place start.tree (start.items j).path = .ok place →
      (start.items i).path = (start.items j).path

variable [DecidableEq ι] [DecidableEq κ]

/-- A request that cannot be carried out ends its call before anything is touched. -/
def refuse (σ : Shared ι κ) (c : κ) (failure : Failure) : Shared ι κ :=
  { σ with stage := Function.update σ.stage c (.finished (.error failure)) }

def acquire (σ : Shared ι κ) (c : κ) (job : Job) : Shared ι κ :=
  { σ with
    holder := Function.update σ.holder (σ.path calls c) (some c)
    stage := Function.update σ.stage c (.visiting job .started) }

/-- A call that holds its lock has come further. -/
def advance (σ : Shared ι κ) (c : κ) (job : Job) (w : Visit) : Shared ι κ :=
  { σ with
    tree := w.tree
    items := Function.update σ.items (calls c).item w.item
    stage := Function.update σ.stage c (.visiting job w.phase) }

def release (σ : Shared ι κ) (c : κ) (result : Result Unit) : Shared ι κ :=
  { σ with
    holder := fun path => if σ.holder path = some c then none else σ.holder path
    stage := Function.update σ.stage c (.finished result) }

/-- The next step of a call, if it can take one. It cannot while another holds its lock. -/
def step? (σ : Shared ι κ) (c : κ) : Option (Event × Shared ι κ) :=
  match σ.stage c with
  | .waiting => match (calls c).request.job with
    | .error failure => some (.refused, σ.refuse c failure)
    | .ok job =>
      if (σ.holder (σ.path calls c)).isSome then none
      else some (.acquired, σ.acquire calls c job)
  | .visiting job phase => match phase with
    | .ended result => some (.released, σ.release c result)
    | phase =>
      let v := σ.visit calls c phase
      some (.advanced (v.access? editor), σ.advance calls c job (v.next editor job))
  | .finished _ => none

end Shared

section Runs

variable [DecidableEq ι] [DecidableEq κ] (editor : Editor) (calls : κ → Call ι)

/-- The steps of calls in any order in which they can be taken. -/
inductive Run (start : Shared ι κ) : List (κ × Event) → Shared ι κ → Prop
  | nil : Run start [] start
  | snoc {events σ σ' c event} : Run start events σ →
      σ.step? editor calls c = some (event, σ') → Run start (events ++ [(c, event)]) σ'

/-- The calls in the order in which they were refused or took their locks. -/
def turns (events : List (κ × Event)) : List κ := (events.filter (·.2.isTurn)).map (·.1)

/-- A call that runs alone. -/
def Serial.perform (b : Serial ι κ) (c : κ) : Serial ι κ :=
  let done := editor.perform b.tree (b.items (calls c).item) (calls c).request
  { tree := done.2.toOption.getD b.tree
    items := Function.update b.items (calls c).item done.1
    outcome := Function.update b.outcome c (some (done.2.map fun _ => ())) }

/-- Calls that run one after the other in a given order. -/
def serially (start : Shared ι κ) (order : List κ) : Serial ι κ :=
  order.foldl (Serial.perform editor calls) ⟨start.tree, start.items, fun _ => none⟩

end Runs

variable {editor : Editor} {calls : κ → Call ι} {start σ σ' : Shared ι κ} {b b' : Serial ι κ}
  {c d : κ} {event : Event} {events : List (κ × Event)} {job : Job} {phase : Phase}

theorem Shared.item_ne (h : σ.path calls d ≠ σ.path calls c) : (calls d).item ≠ (calls c).item :=
  fun hitem => h (by rw [path, path, hitem])

theorem Shared.Visits.of_stage (h : σ.Visits c) (hstage : σ'.stage c = σ.stage c) : σ'.Visits c := by
  obtain ⟨job, phase, h⟩ := h
  exact ⟨job, phase, hstage.trans h⟩

section Steps

variable [DecidableEq ι] [DecidableEq κ]

namespace Shared

/-- All that a step can be. -/
theorem step_cases (h : σ.step? editor calls c = some (event, σ')) :
    (∃ failure, σ.stage c = .waiting ∧ (calls c).request.job = .error failure ∧
      event = .refused ∧ σ' = σ.refuse c failure) ∨
    (∃ job, σ.stage c = .waiting ∧ (calls c).request.job = .ok job ∧
      σ.holder (σ.path calls c) = none ∧ event = .acquired ∧ σ' = σ.acquire calls c job) ∨
    (∃ job phase, σ.stage c = .visiting job phase ∧ (∀ result, phase ≠ .ended result) ∧
      event = .advanced ((σ.visit calls c phase).access? editor) ∧
      σ' = σ.advance calls c job ((σ.visit calls c phase).next editor job)) ∨
    ∃ job result, σ.stage c = .visiting job (.ended result) ∧
      event = .released ∧ σ' = σ.release c result := by
  unfold step? at h
  cases hstage : σ.stage c with
  | waiting =>
    simp only [hstage] at h
    cases hjob : (calls c).request.job with
    | error failure =>
      simp only [hjob, Option.some.injEq, Prod.mk.injEq] at h
      exact .inl ⟨failure, rfl, rfl, h.1.symm, h.2.symm⟩
    | ok job =>
      simp only [hjob] at h
      split at h
      · cases h
      · rename_i hfree
        simp only [Option.some.injEq, Prod.mk.injEq] at h
        exact .inr (.inl ⟨job, rfl, rfl, by simpa using hfree, h.1.symm, h.2.symm⟩)
  | visiting job phase =>
    simp only [hstage] at h
    split at h
    · simp only [Option.some.injEq, Prod.mk.injEq] at h
      exact .inr (.inr (.inr ⟨job, _, rfl, h.1.symm, h.2.symm⟩))
    · rename_i hphase
      simp only [Option.some.injEq, Prod.mk.injEq] at h
      exact .inr (.inr (.inl ⟨job, phase, rfl, hphase, h.1.symm, h.2.symm⟩))
  | finished result => simp [hstage] at h

end Shared

/-- The items stay in their documents while a call advances. -/
theorem Shared.path_advance {w : Visit} (h : w.item.path = σ.path calls c) (i : ι) :
    ((σ.advance calls c job w).items i).path = (σ.items i).path := by
  by_cases hi : i = (calls c).item
  · subst hi
    exact (congrArg WorkItem.path (Function.update_self ..)).trans h
  · exact congrArg WorkItem.path (Function.update_of_ne hi ..)

namespace Serial

theorem perform_of_refused {failure : Failure} (h : (calls c).request.job = .error failure) :
    b.perform editor calls c =
      { b with outcome := Function.update b.outcome c (some (.error failure)) } := by
  simp [perform, Editor.perform_of_refused h, Except.toOption, Except.map]

/-- A call that runs alone leaves what its steps lead to. -/
theorem perform_of_job (h : (calls c).request.job = .ok job) :
    ∃ result, let w := ((Visit.start b.tree (b.items (calls c).item)).run editor job).1
      w.phase = .ended result ∧ b.perform editor calls c =
        { tree := w.tree
          items := Function.update b.items (calls c).item w.item
          outcome := Function.update b.outcome c (some result) } := by
  rw [Visit.run_start_eq_perform h]
  exact ⟨_, rfl, rfl⟩

end Serial

end Steps

end BulletScript.Tasks
