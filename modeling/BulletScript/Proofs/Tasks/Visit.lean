import BulletScript.Proofs.Tasks.Edit

/-! What the editor does for one call, in the steps between which others may run: the document is
read, the new text made, the text written, and the item told of it. Taken one after the other, the
steps are the edits of the editor. -/
namespace BulletScript.Tasks

open Text Outline Files

/-- What a call asks of the editor. -/
inductive Request where
  | update (u : Update)
  | setStatus (status : String)

/-- A request that can be carried out. -/
inductive Job where
  | update (u : Update)
  | mark (c : Char)

/-- The job of a request; a status without a mark is refused before any document is touched. -/
def Request.job : Request → Result Job
  | .update u => .ok (.update u)
  | .setStatus status => match statusMarks.find? (·.toString = status) with
    | some c => .ok (.mark c)
    | none => .error (.action (.unknownStatus status))

/-- The new text of a document whose item is at an index, and how the item changes once the text
is written. -/
def Job.outcome (job : Job) (unit : String) (item : WorkItem) (s : String) (index : Nat) :
    Result (String × (WorkItem → WorkItem)) :=
  let line := (lines s).getD index ""
  match job with
  | .update u =>
    let content := u.content (ListLine.ofText line).content
    .ok (editText unit u s index, fun item => { item with text := content, tags := findTags content })
  | .mark c => match markLine? c line with
    | none => .error (.action (.notATask (index + 1) item.path))
    | some line =>
      .ok (joinLines ((lines s).set index line) (endsWith "\n" s),
        fun item => { item with status := c.toString })

/-- How far a call has come. -/
inductive Phase where
  | started
  | loaded (s : String)
  | ready (text : String) (settle : WorkItem → WorkItem)
  | written (settle : WorkItem → WorkItem)
  | ended (result : Result Unit)

/-- The number of steps that are left at most. -/
def Phase.rank : Phase → Nat
  | .started => 4
  | .loaded _ => 3
  | .ready .. => 2
  | .written _ => 1
  | .ended _ => 0

/-- A call on its way, with the documents and the item as it finds them. -/
structure Visit where
  phase : Phase
  tree : Tree
  item : WorkItem

/-- What a step does to a document. -/
inductive Access where
  | read (path : String)
  | write (path text : String)
  deriving Repr, DecidableEq

namespace Visit

variable (editor : Editor) (job : Job)

/-- The next step of a call. Documents are reached in the steps from `started` and `ready`. -/
def next (v : Visit) : Visit :=
  match v.phase with
  | .started => match editor.store.read v.tree v.item.path with
    | .ok s => { v with phase := .loaded s }
    | .error failure => { v with phase := .ended (.error failure) }
  | .loaded s => match locate (lines s) v.item with
    | none =>
      { v with phase := .ended (.error (.action (.itemNotFound v.item.path v.item.text))) }
    | some index =>
      let item := { v.item with line := index }
      match job.outcome editor.indentUnit item s index with
      | .ok (text, settle) => { v with item, phase := .ready text settle }
      | .error failure => { v with item, phase := .ended (.error failure) }
  | .ready text settle => match editor.store.write v.tree v.item.path text with
    | .ok tree => { v with tree, phase := .written settle }
    | .error failure => { v with phase := .ended (.error failure) }
  | .written settle => { v with item := settle v.item, phase := .ended (.ok ()) }
  | .ended _ => v

/-- What the next step reads or writes. A write that fails changes nothing and counts as none. -/
def access? (v : Visit) : Option Access :=
  match v.phase with
  | .started => some (.read v.item.path)
  | .ready text _ => match editor.store.write v.tree v.item.path text with
    | .ok _ => some (.write v.item.path text)
    | .error _ => none
  | _ => none

/-- A call after some more steps, and what these read and wrote. -/
def after : Nat → Visit → Visit × List Access
  | 0, v => (v, [])
  | n + 1, v =>
    let (last, accesses) := after n (v.next editor job)
    (last, (v.access? editor).toList ++ accesses)

/-- A call once it has ended, and all that it read and wrote from here on. -/
def run (v : Visit) : Visit × List Access := v.after editor job v.phase.rank

end Visit

/-- A call that holds the lock and has done nothing yet. -/
def Visit.start (tree : Tree) (item : WorkItem) : Visit := ⟨.started, tree, item⟩

/-- A request carried out by the editor. -/
def Editor.perform (editor : Editor) (tree : Tree) (item : WorkItem) :
    Request → WorkItem × Result Tree
  | .update u => editor.update tree item u
  | .setStatus status => editor.setStatus tree item status

namespace Visit

variable {editor : Editor} {job : Job} {v : Visit}

theorem next_of_ended {result : Result Unit} (h : v.phase = .ended result) :
    v.next editor job = v := by
  simp [next, h]

/-- Every step of a call that has not ended brings it nearer to its end. -/
theorem rank_next_lt (h : v.phase.rank ≠ 0) : (v.next editor job).phase.rank < v.phase.rank := by
  cases hphase : v.phase with
  | started => simp only [next, hphase]; split <;> simp [Phase.rank]
  | loaded s =>
    simp only [next, hphase]
    split
    · simp [Phase.rank]
    · split <;> simp [Phase.rank]
  | ready text settle => simp only [next, hphase]; split <;> simp [Phase.rank]
  | written settle => simp [next, hphase, Phase.rank]
  | ended result => simp [hphase, Phase.rank] at h

theorem ended_of_rank (h : v.phase.rank = 0) : ∃ result, v.phase = .ended result := by
  cases hphase : v.phase with
  | ended result => exact ⟨result, rfl⟩
  | _ => simp [hphase, Phase.rank] at h

theorem access?_of_ended {result : Result Unit} (h : v.phase = .ended result) :
    v.access? editor = none := by
  simp [access?, h]

theorem after_of_ended {result : Result Unit} (h : v.phase = .ended result) (n : Nat) :
    v.after editor job n = (v, []) := by
  induction n with
  | zero => rfl
  | succ n ih => rw [after, next_of_ended h, ih, access?_of_ended h]; rfl

/-- More steps than are left change nothing. -/
theorem after_of_rank_le {n m : Nat} (hn : v.phase.rank ≤ n) (hm : v.phase.rank ≤ m) :
    v.after editor job n = v.after editor job m := by
  induction n generalizing v m with
  | zero =>
    obtain ⟨result, hended⟩ := ended_of_rank (Nat.le_zero.1 hn)
    rw [after_of_ended hended, after_of_ended hended]
  | succ n ih =>
    by_cases hrank : v.phase.rank = 0
    · obtain ⟨result, hended⟩ := ended_of_rank hrank
      rw [after_of_ended hended, after_of_ended hended]
    · obtain ⟨m, rfl⟩ := Nat.exists_eq_succ_of_ne_zero (show m ≠ 0 by omega)
      have hlt : (v.next editor job).phase.rank < v.phase.rank := rank_next_lt hrank
      rw [after, after, ih (by omega) (m := m) (by omega)]

/-- A call runs its next step and then the others. -/
theorem run_eq : v.run editor job =
    (((v.next editor job).run editor job).1,
      (v.access? editor).toList ++ ((v.next editor job).run editor job).2) := by
  by_cases hrank : v.phase.rank = 0
  · obtain ⟨result, hended⟩ := ended_of_rank hrank
    rw [next_of_ended hended, access?_of_ended hended]
    rfl
  · obtain ⟨n, hn⟩ := Nat.exists_eq_succ_of_ne_zero hrank
    have hlt : (v.next editor job).phase.rank < v.phase.rank := rank_next_lt hrank
    rw [run, run, hn, after,
      after_of_rank_le (Nat.le_refl _) (Nat.le_of_lt_succ (hn ▸ hlt))]

theorem run_of_ended {result : Result Unit} (h : v.phase = .ended result) :
    v.run editor job = (v, []) :=
  after_of_ended h _

variable {tree : Tree} {item : WorkItem}

theorem run_ready {text : String} {settle : WorkItem → WorkItem} :
    (Visit.mk (.ready text settle) tree item).run editor job =
      match editor.store.write tree item.path text with
      | .error failure => (⟨.ended (.error failure), tree, item⟩, [])
      | .ok tree => (⟨.ended (.ok ()), tree, settle item⟩, [.write item.path text]) := by
  rw [run_eq]
  cases hwrite : editor.store.write tree item.path text with
  | error failure => simp [next, access?, hwrite, run_of_ended]
  | ok tree' =>
    rw [run_eq]
    simp [next, access?, hwrite, run_of_ended]

/-- A call whose item is not found reads the document and changes nothing. -/
theorem run_start_of_find_error {failure : Failure} (h : editor.find tree item = .error failure) :
    (Visit.start tree item).run editor job =
      (⟨.ended (.error failure), tree, item⟩, [.read item.path]) := by
  rw [run_eq]
  unfold Editor.find at h
  cases hread : editor.store.read tree item.path with
  | error failure' =>
    simp only [hread, bind, Except.bind, Except.error.injEq] at h
    simp [start, next, access?, hread, run_of_ended, h]
  | ok s =>
    rw [run_eq]
    cases hlocate : locate (lines s) item with
    | none =>
      simp only [hread, bind, Except.bind, hlocate, throw, throwThe, MonadExceptOf.throw,
        Except.error.injEq] at h
      simp [start, next, access?, hread, hlocate, run_of_ended, h]
    | some index => simp [hread, bind, Except.bind, hlocate, pure, Except.pure] at h

/-- A call whose item is found tells the item where, and writes the new text if there is one. -/
theorem run_start_of_find_ok {s : String} {index : Nat}
    (h : editor.find tree item = .ok (s, index)) :
    let item' := { item with line := index }
    (Visit.start tree item).run editor job =
      match job.outcome editor.indentUnit item' s index with
      | .error failure => (⟨.ended (.error failure), tree, item'⟩, [.read item.path])
      | .ok (text, settle) => match editor.store.write tree item.path text with
        | .error failure => (⟨.ended (.error failure), tree, item'⟩, [.read item.path])
        | .ok tree =>
          (⟨.ended (.ok ()), tree, settle item'⟩, [.read item.path, .write item.path text]) := by
  intro item'
  obtain ⟨hread, hlocate⟩ := Editor.find_eq_ok.1 h
  rw [run_eq, run_eq]
  cases houtcome : job.outcome editor.indentUnit item' s index with
  | error failure =>
    simp [start, next, access?, hread, hlocate, item', houtcome, run_of_ended]
  | ok made =>
    obtain ⟨text, settle⟩ := made
    simp only [start, next, access?, hread, hlocate, item', houtcome, run_ready]
    cases hwrite : editor.store.write tree item.path text <;> simp

end Visit

variable {editor : Editor} {tree : Tree} {item : WorkItem} {request : Request} {job : Job}

/-- A request that is refused changes nothing. -/
theorem Editor.perform_of_refused {failure : Failure} (h : request.job = .error failure) :
    editor.perform tree item request = (item, .error failure) := by
  cases request with
  | update u => cases h
  | setStatus status =>
    cases hmark : statusMarks.find? (·.toString = status) with
    | some c => simp only [Request.job, hmark] at h; cases h
    | none =>
      simp only [Request.job, hmark, Except.error.injEq] at h
      simp only [Editor.perform, Editor.setStatus, hmark, h]

/-- The request behind a job. -/
theorem Request.of_job (h : request.job = .ok job) :
    (∃ u, request = .update u ∧ job = .update u) ∨
      ∃ status c, request = .setStatus status ∧ job = .mark c ∧ c.toString = status ∧
        statusMarks.find? (·.toString = status) = some c := by
  cases request with
  | update u => exact .inl ⟨u, rfl, (Except.ok.inj h).symm⟩
  | setStatus status =>
    cases hmark : statusMarks.find? (·.toString = status) with
    | none => simp only [Request.job, hmark] at h; cases h
    | some c =>
      simp only [Request.job, hmark, Except.ok.injEq] at h
      exact .inr ⟨status, c, rfl, h.symm, by simpa using List.find?_some hmark, hmark⟩

theorem Editor.perform_of_find_error {failure : Failure} (h : request.job = .ok job)
    (hfind : editor.find tree item = .error failure) :
    editor.perform tree item request = (item, .error failure) := by
  obtain ⟨u, rfl, -⟩ | ⟨status, c, rfl, -, -, hmark⟩ := Request.of_job h
  · change editor.update tree item u = _
    unfold update
    rw [hfind]
  · change editor.setStatus tree item status = _
    unfold setStatus
    rw [hmark, hfind]

theorem Editor.perform_of_find_ok {s : String} {index : Nat} (h : request.job = .ok job)
    (hfind : editor.find tree item = .ok (s, index)) :
    let item' := { item with line := index }
    editor.perform tree item request =
      match job.outcome editor.indentUnit item' s index with
      | .error failure => (item', .error failure)
      | .ok (text, settle) => match editor.store.write tree item.path text with
        | .error failure => (item', .error failure)
        | .ok tree => (settle item', .ok tree) := by
  intro item'
  obtain ⟨u, rfl, rfl⟩ | ⟨status, c, rfl, rfl, hstatus, hmark⟩ := Request.of_job h
  · change editor.update tree item u = _
    unfold update
    rw [hfind]
    rfl
  · change editor.setStatus tree item status = _
    unfold setStatus Job.outcome
    rw [hmark, hfind]
    dsimp only
    rw [hstatus]
    cases markLine? c ((lines s).getD index "") <;> rfl

/-- The steps of a call make up what the editor does for it. -/
theorem Visit.run_start_eq_perform (h : request.job = .ok job) :
    ((Visit.start tree item).run editor job).1 =
      ⟨.ended ((editor.perform tree item request).2.map fun _ => ()),
        (editor.perform tree item request).2.toOption.getD tree,
        (editor.perform tree item request).1⟩ := by
  cases hfind : editor.find tree item with
  | error failure =>
    rw [run_start_of_find_error hfind, Editor.perform_of_find_error h hfind]
    rfl
  | ok found =>
    obtain ⟨s, index⟩ := found
    rw [run_start_of_find_ok hfind, Editor.perform_of_find_ok h hfind]
    cases job.outcome editor.indentUnit { item with line := index } s index with
    | error failure => rfl
    | ok made =>
      obtain ⟨text, settle⟩ := made
      dsimp only
      cases editor.store.write tree item.path text <;> rfl

end BulletScript.Tasks
