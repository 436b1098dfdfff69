import BulletScript.Engine.Binding
import BulletScript.Proofs.Engine.Steps
import BulletScript.Proofs.Value.Record

/-! How deals run: one equation for each way of putting them together, and what they keep. Neither a
run of a trigger nor an edit gives the item another path, or touches the responses that wait. -/
namespace BulletScript.Engine

open Script Tasks

namespace Deal

variable {α β : Type}

theorem ext {m n : Deal α} (h : ∀ d, m.run d = n.run d) : m = n := funext h

theorem run_bind (m : Deal α) (k : α → Deal β) (d : Desk) :
    (m >>= k).run d = match m.run d with
      | (.ok a, d) => (k a).run d
      | (.error f, d) => (.error f, d) := by
  rcases h : m.run d with ⟨r, d'⟩
  change (ExceptT.bindCont k (m.run d).1) (m.run d).2 = _
  rw [h]
  cases r <;> rfl

@[simp] theorem run_pure (a : α) (d : Desk) : (pure a : Deal α).run d = (.ok a, d) := rfl

@[simp] theorem run_get (d : Desk) : (get : Deal Desk).run d = (.ok d, d) := rfl

@[simp] theorem run_set (d' d : Desk) : (set d' : Deal Unit).run d = (.ok (), d') := rfl

@[simp] theorem run_modify (f : Desk → Desk) (d : Desk) :
    (modify f : Deal Unit).run d = (.ok (), f d) := rfl

@[simp] theorem run_ofResult (r : Result α) (d : Desk) : (ofResult r).run d = (r, d) := rfl

end Deal

/-- The path of the item at hand. -/
def Desk.path (d : Desk) : String := (d.item.map (·.path)).getD ""

/-- A response waits at a path, and no other. -/
def Desk.stashed (d : Desk) (path : String) (response : Value) : Desk :=
  { d with pending := d.pending.filter (·.1 ≠ path) ++ [(path, response)] }

/-- No response waits at a path. -/
def Desk.discarded (d : Desk) (path : String) : Desk :=
  { d with pending := d.pending.filter (·.1 ≠ path) }

/-- The desk at another time, with the same responses waiting and an item at the same path. -/
structure Desk.Follows (d d' : Desk) : Prop where
  pending : d'.pending = d.pending
  item : d'.item.map (·.path) = d.item.map (·.path)

theorem Desk.Follows.refl (d : Desk) : d.Follows d := ⟨rfl, rfl⟩

theorem Desk.Follows.trans {d d' d'' : Desk} (h : d.Follows d') (h' : d'.Follows d'') :
    d.Follows d'' :=
  ⟨h'.pending.trans h.pending, h'.item.trans h.item⟩

theorem Desk.Follows.path {d d' : Desk} (h : d.Follows d') : d'.path = d.path :=
  congrArg (·.getD "") h.item

section Pending

variable (d : Desk) (path : String) (response : Value)

@[simp] theorem Desk.path_stashed : (d.stashed path response).path = d.path := rfl

@[simp] theorem Desk.path_discarded : (d.discarded path).path = d.path := rfl

theorem lookup_filter_ne {pending : List (String × Value)} (p : String) :
    (pending.filter (·.1 ≠ path)).lookup p = if p = path then none else pending.lookup p := by
  induction pending with
  | nil => simp
  | cons entry rest ih =>
    obtain ⟨q, v⟩ := entry
    by_cases hq : q = path
    · subst hq
      rw [List.filter_cons_of_neg (by simp), ih, List.lookup_cons]
      by_cases hp : p = q <;> simp [hp, beq_false_of_ne]
    · rw [List.filter_cons_of_pos (by simpa using hq), List.lookup_cons, List.lookup_cons, ih]
      by_cases hp : p = q
      · subst hp
        simp [hq]
      · simp [beq_false_of_ne hp]

theorem Desk.lookup_stashed (p : String) : (d.stashed path response).pending.lookup p =
    if p = path then some response else d.pending.lookup p := by
  rw [stashed, List.lookup_append, lookup_filter_ne]
  by_cases hp : p = path <;> simp [hp, List.lookup_cons, beq_false_of_ne]

theorem Desk.lookup_discarded (p : String) : (d.discarded path).pending.lookup p =
    if p = path then none else d.pending.lookup p :=
  lookup_filter_ne path p

@[simp] theorem Deal.run_itemPath : itemPath.run d = (.ok d.path, d) := rfl

@[simp] theorem Deal.run_stash :
    (stash path response).run d = (.ok (), d.stashed path response) := rfl

@[simp] theorem Deal.run_discard : (discard path).run d = (.ok (), d.discarded path) := rfl

@[simp] theorem Deal.run_consume :
    (consume path).run d = (.ok (d.pending.lookup path), d.discarded path) := by
  simp only [consume, Deal.run_bind, Deal.run_get, Deal.run_discard, Deal.run_pure]

end Pending

namespace Act

variable {path : Option String}

theorem keeps_moveCursor_path (position : Cursor) : Keeps (OnPath path) (moveCursor position) := by
  rw [moveCursor]
  refine .bind (.modify fun _ h => h) fun _ => .bind .get fun s => ?_
  split
  · exact .bind (.ofResult _) fun _ => .modify fun _ h => h
  · exact .pure _

theorem keepsWriting_path (engine : Runner) : KeepsWriting engine fun p _ _ => p = path where
  insertBelow bullet entries := by
    rw [insertBelow]
    refine .bind keeps_buffer fun b => .bind keeps_currentCursor fun cursor => ?_
    refine .bind (.ofResult _) fun line => ?_
    dsimp only
    split
    · exact .pure _
    · refine .bind (.ofResult _) fun stop => .bind (.modify fun _ h => h) fun _ => ?_
      exact keeps_moveCursor_path _
  transformBuffer buffer template mode children s _ hs := by
    refine Keeps.bind keeps_currentCursor (fun cursor => .bind (.ofResult _) fun line => ?_) s hs
    refine .bind (keeps_bufferEntries _ _ _ _) fun (first, entries) => ?_
    refine .bind (.modify fun _ h => h) fun _ => ?_
    exact .bind (keeps_moveCursor_path _) fun _ => keeps_setLine _

end Act

/-- A run leaves the item at its path. -/
theorem execute_path (engine : Runner) (config : Config) (kind : String) (s : Scene) :
    (engine.execute config kind s).2.item.map (·.path) = s.item.map (·.path) := by
  unfold Runner.execute executeWith
  cases config.trigger? kind with
  | none => rfl
  | some trigger =>
    have hkeeps : Act.Keeps (Act.OnPath (s.item.map (·.path)))
        (Act.sequence engine.perform trigger.actions) :=
      Act.keeps_sequence Act.keeps_moveCursor_path (Act.keeps_perform (Act.keepsWriting_path engine)) _
    have hafter := hkeeps (s.enter config kind) rfl
    rcases hrun : (Act.sequence engine.perform trigger.actions).run (s.enter config kind) with
      ⟨_ | _, s'⟩
    · rw [hrun] at hafter
      simpa only [hrun, Act.OnPath, Act.OnSite] using hafter
    · rw [hrun] at hafter
      simpa only [hrun, Act.OnPath, Act.OnSite] using hafter

/-- A run is idle exactly if the script has no such trigger, and then it leaves its context as it
was. -/
theorem execute_idle {engine : Runner} {config : Config} {kind : String} {s : Scene}
    (h : (engine.execute config kind s).1.state = .idle) :
    config.hasTrigger kind = false ∧
      (engine.execute config kind s).1 = ⟨.idle, s.context, .null, none⟩ := by
  unfold Runner.execute executeWith at h ⊢
  cases htrigger : config.trigger? kind with
  | none => exact ⟨by simp [Config.hasTrigger, htrigger], rfl⟩
  | some trigger =>
    rcases hrun : (Act.sequence engine.perform trigger.actions).run (s.enter config kind) with
      ⟨_ | _, s'⟩ <;> simp [htrigger, hrun] at h

/-- A run that failed tells why. -/
theorem execute_failed {engine : Runner} {config : Config} {kind : String} {s : Scene}
    (h : (engine.execute config kind s).1.state = .failed) :
    ∃ failure, (engine.execute config kind s).1.error = some failure := by
  unfold Runner.execute executeWith at h ⊢
  cases htrigger : config.trigger? kind with
  | none => simp [htrigger] at h
  | some trigger =>
    rcases hrun : (Act.sequence engine.perform trigger.actions).run (s.enter config kind) with
      ⟨failure | _, s'⟩
    · exact ⟨failure, by simp [hrun]⟩
    · simp [htrigger, hrun] at h

theorem follows_act {α : Type} (withBuffer : Bool) (context : Context) (work : Scene → α × Scene)
    (hwork : ∀ s, (work s).2.item.map (·.path) = s.item.map (·.path)) (d : Desk) :
    ∃ a d', (Deal.act withBuffer context work).run d = (.ok a, d') ∧ d.Follows d' ∧
      a = (work ⟨d.world, d.item, if withBuffer then d.buffer else none, context⟩).1 := by
  exact ⟨_, _, rfl, ⟨rfl, hwork _⟩, rfl⟩

section Start

/-- A run for an item begins with what is seen of the item, and then with what it is given. -/
theorem Context.exists_start (item : Option WorkItem) (trigger tag : Option String) (vars : Record) :
    ∃ start seen, Context.start item none none none trigger tag vars = .ok start ∧
      start.vars = Record.update seen vars ∧
      start.response = start.vars.getD "response" .null ∧
      ∀ name : String, name ∉ ["line", "file", "task"] → seen.get? (.str name) = none := by
  have hline (line : String) {name : String} (hname : name ∉ ["line", "file", "task"]) :
      Record.get? [(.str "line", .str line)] (.str name) = none := by
    have hne : "line" ≠ name := fun h => hname (by simp [h])
    simp [Record.get?, hne]
  cases item with
  | none => exact ⟨_, _, rfl, rfl, rfl, fun name hname => hline _ hname⟩
  | some item =>
    refine ⟨_, _, rfl, rfl, rfl, fun name hname => ?_⟩
    have hne : "file" ≠ name ∧ "task" ≠ name :=
      ⟨fun h => hname (by simp [h]), fun h => hname (by simp [h])⟩
    change (Record.set (Record.set _ (.str "file") _) (.str "task") _).get? (.str name) = none
    rw [Record.get?_set_str, Record.get?_set_str, hline _ hname]
    simp [hne]

variable {b : Binding} {extra : List (String × Value)}

theorem varsWith_eq (hnodup : ("config" :: extra.map (·.1)).Nodup) :
    b.varsWith (extra.map fun e => (.str e.1, e.2)) =
      (("config", .map b.options) :: extra.filter fun e => !e.2.isNull).map
        fun e => (.str e.1, e.2) := by
  rw [List.nodup_cons] at hnodup
  have hvars : b.varsWith (extra.map fun e => (.str e.1, e.2)) =
      Record.update [("config", .map b.options)]
        ((extra.filter fun e => !e.2.isNull).map fun e => (.str e.1, e.2)) := by
    rw [Binding.varsWith, List.filter_map]
    rfl
  rw [hvars, Record.update_of_nodup]
  · rfl
  · exact hnodup.2.sublist (List.filter_sublist.map _)
  · intro entry hentry e he
    rw [List.mem_singleton.1 hentry, Key.same_str, beq_eq_false_iff_ne]
    intro heq
    exact hnodup.1 (heq ▸ List.mem_map_of_mem (List.mem_filter.1 he).1)

/-- What an event gives to a run is seen there by its name, unless it is null. -/
theorem start_sees (extra : List (String × Value)) {item : Option WorkItem}
    {trigger tag : Option String} {start : Context}
    (hnodup : ("config" :: extra.map (·.1)).Nodup)
    (h : Context.start item none none none trigger tag
      (b.varsWith (extra.map fun e => (.str e.1, e.2))) = .ok start)
    {name : String} (hname : name ∉ ["config", "line", "file", "task"]) :
    start.vars.get? (.str name) = Value.present (extra.lookup name) := by
  obtain ⟨start', seen, hstart, hvars, -, hseen⟩ := Context.exists_start item trigger tag
    (b.varsWith (extra.map fun e => (.str e.1, e.2)))
  cases hstart.symm.trans h
  have hconfig : name ≠ "config" := fun h => hname (by simp [h])
  rw [hvars, varsWith_eq hnodup, Record.get?_update_str, List.lookup_cons,
    beq_false_of_ne hconfig, hseen _ fun h => hname (List.mem_cons_of_mem _ h), Option.or_none,
    Record.lookup_filter_present (List.nodup_cons.1 hnodup).2]
  exact hnodup.sublist ((List.filter_sublist.map _).cons_cons _)

theorem response_of_start {item : Option WorkItem} {trigger tag : Option String} {vars : Record}
    {start : Context} (h : Context.start item none none none trigger tag vars = .ok start) :
    start.response = start.vars.getD "response" .null := by
  obtain ⟨start', -, hstart, -, hresponse, -⟩ := Context.exists_start item trigger tag vars
  cases hstart.symm.trans h
  exact hresponse

end Start

section Edit

variable {b : Binding} {d : Desk} {editor : Editor} {item item' : WorkItem} {u : Update}

theorem run_edit_ok {tree' : Files.Tree} (heditor : b.engine.tasks = some editor)
    (hitem : d.item = some item) (h : editor.update d.world.tree item u = (item', .ok tree')) :
    (b.edit u).run d =
      (.ok (), { d with item := some item', world := { d.world with tree := tree' } }) := by
  rw [Binding.edit, heditor]
  simp only [Deal.editItem, Deal.run_bind, Deal.run_get, hitem, h, Deal.run_set,
    Deal.run_ofResult, Deal.run_modify]

theorem run_edit_error {failure : Failure} (heditor : b.engine.tasks = some editor)
    (hitem : d.item = some item) (h : editor.update d.world.tree item u = (item', .error failure)) :
    (b.edit u).run d = (.error failure, { d with item := some item' }) := by
  rw [Binding.edit, heditor]
  simp only [Deal.editItem, Deal.run_bind, Deal.run_get, hitem, h, Deal.run_set,
    Deal.run_ofResult]

theorem run_edit_of_no_editor (heditor : b.engine.tasks = none) : (b.edit u).run d = (.ok (), d) := by
  rw [Binding.edit, heditor]
  rfl

theorem run_edit_of_no_item (hitem : d.item = none) : (b.edit u).run d = (.ok (), d) := by
  rw [Binding.edit]
  cases b.engine.tasks with
  | none => rfl
  | some editor => simp only [Deal.editItem, Deal.run_bind, Deal.run_get, hitem, Deal.run_pure]

variable (b d u)

theorem follows_edit : d.Follows ((b.edit u).run d).2 := by
  cases heditor : b.engine.tasks with
  | none => exact run_edit_of_no_editor heditor ▸ .refl d
  | some editor =>
    cases hitem : d.item with
    | none => exact run_edit_of_no_item hitem ▸ .refl d
    | some item =>
      have hpath := editor.update_path d.world.tree item u
      rcases h : editor.update d.world.tree item u with ⟨item', f | tree'⟩
      · rw [run_edit_error heditor hitem h]
        exact ⟨rfl, by simpa [hitem, h] using hpath⟩
      · rw [run_edit_ok heditor hitem h]
        exact ⟨rfl, by simpa [hitem, h] using hpath⟩

end Edit

end BulletScript.Engine
