import BulletScript.Engine.Run

/-! How acts run: one equation for each way of putting them together. -/
namespace BulletScript.Engine.Act

variable {α β : Type}

theorem ext {m n : Act α} (h : ∀ s, m.run s = n.run s) : m = n := funext h

@[simp] theorem run_pure (a : α) (s : Scene) : (pure a : Act α).run s = (.ok a, s) := rfl

theorem run_bind (m : Act α) (k : α → Act β) (s : Scene) :
    (m >>= k).run s = match m.run s with
      | (.ok a, s) => (k a).run s
      | (.error f, s) => (.error f, s) := by
  rcases h : m.run s with ⟨r, s'⟩
  change (ExceptT.bindCont k (m.run s).1) (m.run s).2 = _
  rw [h]
  cases r <;> rfl

/-- What two acts in a row did if they did not fail. -/
theorem of_run_bind_ok {m : Act α} {k : α → Act β} {b : β} {s s' : Scene}
    (h : (m >>= k).run s = (.ok b, s')) :
    ∃ a s₁, m.run s = (.ok a, s₁) ∧ (k a).run s₁ = (.ok b, s') := by
  rw [run_bind] at h
  rcases hm : m.run s with ⟨f | a, s₁⟩
  · rw [hm] at h
    cases h
  · rw [hm] at h
    exact ⟨a, s₁, rfl, h⟩

theorem run_tryCatch (m : Act α) (k : Failure → Act α) (s : Scene) :
    (tryCatch m k).run s = match m.run s with
      | (.ok a, s) => (.ok a, s)
      | (.error f, s) => (k f).run s := by
  rcases h : m.run s with ⟨r, s'⟩
  have hm : (m : StateT Scene Id (Except Failure α)) s = (r, s') := h
  cases r
  all_goals simp only [tryCatch, tryCatchThe, MonadExceptOf.tryCatch, ExceptT.tryCatch, ExceptT.run,
    ExceptT.mk, bind, StateT.bind, hm]
  all_goals rfl

/-- What does not fail is not answered. -/
theorem run_handled {onError : List Script.Action} {handler body : Act Unit} {s s' : Scene}
    (h : body.run s = (.ok (), s')) : (handled onError handler body).run s = (.ok (), s') := by
  rw [handled]
  split
  · exact h
  · rw [run_tryCatch, h]

@[simp] theorem run_get (s : Scene) : (get : Act Scene).run s = (.ok s, s) := rfl

@[simp] theorem run_modify (g : Scene → Scene) (s : Scene) :
    (modify g : Act Unit).run s = (.ok (), g s) := rfl

@[simp] theorem run_context (s : Scene) : context.run s = (.ok s.context, s) := rfl

@[simp] theorem run_ofResult (r : Result α) (s : Scene) : (ofResult r).run s = (r, s) := rfl

@[simp] theorem run_modifyContext (g : Context → Context) (s : Scene) :
    (modifyContext g).run s = (.ok (), { s with context := g s.context }) := rfl

/-- The list that a variable holds, by a name that is the whole path. -/
theorem items_of_name {name : String} {values : List Value} {s : Scene}
    (htrim : Text.trim name = name) (hplain : Text.startsWith "\x7b\x7b" name = false)
    (hsplit : splitPath name = .ok [.name name])
    (hvar : s.context.vars.get? (.str name) = some (.list values)) :
    ((items name).run s).1 = .ok values := by
  have hresolve : resolvePath s.context.vars name = .ok (some (.list values)) := by
    simp [resolvePath, hsplit, bind, Except.bind, Value.steps?, Value.step?, hvar]
  simp only [items, htrim, hplain, Bool.false_and, Bool.false_eq_true, if_false, run_bind,
    run_context, run_ofResult, hresolve, run_pure]

/-- The names of the variables that the body of a loop sees. -/
def loopNames (itemName indexName : Value) : Result (String × String) := do
  return (← variableName itemName, ← variableName indexName)

variable {itemName indexName : Value}

theorem loopNames_ok {a b : String} (h : loopNames itemName indexName = .ok (a, b)) :
    variableName itemName = .ok a ∧ variableName indexName = .ok b := by
  unfold loopNames at h
  cases hi : variableName itemName <;> cases hn : variableName indexName <;>
    simp_all [bind, Except.bind, pure, Except.pure]

theorem loopNames_error {f : Failure} (h : loopNames itemName indexName = .error f) :
    variableName itemName = .error f ∨
      ∃ a, variableName itemName = .ok a ∧ variableName indexName = .error f := by
  unfold loopNames at h
  cases hi : variableName itemName <;> cases hn : variableName indexName <;>
    simp_all [bind, Except.bind, pure, Except.pure]

theorem run_set (name : String) (v : Value) (s : Scene) :
    (set name v).run s =
      (.ok (), { s with context := { s.context with vars := s.context.vars.set name v } }) := rfl

theorem run_setNamed (name v : Value) (s : Scene) :
    (setNamed name v).run s = match variableName name with
      | .ok n => (set n v).run s
      | .error f => (.error f, s) := by
  rw [setNamed, run_bind, run_ofResult]
  cases variableName name <;> rfl

theorem dropNames_ok {a b : String} (h : loopNames itemName indexName = .ok (a, b)) (s : Scene) :
    (dropNames itemName indexName).run s = (.ok (), { s with
      context := { s.context with vars := (s.context.vars.erase a).erase b } }) := by
  obtain ⟨ha, hb⟩ := loopNames_ok h
  simp [dropNames, run_bind, ha, hb, unset]

theorem run_dropNames (a b : String) (s : Scene) :
    (dropNames (.str a) (.str b)).run s = (.ok (), { s with
      context := { s.context with vars := (s.context.vars.erase a).erase b } }) :=
  dropNames_ok rfl s

theorem dropNames_error {f : Failure} (h : loopNames itemName indexName = .error f) (s : Scene) :
    ((dropNames itemName indexName).run s).1 = .error f := by
  rcases loopNames_error h with hi | ⟨a, hi, hn⟩
  · simp only [dropNames, run_bind, run_ofResult, hi]
  · simp only [dropNames, run_bind, run_ofResult, hi, hn, unset, run_modifyContext]

/-- The variables of a loop cannot be set when they could not be removed. -/
theorem enterRound_error {f : Failure} (h : loopNames itemName indexName = .error f)
    (anchor : Option Cursor) (k : Nat) (item : Value) (s : Scene) :
    ((enterRound itemName indexName anchor k item).run s).1 = .error f := by
  rcases loopNames_error h with hi | ⟨a, hi, hn⟩
  · simp only [enterRound, run_bind, run_setNamed, hi]
  · simp only [enterRound, run_bind, run_setNamed, run_set, hi, hn]

end BulletScript.Engine.Act
