import BulletScript.Proofs.Engine.Routing
import BulletScript.Proofs.Engine.Steps

/-! What a run leaves of a variable that none of its steps writes. All variables of a run lie in one
map. A loop sets two of them and removes them when it ends; the values that they had before do not
come back. A handler finds the description of the failure under the name `error`. -/
namespace BulletScript.Engine

open Script

/-- The variable has this value, or is not there. -/
def Holding (name : String) (v : Option Value) (s : Scene) : Prop :=
  s.context.vars.get? (.str name) = v

/-- The variables that a loop sets and removes. One without a name for its items sets none. -/
def loopVars (itemName indexName : Value) : List String :=
  match itemName with
  | .str name => name :: nameIn indexName
  | _ => []

namespace Act

variable {name : String} {v : Option Value} {names : List String}

theorem blind_holding (h : name ∉ names) : Blind names (Holding name v) :=
  fun _ _ hsame hs => (hsame.vars name h).trans hs

theorem keeps_holding_set {other : String} (h : other ≠ name) (w : Value) :
    Keeps (Holding name v) (set other w) := by
  have hname : name ∉ [other] := by simpa using h.symm
  exact .of_blind (blind_holding hname) fun _ => spares_set (List.mem_singleton_self _) w

theorem keeps_holding_moveCursor (position : Cursor) :
    Keeps (Holding name v) (moveCursor position) := by
  rw [moveCursor]
  refine .bind (fun _ hs => hs) fun _ => .bind .get fun s => ?_
  split
  · exact .bind (.ofResult _) fun b => .modify fun _ hs => hs
  · exact .pure _

theorem keeps_holding_moveBack (position : Option Cursor) :
    Keeps (Holding name v) (moveBack position) := by
  cases position with
  | none => exact .pure _
  | some position => exact keeps_holding_moveCursor position

theorem keeps_holding_insertBelow (engine : Runner) (bullet : String)
    (entries : List (Int × String)) :
    Keeps (Holding name v) (insertBelow engine bullet entries) := by
  rw [insertBelow]
  refine .bind keeps_buffer fun b => .bind keeps_currentCursor fun cursor => ?_
  refine .bind (.ofResult _) fun line => ?_
  dsimp only
  split
  · exact .pure _
  · refine .bind (.ofResult _) fun stop => .bind (.modify fun _ hs => hs) fun _ => ?_
    exact keeps_holding_moveCursor _

theorem keeps_holding_transformBuffer (h : name ≠ "line") (engine : Runner) (buffer : Buffer)
    (template : String) (mode : TransformMode) (children : List ChildTemplate) :
    Keeps (Holding name v) (transformBuffer engine buffer template mode children) := by
  have hname : name ∉ ["line"] := by simpa using h
  have hline (line : String) : Keeps (Holding name v) (setLine line) :=
    .of_blind (blind_holding hname) fun _ => spares_setLine (List.mem_singleton_self _) line
  rw [transformBuffer]
  refine .bind keeps_currentCursor fun cursor => .bind (.ofResult _) fun line => ?_
  refine .bind (keeps_bufferEntries _ _ _ _) fun (first, entries) => ?_
  refine .bind (.modify fun _ hs => hs) fun _ => ?_
  exact .bind (keeps_holding_moveCursor _) fun _ => hline _

/-- A step keeps the variables that it does not write. -/
theorem keeps_holding_perform (engine : Runner) {leaf : Step} (h : name ∉ leaf.writes) :
    Keeps (Holding name v) (engine.perform leaf) := by
  refine keeps_perform_of_blind leaf (blind_holding h) ?_ ?_
  · exact fun _ bullet entries => keeps_holding_insertBelow engine bullet entries
  · intro hline buffer template mode children s _ hs
    have hne : name ≠ "line" := fun heq => h (heq ▸ hline)
    exact keeps_holding_transformBuffer hne engine buffer template mode children s hs

theorem keeps_holding_noteFailure (h : name ≠ "error") (f : Failure) :
    Keeps (Holding name v) (noteFailure f) :=
  .bind (fun _ hs => hs) fun _ => keeps_holding_set h.symm _

theorem keeps_holding_setNamed {other : Value} (h : name ∉ nameIn other) (w : Value) :
    Keeps (Holding name v) (setNamed other w) :=
  .of_blind (blind_holding h) fun _ => spares_setNamed (List.Subset.refl _) w

variable {itemName indexName : Value}

theorem keeps_holding_enterRound (h : name ∉ loopVars itemName indexName) (anchor : Option Cursor)
    (k : Nat) (item : Value) :
    Keeps (Holding name v) (enterRound itemName indexName anchor k item) := by
  cases itemName with
  | str other =>
    have hitem : name ∉ nameIn (.str other) := fun hmem => h (List.mem_append_left _ hmem)
    have hindex : name ∉ nameIn indexName := fun hmem => h (List.mem_cons_of_mem _ hmem)
    refine .bind (keeps_holding_setNamed hitem item) fun _ => ?_
    exact .bind (keeps_holding_setNamed hindex _) fun _ => keeps_holding_moveBack anchor
  | _ => exact fun _ hs => hs

/-- What the removal of the variables of a loop leaves, whether it fails or not. -/
theorem get?_dropNames (s : Scene) :
    ((dropNames itemName indexName).run s).2.context.vars.get? (.str name) =
      if name ∈ loopVars itemName indexName then none else s.context.vars.get? (.str name) := by
  cases itemName with
  | str a =>
    cases indexName with
    | str b =>
      simp only [dropNames, run_bind, run_ofResult, variableName, unset, run_modifyContext,
        List.foldl_cons, List.foldl_nil, Record.get?_erase_str, loopVars, nameIn, List.mem_cons,
        List.not_mem_nil, or_false]
      grind
    | _ =>
      simp only [dropNames, run_bind, run_ofResult, variableName, unset, run_modifyContext,
        List.foldl_cons, List.foldl_nil, Record.get?_erase_str, loopVars, nameIn, List.mem_cons,
        List.not_mem_nil, or_false, eq_comm]
  | _ => simp [dropNames, run_bind, variableName, loopVars]

theorem keeps_holding_dropNames (h : name ∉ loopVars itemName indexName) :
    Keeps (Holding name v) (dropNames itemName indexName) :=
  fun s hs => ((get?_dropNames s).trans (if_neg h)).trans hs

theorem holding_dropNames_bind {α : Type} {k : Unit → Act α}
    (h : name ∈ loopVars itemName indexName) (hk : Keeps (Holding name none) (k ())) (s : Scene) :
    Holding name none ((dropNames itemName indexName >>= k).run s).2 := by
  have hdrop : Holding name none ((dropNames itemName indexName).run s).2 :=
    (get?_dropNames s).trans (if_pos h)
  rw [run_bind]
  rcases hrun : (dropNames itemName indexName).run s with ⟨f | ⟨⟩, s'⟩
  · rwa [hrun] at hdrop
  · rw [hrun] at hdrop
    exact hk s' hdrop

/-- A loop that has a list of items removes its variables whichever way it ends. -/
theorem get?_forEach {reference : String} {index : Option Value} {body : Act Unit} {s : Scene}
    {values : List Value} (hitems : ((items reference).run s).1 = .ok values)
    (h : name ∈ loopVars itemName (indexNameOf itemName index)) :
    ((forEach reference itemName index body).run s).2.context.vars.get? (.str name) = none := by
  generalize hindex : indexNameOf itemName index = indexName at h
  have hfail (f : Failure) (s : Scene) : Holding name none ((do
      dropNames itemName indexName
      throw f : Act (Option Cursor)).run s).2 :=
    holding_dropNames_bind h (.throw f) s
  have hleave (m : Act (Option Cursor)) (s : Scene) : Holding name none ((do
      let last ← tryCatch m fun f => do
        dropNames itemName indexName
        throw f
      dropNames itemName indexName
      moveBack last : Act Unit).run s).2 := by
    rw [run_bind, run_tryCatch]
    rcases m.run s with ⟨f | last, s'⟩
    · have hgone := hfail f s'
      rcases hrun : (do dropNames itemName indexName; throw f : Act (Option Cursor)).run s' with
        ⟨g | last, s''⟩
      · simpa only [hrun] using hgone
      · simpa only [hrun] using holding_dropNames_bind h (keeps_holding_moveBack last) s''
    · exact holding_dropNames_bind h (keeps_holding_moveBack last) s'
  rcases hrun : (items reference).run s with ⟨f | values', s₁⟩
  · rw [hrun] at hitems
    cases hitems
  · rw [forEach, run_bind, hrun, hindex]
    exact hleave _ s₁

end Act

/-- A loop that takes the variable for one of its own begins, and it has a list to go over. -/
def Rebinds (root : List Action) (name : String) (e : Event) : Prop :=
  e.what = .begins ∧ ∃ reference itemName indexName body onError line values,
    actionAt? root e.spot = some (.loop reference itemName indexName body onError line) ∧
      name ∈ loopVars itemName (Act.indexNameOf itemName indexName) ∧
      ((Act.items reference).run e.scene).1 = .ok values

/-- The action is a loop that has the variable for one of its own. -/
def LoopsOver (root : List Action) (name : String) (p : Spot) : Prop :=
  ∃ reference itemName indexName body onError line,
    actionAt? root p = some (.loop reference itemName indexName body onError line) ∧
      name ∈ loopVars itemName (Act.indexNameOf itemName indexName)

/-- A spot lies in a round of a loop below the route that has the variable for one of its own. -/
def Shadowed (root : List Action) (base : Route) (name : String) (p : Spot) : Prop :=
  ∃ q k, base <+: q.route ∧ q.Above (.round k) p ∧ LoopsOver root name q

/-- What an event below a route makes of a variable that no step writes. A loop that takes the variable
leaves nothing of it. Under the name `error` every handler starts with the description of the failure;
what a handler in the rounds of a loop is told goes with the variables of the loop. -/
inductive Changes (root : List Action) (base : Route) (name : String) : Event → Option Value → Prop
  | taken {e : Event} (hbelow : base <+: e.spot.route) (h : Rebinds root name e) :
    Changes root base name e none
  | noted {p : Spot} {f : Failure} {s : Scene} (hbelow : base <+: p.route) (hname : name = "error")
    (hopen : ¬ Shadowed root base name p) :
    Changes root base name ⟨p, .handles f, s⟩ (some (.map (failureRecord f)))

/-- What a variable that had the value `v` is after some events: what the last of them that changes it
makes of it. -/
inductive Latest (C : Event → Option Value → Prop) (v : Option Value) (events : List Event) :
    Option Value → Prop
  | kept (h : ∀ e ∈ events, ∀ w, ¬ C e w) : Latest C v events v
  | changed {before after : List Event} {e : Event} {w : Option Value}
    (hevents : events = before ++ e :: after) (h : C e w) (hlater : ∀ x ∈ after, ∀ u, ¬ C x u) :
    Latest C v events w

namespace Latest

variable {C : Event → Option Value → Prop} {v w u : Option Value} {events events' : List Event}

theorem append (h : Latest C v events w) (h' : Latest C w events' u) :
    Latest C v (events ++ events') u := by
  cases h' with
  | kept hnone' =>
    cases h with
    | kept hnone => exact .kept (List.forall_mem_append.2 ⟨hnone, hnone'⟩)
    | changed hevents hchange hlater =>
      refine .changed (by rw [hevents, List.append_assoc, List.cons_append]) hchange ?_
      exact List.forall_mem_append.2 ⟨hlater, hnone'⟩
  | changed hevents hchange hlater =>
    exact .changed (by rw [hevents, List.append_assoc]) hchange hlater

theorem single {e : Event} (h : C e w) : Latest C v [e] w :=
  .changed (List.nil_append _).symm h (by simp)

/-- The value is the one that was there, or one that an event makes of it. -/
theorem eq_or_exists (h : Latest C v events w) :
    (w = v ∧ ∀ e ∈ events, ∀ u, ¬ C e u) ∨ ∃ e ∈ events, C e w := by
  cases h with
  | kept hnone => exact .inl ⟨rfl, hnone⟩
  | changed hevents hchange => exact .inr ⟨_, by simp [hevents], hchange⟩

theorem exists_latest (C : Event → Option Value → Prop) (v : Option Value) (events : List Event) :
    ∃ w, Latest C v events w := by
  induction events generalizing v with
  | nil => exact ⟨v, .kept (by simp)⟩
  | cons e rest ih =>
    obtain ⟨w, hw⟩ : ∃ w, Latest C v [e] w := by
      by_cases he : ∃ w, C e w
      · exact ⟨he.choose, .single he.choose_spec⟩
      · exact ⟨v, .kept (List.forall_mem_singleton.2 (not_exists.1 he))⟩
    obtain ⟨u, hu⟩ := ih w
    exact ⟨u, hw.append hu⟩

/-- Events that make one and the same of a variable, if they change it, leave that. -/
theorem of_forall {e : Event} (he : e ∈ events) (hw : C e w)
    (h : ∀ x ∈ events, ∀ u, C x u → u = w) : Latest C v events w := by
  obtain ⟨u, hu⟩ := exists_latest C v events
  cases hu with
  | kept hnone => exact absurd hw (hnone e he w)
  | changed hevents hchange hlater =>
    obtain rfl := h _ (by simp [hevents]) _ hchange
    exact .changed hevents hchange hlater

end Latest

section Changes

variable {root : List Action} {base : Route} {name : String} {p : Spot} {s : Scene} {e : Event}
  {w : Option Value}

theorem not_changes_of_ne {what : Happening} (hbegins : what ≠ .begins)
    (hhandles : ∀ f, what ≠ .handles f) : ¬ Changes root base name ⟨p, what, s⟩ w := by
  intro h
  cases h with
  | taken _ h => exact hbegins h.1
  | noted => exact hhandles _ rfl

theorem not_changes_begins (h : ¬ Rebinds root name ⟨p, .begins, s⟩) :
    ¬ Changes root base name ⟨p, .begins, s⟩ w := by
  intro hchange
  cases hchange with
  | taken _ hrebinds => exact h hrebinds

theorem not_rebinds_of_not_loop {a : Action} (ha : actionAt? root p = some a)
    (h : ∀ reference itemName indexName body onError line,
      a ≠ .loop reference itemName indexName body onError line) :
    ¬ Rebinds root name ⟨p, .begins, s⟩ := by
  rintro ⟨-, _, _, _, _, _, _, _, hloop, -⟩
  exact h _ _ _ _ _ _ (Option.some.inj (ha.symm.trans hloop))

theorem Changes.below (h : Changes root base name e w) : base <+: e.spot.route := by
  cases h with
  | taken hbelow => exact hbelow
  | noted hbelow => exact hbelow

/-- A variable with another name than `error` is changed only by loops that take it. -/
theorem Changes.rebinds (h : Changes root base name e w) (hname : name ≠ "error") :
    w = none ∧ base <+: e.spot.route ∧ Rebinds root name e := by
  cases h with
  | taken hbelow h => exact ⟨rfl, hbelow, h⟩
  | noted _ herror => exact absurd herror hname

theorem not_shadowed_self (route : Route) (i : Nat) : ¬ Shadowed root route name ⟨route, i⟩ := by
  rintro ⟨q, k, hbelow, habove, -⟩
  exact absurd hbelow.length_le (Nat.not_le.2 habove.depth_lt)

/-- Only a loop that has the variable hides it from what happens in its rounds. -/
theorem not_shadowed_inside {turn : Turn} (h : ¬ Shadowed root base name p)
    (hturn : LoopsOver root name p → ∀ k, turn ≠ .round k) (i : Nat) :
    ¬ Shadowed root base name ⟨p.inside turn, i⟩ := by
  rintro ⟨q, k, hbelow, habove, hloop⟩
  rcases List.prefix_concat_iff.1 habove with heq | hprefix
  · obtain ⟨rfl, hround⟩ := Spot.inside_inj heq
    exact hturn hloop k hround.symm
  · exact h ⟨q, k, hbelow, hprefix, hloop⟩

end Changes

/-- What events below a route leave of a variable between two scenes. -/
def Remains (root : List Action) (base : Route) (name : String) (events : List Event)
    (s s' : Scene) : Prop :=
  Latest (Changes root base name) (s.context.vars.get? (.str name)) events
    (s'.context.vars.get? (.str name))

namespace Remains

variable {root : List Action} {base : Route} {name : String} {events events' : List Event}
  {s s₁ s' : Scene}

theorem of_eq (hevents : ∀ e ∈ events, ∀ w, ¬ Changes root base name e w)
    (h : s'.context.vars.get? (.str name) = s.context.vars.get? (.str name)) :
    Remains root base name events s s' := by
  rw [Remains, h]
  exact .kept hevents

theorem nil (root : List Action) (base : Route) (name : String) (s : Scene) :
    Remains root base name [] s s := of_eq (by simp) rfl

theorem single {e : Event} (he : ∀ w, ¬ Changes root base name e w)
    (h : s'.context.vars.get? (.str name) = s.context.vars.get? (.str name)) :
    Remains root base name [e] s s' :=
  of_eq (List.forall_mem_singleton.2 he) h

theorem append (h : Remains root base name events s s₁)
    (h' : Remains root base name events' s₁ s') : Remains root base name (events ++ events') s s' :=
  Latest.append h h'

end Remains

namespace Watched

variable {α β : Type} {root : List Action} {base : Route} {name : String} {p : Spot}

/-- Runs that leave of a variable what their loops and handlers make of it. -/
def Spares (root : List Action) (base : Route) (name : String) (w : Watched α) : Prop :=
  ∀ s, Remains root base name (w s).events s (w s).scene

/-- A handler starts with the description of the failure under the name `error`, and with all other
variables as they are. -/
theorem remains_noted (hbelow : base <+: p.route) (hopen : ¬ Shadowed root base name p) (f : Failure)
    (s : Scene) : Remains root base name [⟨p, .handles f, noted f s⟩] s (noted f s) := by
  by_cases hname : name = "error"
  · have hnoted : (noted f s).context.vars.get? (.str name) = some (.map (failureRecord f)) := by
      simp [noted, Record.get?_set_str, hname]
    rw [Remains, hnoted]
    exact .single (.noted hbelow hname hopen)
  · refine .single (fun w h => ?_) (Act.keeps_holding_noteFailure hname f s rfl)
    obtain ⟨-, -, hbegins, -⟩ := h.rebinds hname
    cases hbegins

namespace Spares

theorem quiet {m : Act α} (hm : ∀ v, Act.Keeps (Holding name v) m) :
    Spares root base name (quiet m) :=
  fun s => .of_eq (by simp [Watched.quiet]) (hm _ s rfl)

theorem pure (a : α) : Spares root base name (pure a : Watched α) := fun s => .nil root base name s

theorem own {m : Act α} (hm : ∀ v, Act.Keeps (Holding name v) m) :
    Spares root base name (own p m) := by
  intro s
  have h := hm _ s rfl
  rw [Watched.own]
  rcases hrun : m.run s with ⟨f | a, s'⟩
  · rw [hrun] at h
    exact .single (fun _ => not_changes_of_ne (by simp) (by simp)) h
  · rw [hrun] at h
    exact .of_eq (by simp) h

theorem step {m : Act Unit} (hm : ∀ v, Act.Keeps (Holding name v) m) :
    Spares root base name (step p m) := by
  intro s
  have h := hm _ s rfl
  rw [Watched.step]
  rcases hrun : m.run s with ⟨f | a, s'⟩
  all_goals
    rw [hrun] at h
    exact .single (fun _ => not_changes_of_ne (by simp) (by simp)) h

theorem bind {m : Watched α} {k : α → Watched β} (hm : Spares root base name m)
    (hk : ∀ a, Spares root base name (k a)) : Spares root base name (m >>= k) := by
  intro s
  rw [bind_apply, goOn]
  cases (m s).result with
  | error f => exact hm s
  | ok a => exact (hm s).append (hk a _)

theorem rescue {m : Watched α} {k : Failure → Watched α} (hm : Spares root base name m)
    (hk : ∀ f, Spares root base name (k f)) : Spares root base name (rescue m k) := by
  intro s
  rw [Watched.rescue]
  split
  · exact hm s
  · exact (hm s).append (hk _ _)

theorem rounds {itemName indexName : Value} {anchor : Option Cursor} {body : Nat → Watched Unit}
    (hname : name ∉ loopVars itemName indexName) (hbody : ∀ k, Spares root base name (body k))
    (values : List Value) (k : Nat) (last : Option Cursor) :
    Spares root base name (rounds p itemName indexName anchor body k last values) := by
  induction values generalizing k last with
  | nil => exact .pure _
  | cons item rest ih =>
    rw [Watched.rounds]
    refine .bind (.own fun _ => Act.keeps_holding_enterRound hname _ _ _) fun _ => ?_
    refine .bind (hbody k) fun _ => .bind (.quiet fun _ => .context) fun c => ?_
    split
    · exact .pure _
    · exact ih _ _

theorem loop {reference : String} {itemName : Value} {indexName : Option Value}
    {body : Nat → Watched Unit}
    (hname : name ∉ loopVars itemName (Act.indexNameOf itemName indexName))
    (hbody : ∀ k, Spares root base name (body k)) :
    Spares root base name (loop p reference itemName indexName body) := by
  refine .bind (.own fun _ => Act.keeps_items _) fun values =>
    .bind (.quiet fun _ => Act.keeps_anchorCursor) fun anchor => ?_
  refine .bind (.rescue (.rounds hname hbody values 0 anchor) fun f => .quiet fun _ => ?_)
    fun last => ?_
  · exact .bind (Act.keeps_holding_dropNames hname) fun _ => .throw f
  · refine .bind (.own fun _ => Act.keeps_holding_dropNames hname) fun _ => ?_
    exact .own fun _ => Act.keeps_holding_moveBack last

/-- An action that spares a variable from its beginning to the end of its body, with its handler. -/
theorem attempt {onError : List Action} {handler body : Watched Unit} (hbelow : base <+: p.route)
    (hopen : ¬ Shadowed root base name p)
    (hbody : ∀ s, Remains root base name (⟨p, .begins, s⟩ :: (body s).events) s (body s).scene)
    (hhandler : Spares root base name handler) :
    Spares root base name (attempt p onError handler body) := by
  intro s
  have hends (s : Scene) : Remains root base name [⟨p, .ends, s⟩] s s :=
    .single (fun _ => not_changes_of_ne (by simp) (by simp)) rfl
  have hattempt := attempted p onError handler body s
  generalize Watched.attempt p onError handler body s = t at hattempt ⊢
  cases hattempt with
  | succeeded => simpa using (hbody s).append (hends _)
  | failed => simpa using hbody s
  | @rescued f _ hsome =>
    have h := ((hbody s).append (remains_noted hbelow hopen f _)).append
      ((hhandler _).append (hends _))
    simpa using h
  | @lost f _ _ hsome =>
    have h := ((hbody s).append (remains_noted hbelow hopen f _)).append (hhandler _)
    simpa using h

end Spares

/-- A loop that takes a variable leaves nothing of it, whatever is told in its rounds. Another loop
spares it if its body does. -/
theorem remains_loop {reference : String} {itemName : Value} {indexName : Option Value}
    {actions onError : List Action} {line : Option Nat}
    (ha : actionAt? root p = some (.loop reference itemName indexName actions onError line))
    (hbelow : base <+: p.route) {body : Nat → Watched Unit} {run : Act Unit}
    (hplain : ∀ k, (body k).plain = run)
    (hinside : ∀ k, All (fun e => p.Above (.round k) e.spot) (body k))
    (hbody : ¬ LoopsOver root name p → ∀ k, Spares root base name (body k)) (s : Scene) :
    Remains root base name (⟨p, .begins, s⟩ :: (loop p reference itemName indexName body s).events) s
      (loop p reference itemName indexName body s).scene := by
  by_cases hrebinds : Rebinds root name ⟨p, .begins, s⟩
  · obtain ⟨-, _, _, _, _, _, _, _, hloop, hname, hitems⟩ := id hrebinds
    cases ha.symm.trans hloop
    have hgone : (loop p reference itemName indexName body s).scene.context.vars.get? (.str name) =
        none := by
      have hforEach : ((Act.forEach reference itemName indexName run).run s).2.context.vars.get?
          (.str name) = none := Act.get?_forEach hitems hname
      rw [← plain_loop p reference itemName indexName hplain, run_plain] at hforEach
      dsimp only at hforEach
      exact hforEach
    have hnotes : All (fun e => ∀ w, Changes root base name e w → w = none)
        (loop p reference itemName indexName body) := by
      refine .loop (fun f s w h => absurd h (not_changes_of_ne (by simp) (by simp))) ?_
      intro k s e he w h
      cases h with
      | taken => rfl
      | noted _ _ hopen =>
        exact absurd ⟨p, k, hbelow, hinside k s _ he, _, _, _, _, _, _, ha, hname⟩ hopen
    rw [Remains, hgone]
    refine .of_forall (List.mem_cons_self ..) (.taken hbelow hrebinds) ?_
    refine List.forall_mem_cons.2 ⟨fun w h => ?_, hnotes s⟩
    cases h
    rfl
  · refine (Remains.single (fun _ => not_changes_begins hrebinds) rfl).append ?_
    by_cases hname : name ∈ loopVars itemName (Act.indexNameOf itemName indexName)
    · rcases hrun : (Act.items reference).run s with ⟨f | values, s'⟩
      · have hkeeps := Act.keeps_items (P := Holding name _) reference s rfl
        rw [hrun] at hkeeps
        rw [loop, own_bind_error hrun]
        exact .single (fun _ => not_changes_of_ne (by simp) (by simp)) hkeeps
      · refine absurd ⟨rfl, _, _, _, _, _, _, values, ha, hname, ?_⟩ hrebinds
        rw [hrun]
    · refine Spares.loop hname (hbody ?_) s
      rintro ⟨_, _, _, _, _, _, hloop, hmem⟩
      cases ha.symm.trans hloop
      exact hname hmem

mutual

/-- An action leaves of a variable that no step in it writes what its loops and handlers make of it. -/
theorem spares_action (engine : Runner) : ∀ (a : Action) (p : Spot), actionAt? root p = some a →
    base <+: p.route → ¬ Shadowed root base name p → (∀ b ∈ a.flatten, name ∉ b.writes) →
      Spares root base name (action engine.perform p a)
  | .step leaf onError line, p, ha, hbelow, hopen, h => by
    rw [Action.flatten, List.forall_mem_cons] at h
    obtain ⟨hown, hinner⟩ := h
    rw [action]
    refine .attempt hbelow hopen (fun s => ?_) (spares_sequence engine onError _ 0
      (sequenceAt_inside ha _) (hbelow.trans (List.prefix_append _ _))
      (not_shadowed_inside hopen (by simp) 0) hinner)
    have hbegins : Remains root base name [⟨p, .begins, s⟩] s s :=
      .single (fun _ => not_changes_begins (not_rebinds_of_not_loop ha (by simp))) rfl
    exact hbegins.append (Spares.step (fun _ => Act.keeps_holding_perform engine hown) s)
  | .branch condition yes no onError line, p, ha, hbelow, hopen, h => by
    rw [Action.flatten, List.forall_mem_cons] at h
    obtain ⟨hown, hinner⟩ := h
    simp only [List.forall_mem_append] at hinner
    obtain ⟨⟨hyes, hno⟩, honError⟩ := hinner
    rw [action]
    have hin (turn : Turn) : base <+: p.inside turn := hbelow.trans (List.prefix_append _ _)
    refine .attempt hbelow hopen (fun s => ?_) (spares_sequence engine onError _ 0
      (sequenceAt_inside ha _) (hin _) (not_shadowed_inside hopen (by simp) 0) honError)
    have hbegins : Remains root base name [⟨p, .begins, s⟩] s s :=
      .single (fun _ => not_changes_begins (not_rebinds_of_not_loop ha (by simp))) rfl
    refine hbegins.append (Spares.bind (.own fun _ => Act.keeps_holds condition) (fun b => ?_) s)
    split
    · exact spares_sequence engine yes _ 0 (sequenceAt_inside ha _) (hin _)
        (not_shadowed_inside hopen (by simp) 0) hyes
    · exact spares_sequence engine no _ 0 (sequenceAt_inside ha _) (hin _)
        (not_shadowed_inside hopen (by simp) 0) hno
  | .loop reference itemName indexName body onError line, p, ha, hbelow, hopen, h => by
    rw [Action.flatten, List.forall_mem_cons] at h
    obtain ⟨hown, hinner⟩ := h
    rw [List.forall_mem_append] at hinner
    rw [action]
    have hin (turn : Turn) : base <+: p.inside turn := hbelow.trans (List.prefix_append _ _)
    have hinside (k : Nat) : All (fun e => p.Above (.round k) e.spot)
        (sequence engine.perform (p.inside (.round k)) 0 body) := fun s e he =>
      (inOrder_inside (inOrder_sequence engine.perform body (p.inside (.round k)) 0
        (sequenceAt_inside ha _)) s).located e he
    refine .attempt hbelow hopen (remains_loop ha hbelow
      (fun k => plain_sequence engine.perform _ 0 body) hinside fun hloop k => ?_)
      (spares_sequence engine onError _ 0 (sequenceAt_inside ha _) (hin _)
        (not_shadowed_inside hopen (by simp) 0) hinner.2)
    exact spares_sequence engine body _ 0 (sequenceAt_inside ha _) (hin _)
      (not_shadowed_inside hopen (fun hmem => absurd hmem hloop) 0) hinner.1

/-- A sequence leaves of a variable that no step in it writes what its loops and handlers make of
it. -/
theorem spares_sequence (engine : Runner) : ∀ (as : List Action) (route : Route) (i : Nat),
    (sequenceAt root route).drop i = as → base <+: route → ¬ Shadowed root base name ⟨route, i⟩ →
      (∀ b ∈ Action.flattenAll as, name ∉ b.writes) →
        Spares root base name (sequence engine.perform route i as)
  | [], _, _, _, _, _, _ => .pure ()
  | first :: rest, route, i, hroute, hbelow, hopen, h => by
    obtain ⟨hi, hrest⟩ := actionAt?_of_drop hroute
    rw [Action.flattenAll, List.forall_mem_append] at h
    rw [sequence]
    refine .bind (.quiet fun _ => .context) fun c => ?_
    split
    · exact .pure _
    · exact .bind (spares_action engine first _ hi hbelow hopen h.1) fun _ =>
        spares_sequence engine rest route (i + 1) hrest hbelow hopen h.2

end

end Watched

end BulletScript.Engine
