import BulletScript.Proofs.Engine.Attempt

/-! Failures in whole runs: each goes to the innermost action around it that has a handler, or ends
the run. -/
namespace BulletScript.Engine

open Script

namespace InOrder

open Watched

variable {α β : Type} {root : List Action} {p : Spot} {d low : Nat} {within : Event → Prop}

theorem pure (a : α) : InOrder root d low within (pure a : Watched α) := fun _ => .nil

theorem quiet_bind {m : Act α} {k : α → Watched β} (hm : ∀ s, ∃ a, (m.run s).1 = .ok a)
    (hk : ∀ a, InOrder root d low within (k a)) : InOrder root d low within (quiet m >>= k) := by
  intro s
  obtain ⟨a, ha⟩ := hm s
  rw [quiet_bind_ok (Prod.ext ha rfl)]
  exact hk a _

/-- The own work of an action, and what follows it. -/
theorem own_bind {m : Act α} {k : α → Watched β} (hd : p.depth < d)
    (hp : ∀ f s, within ⟨p, .fails f, s⟩) (hk : ∀ a, InOrder root d low within (k a)) :
    InOrder root d low within (own p m >>= k) := by
  intro s
  rcases hm : m.run s with ⟨f | a, s'⟩
  · rw [own_bind_error hm]
    exact .fails (hp f s') hd
  · rw [own_bind_ok hm]
    exact hk a s'

/-- The own work of an action at its end. -/
theorem own {m : Act α} (hd : p.depth < d) (hp : ∀ f s, within ⟨p, .fails f, s⟩) :
    InOrder root d low within (own p m) := by
  intro s
  rcases hm : m.run s with ⟨f | a, s'⟩
  · simpa [Watched.own, hm, failure?] using Orderly.fails (hp f s') hd
  · simpa [Watched.own, hm, failure?] using Orderly.nil

/-- The step of an action. -/
theorem step {m : Act Unit} (hd : p.depth < d) (hfails : ∀ f s, within ⟨p, .fails f, s⟩)
    (hdoes : ∀ s s', within ⟨p, .does s, s'⟩) : InOrder root d low within (step p m) := by
  intro s
  rcases hm : m.run s with ⟨f | a, s'⟩
  · simpa [Watched.step, hm, failure?] using Orderly.fails (hfails f s') hd
  · simpa [Watched.step, hm, failure?] using Orderly.does (hdoes s s')

/-- Two runs, one after the other, where no action with a handler goes on in the second. -/
theorem bind {m : Watched α} {k : α → Watched β} {l r : Event → Prop}
    (hm : InOrder root d low l m) (hk : ∀ a, InOrder root d low r (k a))
    (hleft : ∀ e, l e → within e) (hright : ∀ e, r e → within e)
    (apart : ∀ q f s e, l ⟨q, .handles f, s⟩ → r e → ¬ q.Covers e.spot) :
    InOrder root d low within (m >>= k) := by
  intro s
  have hfirst := (hm s).mono hleft
  rw [bind_apply, goOn]
  cases hr : (m s).result with
  | error f =>
    rw [hr] at hfirst
    exact hfirst
  | ok a =>
    rw [hr] at hfirst
    refine hfirst.append ((hk a _).mono hright) ?_
    intro q f s' hq e he
    exact apart q f s' e ((hm s).located _ hq) ((hk a _).located e he)

/-- A run that fails as before when it is rescued. -/
theorem rescue {m : Watched α} {k : Failure → Watched α} (hm : InOrder root d low within m)
    (hk : ∀ s f, (m s).result = .error f →
      (k f (m s).scene).events = [] ∧ (k f (m s).scene).result = .error f) :
    InOrder root d low within (rescue m k) := by
  intro s
  cases hr : (m s).result with
  | ok a => simpa [Watched.rescue, hr] using hm s
  | error f => simpa [Watched.rescue, hr, hk s f hr] using hm s

end InOrder

namespace Watched

variable {root : List Action} {p : Spot}

/-- What can happen in the rounds of a loop from the `k`-th one on. -/
def InRounds (p : Spot) (k : Nat) (e : Event) : Prop :=
  (e.spot = p ∧ e.what.IsWork) ∨ ∃ j, k ≤ j ∧ p.Above (.round j) e.spot

theorem inOrder_rounds {itemName indexName : Value} {anchor : Option Cursor}
    {body : Nat → Watched Unit} (hbody : ∀ k, InOrder root (p.depth + 1) (p.depth + 1)
      (fun e => p.Above (.round k) e.spot) (body k)) (values : List Value) (k : Nat)
    (last : Option Cursor) :
    InOrder root (p.depth + 1) (p.depth + 1) (InRounds p k)
      (rounds p itemName indexName anchor body k last values) := by
  induction values generalizing k last with
  | nil => exact .pure _
  | cons item rest ih =>
    rw [rounds]
    refine .own_bind (Nat.lt_succ_self _) (fun f s => .inl ⟨rfl, trivial⟩) fun _ => ?_
    refine .bind (hbody k) (r := InRounds p (k + 1)) (fun _ => ?_) ?_ ?_ ?_
    · refine .quiet_bind (fun s => ⟨_, rfl⟩) fun c => ?_
      split
      · exact .pure _
      · exact ih _ _
    · exact fun e he => .inr ⟨k, Nat.le_refl k, he⟩
    · rintro e (he | ⟨j, hj, he⟩)
      · exact .inl he
      · exact .inr ⟨j, by omega, he⟩
    · rintro q f s e hq (⟨he, _⟩ | ⟨j, hj, he⟩)
      · rw [he]
        exact Spot.Above.not_covers hq
      · refine Spot.Above.apart hq he ?_
        rintro ⟨⟩
        omega

/-- When the rounds of a loop fail, the removal of its variables does not fail otherwise. -/
theorem rounds_error {itemName indexName : Value} {anchor last : Option Cursor}
    {body : Nat → Watched Unit} {values : List Value} {k : Nat} {s : Scene} {f : Failure}
    (h : (rounds p itemName indexName anchor body k last values s).result = .error f)
    (s' : Scene) :
    ((do Act.dropNames itemName indexName; throw f : Act (Option Cursor)).run s').1 = .error f := by
  rw [Act.run_bind]
  cases hn : Act.loopNames itemName indexName with
  | ok names => rw [Act.dropNames_ok hn]; rfl
  | error g =>
    -- the first round fails in the same way
    cases values with
    | nil => cases h
    | cons item rest =>
      rcases hs : (Act.enterRound itemName indexName anchor k item).run s with ⟨r, s₁⟩
      have hg := Act.enterRound_error hn anchor k item s
      rw [hs] at hg
      cases hg
      rw [rounds, own_bind_error hs] at h
      cases h
      have hd := Act.dropNames_error hn s'
      rcases hr : (Act.dropNames itemName indexName).run s' with ⟨r, s₂⟩
      rw [hr] at hd
      cases hd
      rfl

theorem inOrder_loop {reference : String} {itemName : Value} {indexName : Option Value}
    {body : Nat → Watched Unit} (hbody : ∀ k, InOrder root (p.depth + 1) (p.depth + 1)
      (fun e => p.Above (.round k) e.spot) (body k)) :
    InOrder root (p.depth + 1) (p.depth + 1) (InBody p)
      (loop p reference itemName indexName body) := by
  have hd : p.depth < p.depth + 1 := Nat.lt_succ_self _
  have hfails (f : Failure) (s : Scene) : InBody p ⟨p, .fails f, s⟩ := .inl ⟨rfl, trivial⟩
  refine .own_bind hd hfails fun values => ?_
  refine .quiet_bind (fun s => ⟨_, rfl⟩) fun anchor => ?_
  refine .bind (l := InRounds p 0) (r := fun e => e.spot = p ∧ e.what.IsWork)
    (.rescue (inOrder_rounds hbody values 0 anchor) ?_) (fun last => ?_) ?_ ?_ ?_
  · intro s f hf
    exact ⟨rfl, rounds_error hf _⟩
  · exact .own_bind hd (fun f s => ⟨rfl, trivial⟩) fun _ => .own hd fun f s => ⟨rfl, trivial⟩
  · rintro e (he | ⟨j, _, he⟩)
    · exact .inl he
    · exact .inr ⟨_, by simp, he⟩
  · exact fun e he => .inl he
  · rintro q f s e (⟨_, hwork⟩ | ⟨j, _, hq⟩) ⟨he, _⟩
    · exact hwork.elim
    · rw [he]
      exact hq.not_covers

theorem attempt_begins (p : Spot) (onError : List Action) (handler body : Watched Unit)
    (s : Scene) : ∃ rest, (attempt p onError handler body s).events = ⟨p, .begins, s⟩ :: rest := by
  have h := attempted p onError handler body s
  generalize attempt p onError handler body s = t at h ⊢
  cases h <;> exact ⟨_, rfl⟩

theorem action_begins (perform : Step → Act Unit) (p : Spot) (a : Action) (s : Scene) :
    ∃ rest, (action perform p a s).events = ⟨p, .begins, s⟩ :: rest := by
  cases a <;> rw [action] <;> exact attempt_begins ..

theorem sequence_nil (perform : Step → Act Unit) (route : Route) (i : Nat) (s : Scene) :
    sequence perform route i [] s = ⟨[], .ok (), s⟩ := rfl

theorem sequence_cons (perform : Step → Act Unit) (route : Route) (i : Nat) (first : Action)
    (rest : List Action) (s : Scene) :
    sequence perform route i (first :: rest) s =
      if s.context.shouldReturn then ⟨[], .ok (), s⟩
      else goOn (action perform ⟨route, i⟩ first s) fun _ => sequence perform route (i + 1) rest := by
  rw [sequence, quiet_bind_ok (Act.run_context s)]
  split <;> rfl

theorem sequence_begins (perform : Step → Act Unit) (route : Route) (i : Nat) {as : List Action}
    (has : as ≠ []) {s : Scene} (hs : s.context.shouldReturn = false) :
    ∃ rest, (sequence perform route i as s).events = ⟨⟨route, i⟩, .begins, s⟩ :: rest := by
  cases as with
  | nil => exact absurd rfl has
  | cons first others =>
    rw [sequence_cons, if_neg (by simp [hs]), goOn]
    obtain ⟨rest, hrest⟩ := action_begins perform ⟨route, i⟩ first s
    cases (action perform ⟨route, i⟩ first s).result with
    | ok => exact ⟨_, by rw [hrest]; rfl⟩
    | error f => exact ⟨_, hrest⟩

/-- A whole action: it is in order, and its end is the last thing that happens in it. -/
structure Whole (root : List Action) (p : Spot) (w : Watched Unit) : Prop where
  inOrder : InOrder root p.depth (p.depth + 1) (fun e => p.Covers e.spot) w
  last : ∀ s s' post, ⟨p, .ends, s'⟩ :: post <:+ (w s).events →
    post = [] ∧ s' = (w s).scene ∧ (w s).result = .ok ()

theorem whole_attempt {a : Action} {handler body : Watched Unit} (h : Sound root p a handler body) :
    Whole root p (attempt p a.onError handler body) :=
  ⟨h.inOrder, fun s _ _ => h.last s⟩

/-- What can happen in a sequence from its action `i` on. -/
def FromIndex (route : Route) (i : Nat) (e : Event) : Prop :=
  ∃ j, i ≤ j ∧ Spot.Covers ⟨route, j⟩ e.spot

/-- At the depth of the action, only the action itself ends. -/
theorem Whole.eq_of_ends {w : Watched Unit} (h : Whole root p w) {q : Spot} {s s' : Scene}
    (hq : ⟨q, .ends, s'⟩ ∈ (w s).events) (hd : q.depth < p.depth + 1) : q = p := by
  rcases (h.inOrder s).located _ hq with rfl | ⟨t, ht⟩
  · rfl
  · exact absurd ht.depth_lt (Nat.not_lt.2 (Nat.le_of_lt_succ hd))

/-- The first action of a sequence, and the others after it. -/
theorem inOrder_cons {perform : Step → Act Unit} {route : Route} {i : Nat} {first : Action}
    {rest : List Action} (hfirst : Whole root ⟨route, i⟩ (action perform ⟨route, i⟩ first))
    (hrest : InOrder root route.length route.length (FromIndex route (i + 1))
      (sequence perform route (i + 1) rest))
    (hnext : (sequenceAt root route)[i + 1]? = rest[0]?) :
    InOrder root route.length route.length (FromIndex route i)
      (sequence perform route i (first :: rest)) := by
  intro s
  rw [sequence_cons]
  split
  · exact .nil
  have ho : Orderly root route.length (route.length + 1) (FromIndex route i) _ _ :=
    (hfirst.inOrder s).mono fun e he => ⟨i, Nat.le_refl i, he⟩
  rw [goOn]
  cases hr : (action perform ⟨route, i⟩ first s).result with
  | error f =>
    rw [hr] at ho
    refine { ho with continues := ?_ }
    intro q s' post hq hpost
    by_cases hd : q.depth < route.length + 1
    · obtain rfl := hfirst.eq_of_ends (hpost.subset (List.mem_cons_self ..)) hd
      obtain ⟨_, _, hok⟩ := hfirst.last s s' post hpost
      rw [hr] at hok
      cases hok
    · exact ho.continues q s' post (Nat.le_of_not_lt hd) hpost
  | ok =>
    rw [hr] at ho
    have hafter : ∀ e, FromIndex route (i + 1) e → FromIndex route i e := by
      rintro e ⟨j, hj, he⟩
      exact ⟨j, by omega, he⟩
    refine ho.follow ((hrest _).mono hafter) ?_ ?_
    · intro q f s' hq e he hcovers
      obtain ⟨j, hj, he⟩ := (hrest _).located e he
      have hi := ((hfirst.inOrder s).located _ hq).trans hcovers
      have := hi.unique he rfl
      simp only [Spot.mk.injEq] at this
      omega
    · intro q s' post _ hd hpost hs hq
      obtain rfl := hfirst.eq_of_ends (hpost.subset (List.mem_cons_self ..)) hd
      obtain ⟨rfl, rfl, _⟩ := hfirst.last s s' post hpost
      have hne : rest ≠ [] := by
        rintro rfl
        simp [actionAt?, Spot.next, hnext] at hq
      exact sequence_begins perform route (i + 1) hne hs

theorem inOrder_inside {w : Watched Unit} {turn : Turn}
    (h : InOrder root (p.inside turn).length (p.inside turn).length (FromIndex (p.inside turn) 0) w) :
    InOrder root (p.depth + 1) (p.depth + 1) (fun e => p.Above turn e.spot) w := by
  rw [Spot.length_inside] at h
  exact fun s => (h s).mono fun e ⟨j, _, he⟩ => Spot.above_of_covers he

/-- What an action does itself, without its handler. -/
def bodyOf (perform : Step → Act Unit) (p : Spot) : Action → Watched Unit
  | .step leaf _ _ => step p (perform leaf)
  | .branch condition yes no _ _ => do
    if ← own p (Act.holds condition) then sequence perform (p.inside .yes) 0 yes
    else sequence perform (p.inside .no) 0 no
  | .loop reference itemName indexName body _ _ =>
    loop p reference itemName indexName fun k => sequence perform (p.inside (.round k)) 0 body

theorem action_eq (perform : Step → Act Unit) (p : Spot) (a : Action) :
    action perform p a = attempt p a.onError (sequence perform (p.inside .handler) 0 a.onError)
      (bodyOf perform p a) := by
  cases a <;> rw [action] <;> rfl

mutual

/-- Each part of an action is in order. -/
theorem sound_action (perform : Step → Act Unit) :
    ∀ (a : Action) (p : Spot), actionAt? root p = some a →
      Sound root p a (sequence perform (p.inside .handler) 0 a.onError) (bodyOf perform p a)
  | .step leaf onError line, p, h => by
    have hhandler := inOrder_inside
      (inOrder_sequence perform onError (p.inside .handler) 0 (sequenceAt_inside h _))
    refine ⟨h, ?_, hhandler, fun honError s hs => sequence_begins perform _ 0 honError hs⟩
    exact .step (Nat.lt_succ_self _) (fun f s => .inl ⟨rfl, trivial⟩)
      fun s s' => .inl ⟨rfl, trivial⟩
  | .branch condition yes no onError line, p, h => by
    have hhandler := inOrder_inside
      (inOrder_sequence perform onError (p.inside .handler) 0 (sequenceAt_inside h _))
    have hyes := inOrder_inside
      (inOrder_sequence perform yes (p.inside .yes) 0 (sequenceAt_inside h _))
    have hno := inOrder_inside
      (inOrder_sequence perform no (p.inside .no) 0 (sequenceAt_inside h _))
    refine ⟨h, ?_, hhandler, fun honError s hs => sequence_begins perform _ 0 honError hs⟩
    refine .own_bind (Nat.lt_succ_self _) (fun f s => .inl ⟨rfl, trivial⟩) fun b => ?_
    cases b
    · exact fun s => (hno s).mono fun e he => .inr ⟨_, by simp, he⟩
    · exact fun s => (hyes s).mono fun e he => .inr ⟨_, by simp, he⟩
  | .loop reference itemName indexName body onError line, p, h => by
    have hhandler := inOrder_inside
      (inOrder_sequence perform onError (p.inside .handler) 0 (sequenceAt_inside h _))
    have hbody (k : Nat) := inOrder_inside
      (inOrder_sequence perform body (p.inside (.round k)) 0 (sequenceAt_inside h _))
    refine ⟨h, inOrder_loop hbody, hhandler, ?_⟩
    exact fun honError s hs => sequence_begins perform _ 0 honError hs

theorem whole_action (perform : Step → Act Unit) (a : Action) (p : Spot)
    (h : actionAt? root p = some a) : Whole root p (action perform p a) := by
  rw [action_eq]
  exact whole_attempt (sound_action perform a p h)

/-- Every sequence of a script is in order, whatever its steps do. -/
theorem inOrder_sequence (perform : Step → Act Unit) :
    ∀ (as : List Action) (route : Route) (i : Nat), (sequenceAt root route).drop i = as →
      InOrder root route.length route.length (FromIndex route i) (sequence perform route i as)
  | [], _, _, _ => .pure ()
  | first :: rest, route, i, h => by
    obtain ⟨hi, hrest⟩ := actionAt?_of_drop h
    refine inOrder_cons (whole_action perform first ⟨route, i⟩ hi)
      (inOrder_sequence perform rest route (i + 1) hrest) ?_
    rw [← hrest]
    simp

end

end Watched

/-- The actions of a trigger; there are none if the script lacks it. -/
def actionsOf (config : Config) (kind : String) : List Action :=
  ((config.trigger? kind).map (·.actions)).getD []

/-- The trail of a run of a trigger. -/
def trailOf (perform : Step → Act Unit) (config : Config) (kind : String) (scene : Scene) :
    Trail Unit :=
  Watched.sequence perform [] 0 (actionsOf config kind) (scene.enter config kind)

/-- The trail ends as the actions of the trigger do. -/
theorem run_trigger {perform : Step → Act Unit} {config : Config} {kind : String} {trigger : Trigger}
    (h : config.trigger? kind = some trigger) (scene : Scene) :
    (Act.sequence perform trigger.actions).run (scene.enter config kind) =
      ((trailOf perform config kind scene).result, (trailOf perform config kind scene).scene) := by
  have hactions : actionsOf config kind = trigger.actions := by simp [actionsOf, h]
  rw [trailOf, hactions, ← Watched.run_plain, Watched.plain_sequence]

theorem executeWith_of_error {perform : Step → Act Unit} {config : Config} {kind : String}
    {scene : Scene} {f : Failure} (h : (trailOf perform config kind scene).result = .error f) :
    (executeWith perform config kind scene).1.state = .failed ∧
      (executeWith perform config kind scene).1.error = some f := by
  cases hc : config.trigger? kind with
  | none =>
    rw [trailOf, actionsOf, hc] at h
    cases h
  | some trigger =>
    simp only [executeWith, hc, run_trigger hc, h, and_self]

theorem executeWith_of_ok {perform : Step → Act Unit} {config : Config} {kind : String}
    {scene : Scene} (hactions : actionsOf config kind ≠ [])
    (h : (trailOf perform config kind scene).result = .ok ()) :
    executeWith perform config kind scene =
      (⟨.completed, (trailOf perform config kind scene).scene.context,
          (trailOf perform config kind scene).scene.context.returnValue, none⟩,
        (trailOf perform config kind scene).scene) := by
  cases hc : config.trigger? kind with
  | none => simp [actionsOf, hc] at hactions
  | some trigger =>
    simp only [executeWith, hc, run_trigger hc, h]

theorem inOrder_trailOf (perform : Step → Act Unit) (config : Config) (kind : String)
    (scene : Scene) :
    Orderly (actionsOf config kind) 0 0 (Watched.FromIndex [] 0)
      (trailOf perform config kind scene).events
      (failure? (trailOf perform config kind scene).result) :=
  Watched.inOrder_sequence perform (actionsOf config kind) [] 0 rfl (scene.enter config kind)

/-- The failure at `p` goes to the innermost action that answers to it. Its handler sees the failure
and nothing else of that action runs; when it ends, the next action of its sequence begins. -/
def Answered (root : List Action) (p : Spot) (f : Failure) (post : List Event) : Prop :=
  ∃ q s rest, CatchesFirst root q p ∧ post = ⟨q, .handles f, s⟩ :: rest ∧ Rescued q f s rest ∧
    ∀ s' rest', ⟨q, .ends, s'⟩ :: rest' <:+ rest → Continues root q s' rest'

/-- Nothing answers to the failure at `p`. It is the last event, and the outcome carries it. -/
def Unanswered (root : List Action) (o : Outcome) (p : Spot) (f : Failure) (post : List Event) :
    Prop :=
  (∀ q, ¬ Catches root q p) ∧ post = [] ∧ o.state = .failed ∧ o.error = some f

/-- Every failure of a run goes to the innermost action around it that has a handler and is not
running it, or else ends the run. -/
theorem failure_routed (perform : Step → Act Unit) (config : Config) (kind : String) (scene : Scene)
    {p : Spot} {f : Failure} {s : Scene} {post : List Event}
    (h : ⟨p, .fails f, s⟩ :: post <:+ (trailOf perform config kind scene).events) :
    Answered (actionsOf config kind) p f post ∨
      Unanswered (actionsOf config kind) (executeWith perform config kind scene).1 p f post := by
  have horder := inOrder_trailOf perform config kind scene
  rcases horder.caught p f s post h with ⟨q, s', rest, _, hq, rfl⟩ | ⟨hnone, hpost, hf⟩
  · have hrest : ⟨q, .handles f, s'⟩ :: rest <:+ (trailOf perform config kind scene).events :=
      (List.suffix_cons _ _).trans h
    refine .inl ⟨q, s', rest, hq, rfl, horder.rescued q f s' rest hrest, ?_⟩
    intro s'' rest' hends
    refine horder.continues q s'' rest' (Nat.zero_le _) ?_
    exact (hends.trans (List.suffix_cons _ _)).trans hrest
  · refine .inr ⟨fun q hq => absurd (hnone q hq) (Nat.not_lt_zero _), hpost, ?_⟩
    apply executeWith_of_error
    cases hr : (trailOf perform config kind scene).result with
    | ok => simp [hr, failure?] at hf
    | error g =>
      rw [hr] at hf
      cases hf
      rfl

/-- An engine that has only its settings. -/
def bareRunner : Runner :=
  { settings := { documentRoot := "" }, now := ⟨⟨2000, 1, 1⟩, none, none⟩ }

def bareScene : Scene := { world := { tree := { root := "" } } }

/-- A script that edits a document, does so again if that fails, and returns if that fails too. -/
def retrying : Config :=
  let edit (onError : List Action) : Action := .step (.transform none .replace []) onError none
  { triggers := [⟨.onTrigger, [edit [edit [.step (.return none) [] none]], edit []]⟩]
    tag := ""
    settings := [] }

theorem failure_routed_retrying :
    let f : Failure := .action (.needsTarget "transform")
    ∃ s post, ⟨⟨[(0, .handler)], 0⟩, .fails f, s⟩ :: post <:+
        (trailOf bareRunner.perform retrying "onTrigger" bareScene).events ∧
      (Answered (actionsOf retrying "onTrigger") ⟨[(0, .handler)], 0⟩ f post ∨
        Unanswered (actionsOf retrying "onTrigger")
          (executeWith bareRunner.perform retrying "onTrigger" bareScene).1 ⟨[(0, .handler)], 0⟩ f
          post) := by
  have h : _ :: _ <:+ (trailOf bareRunner.perform retrying "onTrigger" bareScene).events :=
    ⟨[_, _, _, _], rfl⟩
  exact ⟨_, _, h, failure_routed _ _ _ _ h⟩

end BulletScript.Engine
