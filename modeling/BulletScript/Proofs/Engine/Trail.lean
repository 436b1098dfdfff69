import BulletScript.Proofs.Engine.Act

/-! Runs watched from outside. Every action of a run has a spot: the way down to it from the first
sequence, and two places are compared by the places they share on their ways. A watched run leaves a
trail of events: where which action began, did its step, failed, had its handler start, or ended.
Watching changes nothing, and a property that each step gives its events holds of all of them. -/
namespace BulletScript.Engine

open Script

section Places

/-- The ways from an action down to the sequences in it. Each round of a loop is a way of its
own. -/
inductive Turn where
  | yes | no | round (k : Nat) | handler
  deriving Repr, DecidableEq

/-- The way down to a sequence: the index of each action passed, and where it was left. -/
abbrev Route := List (Nat × Turn)

/-- An action in a run: the way to its sequence, and its index there. -/
structure Spot where
  route : Route := []
  index : Nat
  deriving Repr, DecidableEq

namespace Spot

/-- The way to a sequence in the action. -/
def inside (p : Spot) (turn : Turn) : Route := p.route ++ [(p.index, turn)]

/-- The place right after the action. -/
def next (p : Spot) : Spot := ⟨p.route, p.index + 1⟩

/-- The number of actions around the action. -/
def depth (p : Spot) : Nat := p.route.length

/-- Whether `p` lies in the sequence that a turn of `q` leads to, at any depth. -/
def Above (q : Spot) (turn : Turn) (p : Spot) : Prop := q.inside turn <+: p.route

/-- Whether `p` is `q` or lies in it. -/
def Covers (q p : Spot) : Prop := p = q ∨ ∃ turn, q.Above turn p

end Spot

/-- The sequence of an action that a turn leads to. -/
def Turn.sequence : Turn → Action → List Action
  | .handler, a => a.onError
  | .yes, .branch _ first _ _ _ => first
  | .no, .branch _ _ second _ _ => second
  | .round _, .loop _ _ _ body _ _ => body
  | _, _ => []

/-- The sequence at the end of a route. -/
def sequenceAt (root : List Action) : Route → List Action
  | [] => root
  | (i, turn) :: rest => sequenceAt ((root[i]?.map turn.sequence).getD []) rest

def actionAt? (root : List Action) (p : Spot) : Option Action := (sequenceAt root p.route)[p.index]?

theorem sequenceAt_concat (root : List Action) (route : Route) (i : Nat) (turn : Turn) :
    sequenceAt root (route ++ [(i, turn)]) =
      ((sequenceAt root route)[i]?.map turn.sequence).getD [] := by
  induction route generalizing root with
  | nil => rfl
  | cons pass rest ih => exact ih _

theorem sequenceAt_inside {root : List Action} {p : Spot} {a : Action}
    (h : actionAt? root p = some a) (turn : Turn) :
    sequenceAt root (p.inside turn) = turn.sequence a := by
  rw [Spot.inside, sequenceAt_concat]
  exact congrArg (fun o => (Option.map turn.sequence o).getD []) h

/-- The first of the actions that stand in a sequence from index `i` on, and the others. -/
theorem actionAt?_of_drop {root : List Action} {route : Route} {i : Nat} {first : Action}
    {rest : List Action} (h : (sequenceAt root route).drop i = first :: rest) :
    actionAt? root ⟨route, i⟩ = some first ∧ (sequenceAt root route).drop (i + 1) = rest := by
  constructor
  · have h0 : ((sequenceAt root route).drop i)[0]? = some first := by rw [h]; rfl
    rwa [List.getElem?_drop] at h0
  · rw [← List.drop_drop, h, List.drop_one, List.tail_cons]

namespace Spot

variable {p q r : Spot} {s t : Turn}

theorem length_inside (p : Spot) (t : Turn) : (p.inside t).length = p.depth + 1 := by
  simp [inside, depth]

theorem inside_inj (h : p.inside s = q.inside t) : p = q ∧ s = t := by
  obtain ⟨hr, hl⟩ := List.append_inj' h rfl
  cases p
  cases q
  simp_all

theorem Above.depth_lt (h : q.Above t p) : q.depth < p.depth := by
  have := h.length_le
  rw [length_inside] at this
  exact this

theorem Covers.refl (p : Spot) : p.Covers p := .inl rfl

theorem Covers.depth_le (h : q.Covers p) : q.depth ≤ p.depth := by
  rcases h with rfl | ⟨t, h⟩
  · exact Nat.le_refl _
  · exact Nat.le_of_lt h.depth_lt

/-- Two actions around a third one at the same depth are one, left by the same way. -/
theorem Above.unique (hq : q.Above s p) (hr : r.Above t p) (h : q.depth = r.depth) :
    q = r ∧ s = t := by
  apply inside_inj
  apply (List.prefix_of_prefix_length_le hq hr _).eq_of_length
  · simp [length_inside, h]
  · simp [length_inside, h]

theorem Above.trans (hq : q.Above s r) (hr : r.Covers p) : q.Above s p := by
  rcases hr with rfl | ⟨t, hr⟩
  · exact hq
  · exact List.IsPrefix.trans hq (List.IsPrefix.trans (List.prefix_append _ _) hr)

theorem Covers.trans (hq : q.Covers r) (hr : r.Covers p) : q.Covers p := by
  rcases hq with rfl | ⟨t, hq⟩
  · exact hr
  · exact .inr ⟨t, hq.trans hr⟩

theorem Covers.unique (hq : q.Covers p) (hr : r.Covers p) (h : q.depth = r.depth) : q = r := by
  rcases hq with rfl | ⟨s, hq⟩ <;> rcases hr with rfl | ⟨t, hr⟩
  · rfl
  · exact absurd h (Nat.ne_of_gt hr.depth_lt)
  · exact absurd h (Nat.ne_of_lt hq.depth_lt)
  · exact (hq.unique hr h).1

/-- What lies in an action of a sequence lies in the action around the sequence. -/
theorem above_of_covers {i : Nat} (h : Covers ⟨q.inside t, i⟩ p) : q.Above t p := by
  rcases h with rfl | ⟨s, h⟩
  · exact List.prefix_refl _
  · exact (List.prefix_append _ _).trans h

theorem Above.not_covers (h : q.Above t p) : ¬ p.Covers q := by
  intro hq
  exact absurd hq.depth_le (Nat.not_le.2 h.depth_lt)

/-- What lies in one sequence of an action does not lie in an action of another one. -/
theorem Above.apart (hp : q.Above s p) (hr : q.Above t r) (h : s ≠ t) :
    ¬ p.Covers r := by
  intro hcovers
  exact h ((hp.trans hcovers).unique hr rfl).2

/-- Of two actions around a third one, the outer one is around the inner one. -/
theorem Covers.of_depth_le (hq : q.Covers p) (hr : r.Covers p) (h : q.depth ≤ r.depth) :
    q.Covers r := by
  rcases Nat.eq_or_lt_of_le h with heq | hlt
  · exact .inl (hq.unique hr heq).symm
  rcases hq with rfl | ⟨t, hq⟩
  · exact absurd hr.depth_le (Nat.not_le.2 hlt)
  refine .inr ⟨t, ?_⟩
  rcases hr with rfl | ⟨s, hr⟩
  · exact hq
  · have hroute : r.route <+: p.route := (List.prefix_append _ _).trans hr
    exact List.prefix_of_prefix_length_le hq hroute (by rw [length_inside]; exact hlt)

end Spot

end Places

/-- What can happen to an action. A step that is done tells the scene it was done in. -/
inductive Happening where
  | begins | does (before : Scene) | fails (failure : Failure) | handles (failure : Failure) | ends

/-- What happened to the action at a spot, and the scene then. -/
structure Event where
  spot : Spot
  what : Happening
  scene : Scene

/-- What a run leaves: its events in order, its result and its last scene. -/
structure Trail (α : Type) where
  events : List Event
  result : Except Failure α
  scene : Scene

/-- A run under watch, by the scene it begins with. -/
def Watched (α : Type) : Type := Scene → Trail α

namespace Watched

variable {α β : Type}

/-- The second trail goes on where the first one ends. -/
def goOn (t : Trail α) (k : α → Watched β) : Trail β :=
  match t.result with
  | .ok a => ⟨t.events ++ (k a t.scene).events, (k a t.scene).result, (k a t.scene).scene⟩
  | .error f => ⟨t.events, .error f, t.scene⟩

instance : Monad Watched where
  pure a := fun s => ⟨[], .ok a, s⟩
  bind m k := fun s => goOn (m s) k

/-- Work that leaves no event. -/
def quiet (m : Act α) : Watched α := fun s => ⟨[], (m.run s).1, (m.run s).2⟩

def tell (p : Spot) (what : Happening) : Watched Unit := fun s => ⟨[⟨p, what, s⟩], .ok (), s⟩

/-- Work that the action at a spot does itself: if it fails, the action fails. -/
def own (p : Spot) (m : Act α) : Watched α := fun s =>
  match m.run s with
  | (.ok a, s) => ⟨[], .ok a, s⟩
  | (.error f, s) => ⟨[⟨p, .fails f, s⟩], .error f, s⟩

/-- The step of the action at a spot. -/
def step (p : Spot) (m : Act Unit) : Watched Unit := fun s =>
  match m.run s with
  | (.ok _, s') => ⟨[⟨p, .does s, s'⟩], .ok (), s'⟩
  | (.error f, s') => ⟨[⟨p, .fails f, s'⟩], .error f, s'⟩

/-- What takes the place of a run once it fails. -/
def rescue (m : Watched α) (k : Failure → Watched α) : Watched α := fun s =>
  match (m s).result with
  | .ok _ => m s
  | .error f =>
    let t := k f (m s).scene
    ⟨(m s).events ++ t.events, t.result, t.scene⟩

/-- An action from its beginning to its end, with its handler if it has one. -/
def attempt (p : Spot) (onError : List Action) (handler body : Watched Unit) : Watched Unit := do
  let own : Watched Unit := do
    tell p .begins
    body
  if onError.isEmpty then own
  else rescue own fun failure => do
    quiet (Act.noteFailure failure)
    tell p (.handles failure)
    handler
  tell p .ends

/-- The rounds of a loop. -/
def rounds (p : Spot) (itemName indexName : Value) (anchor : Option Cursor)
    (body : Nat → Watched Unit) (k : Nat) (last : Option Cursor) :
    List Value → Watched (Option Cursor)
  | [] => return last
  | item :: rest => do
    own p (Act.enterRound itemName indexName anchor k item)
    body k
    let c ← quiet Act.context
    if c.shouldReturn then return c.cursor
    rounds p itemName indexName anchor body (k + 1) c.cursor rest

def loop (p : Spot) (reference : String) (itemName : Value) (indexName : Option Value)
    (body : Nat → Watched Unit) : Watched Unit := do
  let values ← own p (Act.items reference)
  let indexName := Act.indexNameOf itemName indexName
  let anchor ← quiet Act.anchorCursor
  let last ← rescue (rounds p itemName indexName anchor body 0 anchor values) fun failure => quiet do
    Act.dropNames itemName indexName
    throw failure
  own p (Act.dropNames itemName indexName)
  own p (Act.moveBack last)

mutual

/-- Runs the action at a spot under watch. -/
def action (perform : Step → Act Unit) (p : Spot) : Action → Watched Unit
  | .step leaf onError _ =>
    attempt p onError (sequence perform (p.inside .handler) 0 onError) (step p (perform leaf))
  | .branch condition yes no onError _ =>
    attempt p onError (sequence perform (p.inside .handler) 0 onError) do
      if ← own p (Act.holds condition) then sequence perform (p.inside .yes) 0 yes
      else sequence perform (p.inside .no) 0 no
  | .loop reference itemName indexName body onError _ =>
    attempt p onError (sequence perform (p.inside .handler) 0 onError)
      (loop p reference itemName indexName fun k =>
        sequence perform (p.inside (.round k)) 0 body)

/-- Runs actions under watch; the first one has index `i` in the sequence at the end of `route`. -/
def sequence (perform : Step → Act Unit) (route : Route) (i : Nat) :
    List Action → Watched Unit
  | [] => return
  | first :: rest => do
    if (← quiet Act.context).shouldReturn then return
    action perform ⟨route, i⟩ first
    sequence perform route (i + 1) rest

end

/-- A watched run without its trail. -/
def plain (w : Watched α) : Act α := ExceptT.mk fun s => ((w s).result, (w s).scene)

@[simp] theorem run_plain (w : Watched α) (s : Scene) :
    w.plain.run s = ((w s).result, (w s).scene) := rfl

theorem bind_apply (m : Watched α) (k : α → Watched β) (s : Scene) : (m >>= k) s = goOn (m s) k := rfl

theorem rescue_of_ok {m : Watched α} {k : Failure → Watched α} {s : Scene} {a : α}
    (h : (m s).result = .ok a) : rescue m k s = m s := by
  simp [rescue, h]

theorem rescue_of_error {m : Watched α} {k : Failure → Watched α} {s : Scene} {f : Failure}
    (h : (m s).result = .error f) :
    rescue m k s = ⟨(m s).events ++ (k f (m s).scene).events, (k f (m s).scene).result,
      (k f (m s).scene).scene⟩ := by
  simp [rescue, h]

@[simp] theorem plain_pure (a : α) : (pure a : Watched α).plain = pure a := rfl

@[simp] theorem plain_quiet (m : Act α) : (quiet m).plain = m := rfl

@[simp] theorem plain_tell (p : Spot) (what : Happening) : (tell p what).plain = pure () := rfl

@[simp] theorem plain_own (p : Spot) (m : Act α) : (own p m).plain = m := by
  apply Act.ext
  intro s
  rcases h : m.run s with ⟨r, s'⟩
  cases r <;> simp [own, h]

@[simp] theorem plain_step (p : Spot) (m : Act Unit) : (step p m).plain = m := by
  apply Act.ext
  intro s
  rcases h : m.run s with ⟨r, s'⟩
  cases r <;> simp [step, h]

@[simp] theorem plain_bind (m : Watched α) (k : α → Watched β) :
    (m >>= k).plain = m.plain >>= fun a => (k a).plain := by
  apply Act.ext
  intro s
  rw [Act.run_bind, run_plain, run_plain, bind_apply]
  cases h : (m s).result <;> simp [goOn, h]

@[simp] theorem plain_rescue (m : Watched α) (k : Failure → Watched α) :
    (rescue m k).plain = tryCatch m.plain fun f => (k f).plain := by
  apply Act.ext
  intro s
  rw [Act.run_tryCatch, run_plain, run_plain]
  cases h : (m s).result <;> simp [rescue, h]

@[simp] theorem plain_ite (c : Prop) [Decidable c] (m n : Watched α) :
    (if c then m else n).plain = if c then m.plain else n.plain := by
  split <;> rfl

theorem plain_attempt (p : Spot) (onError : List Action) (handler body : Watched Unit) :
    (attempt p onError handler body).plain = Act.handled onError handler.plain body.plain := by
  simp only [attempt, Act.handled]
  split <;> simp

theorem plain_rounds (p : Spot) (itemName indexName : Value) (anchor : Option Cursor)
    {body : Nat → Watched Unit} {run : Act Unit} (hbody : ∀ k, (body k).plain = run) (k : Nat)
    (last : Option Cursor) (values : List Value) :
    (rounds p itemName indexName anchor body k last values).plain =
      Act.eachItem itemName indexName anchor run k last values := by
  induction values generalizing k last with
  | nil => rfl
  | cons item rest ih => simp [rounds, Act.eachItem, hbody, ih]

theorem plain_loop (p : Spot) (reference : String) (itemName : Value) (indexName : Option Value)
    {body : Nat → Watched Unit} {run : Act Unit} (hbody : ∀ k, (body k).plain = run) :
    (loop p reference itemName indexName body).plain =
      Act.forEach reference itemName indexName run := by
  simp [loop, Act.forEach, plain_rounds _ _ _ _ hbody]

mutual

theorem plain_action (perform : Step → Act Unit) (p : Spot) :
    ∀ a : Action, (action perform p a).plain = Act.action perform a
  | .step leaf onError line => by
    simp [action, Act.action, plain_attempt, plain_sequence]
  | .branch condition yes no onError line => by
    simp [action, Act.action, plain_attempt, plain_sequence]
  | .loop reference itemName indexName body onError line => by
    rw [action, Act.action, plain_attempt, plain_sequence,
      plain_loop _ _ _ _ fun k => plain_sequence perform _ 0 body]

/-- Watching a run changes neither its result nor its last scene. -/
theorem plain_sequence (perform : Step → Act Unit) (route : Route) (i : Nat) :
    ∀ as : List Action, (sequence perform route i as).plain = Act.sequence perform as
  | [] => rfl
  | first :: rest => by
    simp [sequence, Act.sequence, plain_action, plain_sequence]

end
end Watched

/-- A step that an event tells of was really done, by the action there. -/
def Genuine (root : List Action) (perform : Step → Act Unit) (e : Event) : Prop :=
  ∀ s, e.what = .does s → ∃ leaf onError line,
    actionAt? root e.spot = some (.step leaf onError line) ∧
      (perform leaf).run s = (.ok (), e.scene)

namespace Watched

variable {α β : Type} {E : Event → Prop} {root : List Action} {perform : Step → Act Unit}

/-- Runs all of whose events have a property. -/
def All (E : Event → Prop) (w : Watched α) : Prop := ∀ s, ∀ e ∈ (w s).events, E e

namespace All

theorem pure (a : α) : All E (pure a : Watched α) := fun _ _ he => by cases he

theorem quiet (m : Act α) : All E (quiet m) := fun _ _ he => by cases he

theorem tell {p : Spot} {what : Happening} (h : ∀ s, E ⟨p, what, s⟩) : All E (tell p what) := by
  intro s e he
  rw [List.mem_singleton.1 he]
  exact h s

theorem own {p : Spot} {m : Act α} (h : ∀ f s, E ⟨p, .fails f, s⟩) : All E (own p m) := by
  intro s e he
  rcases hm : m.run s with ⟨f | a, s'⟩
  · simp only [Watched.own, hm, List.mem_singleton] at he
    exact he ▸ h f s'
  · simp [Watched.own, hm] at he

theorem step {p : Spot} {m : Act Unit} (h : ∀ what s, E ⟨p, what, s⟩) : All E (step p m) := by
  intro s e he
  rcases hm : m.run s with ⟨f | ⟨⟩, s'⟩
  all_goals
    simp only [Watched.step, hm, List.mem_singleton] at he
    exact he ▸ h _ _

theorem bind {m : Watched α} {k : α → Watched β} (hm : All E m) (hk : ∀ a, All E (k a)) :
    All E (m >>= k) := by
  intro s e he
  rw [bind_apply, goOn] at he
  cases hr : (m s).result with
  | error f =>
    rw [hr] at he
    exact hm s e he
  | ok a =>
    rw [hr] at he
    exact (List.mem_append.1 he).elim (hm s e) (hk a _ e)

theorem rescue {m : Watched α} {k : Failure → Watched α} (hm : All E m) (hk : ∀ f, All E (k f)) :
    All E (rescue m k) := by
  intro s e he
  rw [Watched.rescue] at he
  split at he
  · exact hm s e he
  · exact (List.mem_append.1 he).elim (hm s e) (hk _ _ e)

theorem attempt {p : Spot} {onError : List Action} {handler body : Watched Unit}
    (hp : ∀ what s, (∀ before, what ≠ .does before) → E ⟨p, what, s⟩) (hhandler : All E handler)
    (hbody : All E body) : All E (attempt p onError handler body) := by
  have hown : All E (do Watched.tell p .begins; body) :=
    .bind (.tell fun s => hp _ s (by simp)) fun _ => hbody
  have hends : All E (Watched.tell p .ends) := .tell fun s => hp _ s (by simp)
  rw [Watched.attempt]
  dsimp only
  split
  · exact .bind hown fun _ => hends
  · refine .bind (.rescue hown fun f => .bind (.quiet _) fun _ => ?_) fun _ => hends
    exact .bind (.tell fun s => hp _ s (by simp)) fun _ => hhandler

theorem rounds {p : Spot} {itemName indexName : Value} {anchor : Option Cursor}
    {body : Nat → Watched Unit} (hp : ∀ f s, E ⟨p, .fails f, s⟩) (hbody : ∀ k, All E (body k))
    (values : List Value) (k : Nat) (last : Option Cursor) :
    All E (rounds p itemName indexName anchor body k last values) := by
  induction values generalizing k last with
  | nil => exact .pure _
  | cons item rest ih =>
    rw [Watched.rounds]
    refine .bind (.own hp) fun _ => .bind (hbody k) fun _ => .bind (.quiet _) fun c => ?_
    split
    · exact .pure _
    · exact ih _ _

theorem loop {p : Spot} {reference : String} {itemName : Value} {indexName : Option Value}
    {body : Nat → Watched Unit} (hp : ∀ f s, E ⟨p, .fails f, s⟩) (hbody : ∀ k, All E (body k)) :
    All E (loop p reference itemName indexName body) := by
  refine .bind (.own hp) fun values => .bind (.quiet _) fun anchor => ?_
  refine .bind (.rescue (.rounds hp hbody values 0 anchor) fun f => .quiet _) fun last => ?_
  exact .bind (.own hp) fun _ => .own hp

end All

theorem genuine_of_ne {p : Spot} {what : Happening} {s : Scene} (h : ∀ before, what ≠ .does before) :
    Genuine root perform ⟨p, what, s⟩ := fun before hb => absurd hb (h before)

mutual

theorem genuine_action : ∀ (a : Action) (p : Spot), actionAt? root p = some a →
    All (Genuine root perform) (action perform p a)
  | .step leaf onError line, p, ha => by
    refine .attempt (fun _ _ h => genuine_of_ne h)
      (genuine_sequence onError _ 0 (sequenceAt_inside ha _)) fun s e he => ?_
    rcases hrun : (perform leaf).run s with ⟨f | ⟨⟩, s'⟩
    · simp only [step, hrun, List.mem_singleton] at he
      exact he ▸ genuine_of_ne (by simp)
    · simp only [step, hrun, List.mem_singleton] at he
      subst he
      rintro _ ⟨⟩
      exact ⟨leaf, onError, line, ha, hrun⟩
  | .branch condition yes no onError line, p, ha => by
    refine .attempt (fun _ _ h => genuine_of_ne h)
      (genuine_sequence onError _ 0 (sequenceAt_inside ha _)) ?_
    refine .bind (.own fun f s => genuine_of_ne (by simp)) fun b => ?_
    split
    · exact genuine_sequence yes _ 0 (sequenceAt_inside ha _)
    · exact genuine_sequence no _ 0 (sequenceAt_inside ha _)
  | .loop reference itemName indexName body onError line, p, ha => by
    refine .attempt (fun _ _ h => genuine_of_ne h)
      (genuine_sequence onError _ 0 (sequenceAt_inside ha _)) ?_
    refine .loop (fun f s => genuine_of_ne (by simp)) fun k => ?_
    exact genuine_sequence body _ 0 (sequenceAt_inside ha _)

/-- A trail tells only of steps that were done. -/
theorem genuine_sequence : ∀ (as : List Action) (route : Route) (i : Nat),
    (sequenceAt root route).drop i = as →
      All (Genuine root perform) (sequence perform route i as)
  | [], _, _, _ => .pure ()
  | first :: rest, route, i, h => by
    obtain ⟨hi, hrest⟩ := actionAt?_of_drop h
    rw [sequence]
    refine .bind (.quiet _) fun c => ?_
    split
    · exact .pure _
    · exact .bind (genuine_action first _ hi) fun _ => genuine_sequence rest route (i + 1) hrest

end

end Watched

end BulletScript.Engine
