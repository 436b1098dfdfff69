import BulletScript.Proofs.Engine.Trail
import BulletScript.Proofs.Engine.Rebinding
import BulletScript.Proofs.Engine.Routing

/-! The part of one action in the trail of a run. All that happens in an action happens in one run
of it: its spot is not visited again. -/
namespace BulletScript.Engine

open Script

namespace Watched

variable {α β : Type} {p q : Spot} {part : Watched Unit} {root : List Action}
  {perform : Step → Act Unit}

/-- Nothing happens at `p` or in it. -/
abbrev Avoids (p : Spot) (w : Watched α) : Prop := All (fun e => ¬ p.Covers e.spot) w

/-- Runs in which all that happens at `p` or in it happens in a run of `part`, and in one only. -/
def Within (p : Spot) (part : Watched Unit) (w : Watched α) : Prop :=
  ∀ s before e, before ++ [e] <+: (w s).events → p.Covers e.spot → ∃ s₀ pre inner,
    before = pre ++ inner ∧ inner ++ [e] <+: (part s₀).events ∧ ∀ x ∈ pre, ¬ p.Covers x.spot

namespace Within

theorem self (p : Spot) (part : Watched Unit) : Within p part part :=
  fun s before _ h _ => ⟨s, [], before, rfl, h, by simp⟩

theorem of_avoids {w : Watched α} (h : Avoids p w) : Within p part w := by
  intro s before e hbefore hp
  exact absurd hp (h s e (mem_of_prefix_concat hbefore))

/-- What was before a run in which the part lies is no part of it. -/
theorem append {s : Scene} {w : Watched α} (hw : Within p part w) {events before : List Event}
    {e : Event} (hevents : ∀ x ∈ events, ¬ p.Covers x.spot)
    (h : before ++ [e] <+: events ++ (w s).events) (hp : p.Covers e.spot) : ∃ s₀ pre inner,
      before = pre ++ inner ∧ inner ++ [e] <+: (part s₀).events ∧ ∀ x ∈ pre, ¬ p.Covers x.spot := by
  rcases concat_prefix_append h with h | ⟨later, rfl, hlater⟩
  · exact absurd hp (hevents e (mem_of_prefix_concat h))
  · obtain ⟨s₀, pre, inner, rfl, hinner, hpre⟩ := hw s later e hlater hp
    refine ⟨s₀, events ++ pre, inner, (List.append_assoc ..).symm, hinner, ?_⟩
    exact List.forall_mem_append.2 ⟨hevents, hpre⟩

theorem bind_left {m : Watched α} {k : α → Watched β} (hm : Within p part m)
    (hk : ∀ a, Avoids p (k a)) : Within p part (m >>= k) := by
  intro s before e h hp
  rw [bind_apply, goOn] at h
  split at h
  · rcases concat_prefix_append h with h | ⟨later, rfl, hlater⟩
    · exact hm s before e h hp
    · have hmem := mem_of_prefix_concat hlater
      exact absurd hp (hk _ _ e hmem)
  · exact hm s before e h hp

theorem bind_right {m : Watched α} {k : α → Watched β} (hm : Avoids p m)
    (hk : ∀ a, Within p part (k a)) : Within p part (m >>= k) := by
  intro s before e h hp
  rw [bind_apply, goOn] at h
  split at h
  · exact (hk _).append (hm s) h hp
  · exact of_avoids hm s before e h hp

theorem rescue_left {m : Watched α} {k : Failure → Watched α} (hm : Within p part m)
    (hk : ∀ f, Avoids p (k f)) : Within p part (rescue m k) := by
  intro s before e h hp
  rw [rescue] at h
  split at h
  · exact hm s before e h hp
  · rcases concat_prefix_append h with h | ⟨later, rfl, hlater⟩
    · exact hm s before e h hp
    · have hmem := mem_of_prefix_concat hlater
      exact absurd hp (hk _ _ e hmem)

theorem rescue_right {m : Watched α} {k : Failure → Watched α} (hm : Avoids p m)
    (hk : ∀ f, Within p part (k f)) : Within p part (rescue m k) := by
  intro s before e h hp
  rw [rescue] at h
  split at h
  · exact of_avoids hm s before e h hp
  · exact (hk _).append (hm s) h hp

theorem attempt_left {onError : List Action} {handler body : Watched Unit} (hq : ¬ p.Covers q)
    (hbody : Within p part body) (hhandler : Avoids p handler) :
    Within p part (attempt q onError handler body) := by
  have htell (what : Happening) : Avoids p (tell q what) := .tell fun _ => hq
  have hown : Within p part (do tell q .begins; body) := .bind_right (htell _) fun _ => hbody
  rw [attempt]
  dsimp only
  split
  · exact .bind_left hown fun _ => htell _
  · refine .bind_left (.rescue_left hown fun f => ?_) fun _ => htell _
    exact .bind (.quiet _) fun _ => .bind (htell _) fun _ => hhandler

theorem attempt_right {onError : List Action} {handler body : Watched Unit} (hq : ¬ p.Covers q)
    (hbody : Avoids p body) (hhandler : Within p part handler) :
    Within p part (attempt q onError handler body) := by
  have htell (what : Happening) : Avoids p (tell q what) := .tell fun _ => hq
  have hown : Avoids p (do tell q .begins; body) := .bind (htell _) fun _ => hbody
  rw [attempt]
  dsimp only
  split
  · exact .of_avoids (.bind hown fun _ => htell _)
  · refine .bind_left (.rescue_right hown fun f => ?_) fun _ => htell _
    exact .bind_right (.quiet _) fun _ => .bind_right (htell _) fun _ => hhandler

theorem rounds {itemName indexName : Value} {anchor : Option Cursor} {body : Nat → Watched Unit}
    {turn : Turn} (hp : q.Above turn p) (horder : ∀ k, InOrder root (q.depth + 1) (q.depth + 1)
      (fun e => q.Above (.round k) e.spot) (body k)) (hbody : ∀ k, Within p part (body k))
    (values : List Value) (k : Nat) (last : Option Cursor) :
    Within p part (rounds q itemName indexName anchor body k last values) := by
  have hq : ¬ p.Covers q := hp.not_covers
  induction values generalizing k last with
  | nil => exact .of_avoids (.pure _)
  | cons v rest ih =>
    rw [Watched.rounds]
    refine .bind_right (.own fun _ _ => hq) fun _ => ?_
    by_cases hturn : turn = .round k
    · refine .bind_left (hbody k) fun _ => .bind (.quiet _) fun c => ?_
      split
      · exact .pure _
      · intro s e he
        rcases (inOrder_rounds horder rest _ _ s).located e he with ⟨heq, _⟩ | ⟨j, hj, hlater⟩
        · rw [heq]
          exact hq
        · refine hp.apart hlater ?_
          rw [hturn]
          rintro ⟨⟩
          omega
    · have hround : Avoids p (body k) :=
        fun s e he => hp.apart ((horder k s).located e he) hturn
      refine .bind_right hround fun _ => .bind_right (.quiet _) fun c => ?_
      split
      · exact .of_avoids (.pure _)
      · exact ih _ _

theorem loop {reference : String} {itemName : Value} {indexName : Option Value}
    {body : Nat → Watched Unit} {turn : Turn} (hp : q.Above turn p)
    (horder : ∀ k, InOrder root (q.depth + 1) (q.depth + 1)
      (fun e => q.Above (.round k) e.spot) (body k)) (hbody : ∀ k, Within p part (body k)) :
    Within p part (loop q reference itemName indexName body) := by
  have hown {γ : Type} (m : Act γ) : Avoids p (own q m) := .own fun _ _ => hp.not_covers
  refine .bind_right (hown _) fun values => .bind_right (.quiet _) fun anchor => ?_
  refine .bind_left (.rescue_left (.rounds hp horder hbody values 0 anchor) fun f => ?_)
    fun last => ?_
  · exact .quiet _
  · exact .bind (hown _) fun _ => hown _

end Within

/-- An action around the one at `p`, if what happens there lies in its handler or in its body. -/
theorem within_of_covers {a b : Action} (ha : actionAt? root p = some a)
    (hb : actionAt? root q = some b) (hp : q.Covers p)
    (hhandler : q.depth < p.depth →
      Within p (action perform p a) (sequence perform (q.inside .handler) 0 b.onError))
    (hbody : ∀ turn, q.Above turn p → Within p (action perform p a) (bodyOf perform q b)) :
    Within p (action perform p a) (action perform q b) := by
  rcases hp with rfl | ⟨turn, hp⟩
  · cases ha.symm.trans hb
    exact .self _ _
  have hsound := sound_action perform b q hb
  rw [action_eq perform q b]
  by_cases hturn : turn = .handler
  · subst hturn
    refine .attempt_right hp.not_covers (fun s e he => ?_) (hhandler hp.depth_lt)
    rcases (hsound.inBody s).located e he with ⟨heq, _⟩ | ⟨other, hother, habove⟩
    · rw [heq]
      exact hp.not_covers
    · exact hp.apart habove hother.symm
  · refine .attempt_left hp.not_covers (hbody turn hp) fun s e he => ?_
    exact hp.apart ((hsound.inHandler s).located e he) hturn

mutual

theorem within_action {a : Action} (ha : actionAt? root p = some a) :
    ∀ (b : Action) (q : Spot), actionAt? root q = some b → q.Covers p →
      Within p (action perform p a) (action perform q b)
  | .step leaf onError line, q, hb, hp => by
    refine within_of_covers ha hb hp (fun hdepth => ?_) fun turn hturn => ?_
    · exact within_sequence ha onError _ 0 (sequenceAt_inside hb _) (by simpa [Spot.length_inside])
    · exact .of_avoids (.step fun _ _ => hturn.not_covers)
  | .branch condition yes no onError line, q, hb, hp => by
    refine within_of_covers ha hb hp (fun hdepth => ?_) fun turn hturn => ?_
    · exact within_sequence ha onError _ 0 (sequenceAt_inside hb _) (by simpa [Spot.length_inside])
    · have hlength (t : Turn) : (q.inside t).length ≤ p.depth := by
        rw [Spot.length_inside]
        exact hturn.depth_lt
      refine .bind_right (.own fun _ _ => hturn.not_covers) fun c => ?_
      split
      · exact within_sequence ha yes _ 0 (sequenceAt_inside hb _) (hlength _)
      · exact within_sequence ha no _ 0 (sequenceAt_inside hb _) (hlength _)
  | .loop reference itemName indexName body onError line, q, hb, hp => by
    refine within_of_covers ha hb hp (fun hdepth => ?_) fun turn hturn => ?_
    · exact within_sequence ha onError _ 0 (sequenceAt_inside hb _) (by simpa [Spot.length_inside])
    · have horder (k : Nat) := inOrder_inside
        (inOrder_sequence perform body (q.inside (.round k)) 0 (sequenceAt_inside hb _))
      refine .loop hturn horder fun k => ?_
      refine within_sequence ha body _ 0 (sequenceAt_inside hb _) ?_
      rw [Spot.length_inside]
      exact hturn.depth_lt

/-- In the run of a script, or of a sequence in it, all that happens in an action happens in one run
of that action. -/
theorem within_sequence {a : Action} (ha : actionAt? root p = some a) :
    ∀ (as : List Action) (route : Route) (i : Nat), (sequenceAt root route).drop i = as →
      route.length ≤ p.depth → Within p (action perform p a) (sequence perform route i as)
  | [], _, _, _, _ => .of_avoids (.pure ())
  | first :: rest, route, i, hroute, hdepth => by
    obtain ⟨hi, hrest⟩ := actionAt?_of_drop hroute
    rw [sequence]
    refine .bind_right (.quiet _) fun c => ?_
    split
    · exact .of_avoids (.pure _)
    by_cases hp : Spot.Covers ⟨route, i⟩ p
    · refine .bind_left (within_action ha first _ hi hp) fun _ s e he hcovers => ?_
      obtain ⟨j, hj, hlater⟩ := (inOrder_sequence perform rest route (i + 1) hrest s).located e he
      have := (hp.trans hcovers).unique hlater rfl
      simp only [Spot.mk.injEq] at this
      omega
    · refine .bind_right (fun s e he hcovers => ?_) fun _ =>
        within_sequence ha rest route (i + 1) hrest hdepth
      have hfirst := ((whole_action perform first _ hi).inOrder s).located e he
      exact hp (hfirst.of_depth_le hcovers hdepth)

end

end Watched

end BulletScript.Engine

/-! The variables of a loop as the actions of its body find them. Each round sets them; after that a
variable stays what it is until a loop in the same round takes its name. One that is called `error`
also becomes the description of a failure whenever a handler starts. -/
namespace BulletScript.Engine

open Script

/-- Whether a loop in the `k`-th round of the loop at `p` has taken the variable. -/
def TakenIn (root : List Action) (p : Spot) (k : Nat) (name : String) (before : List Event) :
    Prop :=
  ∃ e ∈ before, p.Above (.round k) e.spot ∧ Rebinds root name e

/-- What has become of a variable that the `k`-th round of the loop at `p` has set to a value. -/
def SetIn (root : List Action) (p : Spot) (k : Nat) (before : List Event) (s : Scene)
    (name : String) (v : Value) : Prop :=
  Latest (Changes root (p.inside (.round k)) name) (some v) before
    (s.context.vars.get? (.str name))

namespace SetIn

variable {root : List Action} {p : Spot} {k : Nat} {name : String} {v : Value}
  {before before' : List Event} {s s₁ : Scene}

/-- What a sequence of a round leaves of a variable that the round has set. -/
theorem of_remains (hs : s₁.context.vars.get? (.str name) = some v)
    (h : Remains root (p.inside (.round k)) name before s₁ s) : SetIn root p k before s name v := by
  rwa [Remains, hs] at h

/-- What lies outside of a round does not matter to it. -/
theorem append_left (h : SetIn root p k before s name v)
    (houtside : ∀ e ∈ before', ¬ p.Above (.round k) e.spot) :
    SetIn root p k (before' ++ before) s name v :=
  .append (.kept fun e he _ hchange => houtside e he hchange.below) h

/-- A variable that a loop in the round has taken is gone, unless handlers write it. -/
theorem gone (h : SetIn root p k before s name v) (hname : name ≠ "error")
    (htaken : TakenIn root p k name before) : s.context.vars.get? (.str name) = none := by
  obtain ⟨e, he, habove, hrebinds⟩ := htaken
  rcases h.eq_or_exists with ⟨-, hnone⟩ | ⟨e', -, hchange⟩
  · exact absurd (.taken habove hrebinds) (hnone e he none)
  · exact (hchange.rebinds hname).1

/-- A variable that handlers do not write has the value of its round as long as no loop in the round
has taken it. -/
theorem eq_some_iff (h : SetIn root p k before s name v) (hname : name ≠ "error") :
    s.context.vars.get? (.str name) = some v ↔ ¬ TakenIn root p k name before := by
  constructor
  · intro hv htaken
    rw [h.gone hname htaken] at hv
    cases hv
  · intro hnone
    rcases h.eq_or_exists with ⟨hv, -⟩ | ⟨e, he, hchange⟩
    · exact hv
    · obtain ⟨-, habove, hrebinds⟩ := hchange.rebinds hname
      exact absurd ⟨e, he, habove, hrebinds⟩ hnone

end SetIn

variable {root : List Action} {p : Spot} {k : Nat} {name : String} {v : Value}
  {before : List Event} {s s₁ : Scene}

namespace Watched

/-- What the actions of a sequence before one of them leave of a variable that no step writes. -/
theorem remains_before {engine : Runner} {j : Nat} :
    ∀ (as : List Action) {route : Route} {i : Nat}, (sequenceAt root route).drop i = as →
      (∀ b ∈ Action.flattenAll as, name ∉ b.writes) → ∀ {s₀ : Scene} {before : List Event},
        before ++ [⟨⟨route, j⟩, .begins, s⟩] <+: (sequence engine.perform route i as s₀).events →
          Remains root route name before s₀ s
  | [], _, _, _, _, _, before, h => by simp [sequence_nil] at h
  | first :: rest, route, i, hroute, hwrites, s₀, before, h => by
    obtain ⟨hi, hrest⟩ := actionAt?_of_drop hroute
    rw [Action.flattenAll, List.forall_mem_append] at hwrites
    have hsound := sound_action engine.perform first ⟨route, i⟩ hi
    have hfirst : before ++ [⟨⟨route, j⟩, .begins, s⟩] <+:
        (action engine.perform ⟨route, i⟩ first s₀).events → Remains root route name before s₀ s := by
      intro h
      have hmem := mem_of_prefix_concat h
      rcases ((whole_action engine.perform first _ hi).inOrder s₀).located _ hmem with heq | ⟨t, ht⟩
      · obtain rfl : j = i := congrArg Spot.index heq
        rw [action_eq] at h
        obtain ⟨rfl, rfl⟩ := hsound.first_begins h
        exact .nil root route name _
      · exact absurd ht.depth_lt (Nat.lt_irrefl _)
    rw [sequence_cons] at h
    split at h
    · simp at h
    · rw [goOn] at h
      split at h
      · rcases concat_prefix_append h with h | ⟨inner, rfl, hinner⟩
        · exact hfirst h
        · exact (spares_action engine first _ hi (List.prefix_refl _) (not_shadowed_self route i)
            hwrites.1 s₀).append (remains_before rest hrest hwrites.2 hinner)
      · exact hfirst h

/-- What the actions of the body of a loop find in a variable that each round sets and no step of the
body writes. -/
theorem setIn_rounds {engine : Runner} {body : List Action}
    (hroute : ∀ k, sequenceAt root (p.inside (.round k)) = body)
    (hwrites : ∀ b ∈ Action.flattenAll body, name ∉ b.writes) {itemName indexName : Value}
    {anchor : Option Cursor} {w : Nat → Value → Value}
    (hset : ∀ k v s s', (Act.enterRound itemName indexName anchor k v).run s = (.ok (), s') →
      s'.context.vars.get? (.str name) = some (w k v)) {i : Nat} (values : List Value) (j : Nat)
    (last : Option Cursor) (s₀ : Scene) (before : List Event)
    (h : before ++ [⟨⟨p.inside (.round k), i⟩, .begins, s⟩] <+:
      (rounds p itemName indexName anchor
        (fun k => sequence engine.perform (p.inside (.round k)) 0 body) j last values s₀).events) :
    j ≤ k ∧ ∃ v, values[k - j]? = some v ∧ SetIn root p k before s name (w k v) := by
  induction values generalizing j last s₀ before with
  | nil => simp [rounds, pure] at h
  | cons v rest ih =>
    have hlocated := fun s => ((inOrder_inside (inOrder_sequence engine.perform body
      (p.inside (.round j)) 0 (hroute j))) s).located
    rw [rounds] at h
    rcases hrun : (Act.enterRound itemName indexName anchor j v).run s₀ with ⟨f | ⟨⟩, s₁⟩
    · rw [own_bind_error hrun] at h
      have hmem := mem_of_prefix_concat h
      simp at hmem
    have hhere : before ++ [⟨⟨p.inside (.round k), i⟩, .begins, s⟩] <+:
        (sequence engine.perform (p.inside (.round j)) 0 body s₁).events →
          j ≤ k ∧ ∃ v', (v :: rest)[k - j]? = some v' ∧ SetIn root p k before s name (w k v') := by
      intro h
      have hmem := mem_of_prefix_concat h
      have hturn := ((hlocated s₁ _ hmem).unique (List.prefix_refl _) rfl).2
      obtain rfl : j = k := Turn.round.inj hturn
      refine ⟨Nat.le_refl _, v, by simp, ?_⟩
      have hdrop := List.drop_zero.trans (hroute j)
      exact .of_remains (hset _ _ _ _ hrun) (remains_before body hdrop hwrites h)
    rw [own_bind_ok hrun, bind_apply, goOn] at h
    split at h
    · rcases concat_prefix_append h with h | ⟨inner, rfl, hinner⟩
      · exact hhere h
      rw [quiet_bind_ok (Act.run_context _)] at hinner
      split at hinner
      · simp [pure] at hinner
      · obtain ⟨hk, v', hv', hseen⟩ := ih _ _ _ _ hinner
        have hget : (v :: rest)[k - j]? = rest[k - (j + 1)]? := by
          rw [show k - j = (k - (j + 1)) + 1 by omega, List.getElem?_cons_succ]
        refine ⟨by omega, v', hget.trans hv', hseen.append_left fun e he habove => ?_⟩
        have hturn := ((hlocated s₁ e he).unique habove rfl).2
        have := Turn.round.inj hturn
        omega
    · exact hhere h

theorem events_rescue_quiet {α : Type} (m : Watched α) (act : Failure → Act α) (s : Scene) :
    (rescue m (fun f => quiet (act f)) s).events = (m s).events := by
  rw [rescue]
  split
  · rfl
  · exact List.append_nil _

theorem setIn_loop {engine : Runner} {reference : String} {itemName : Value}
    {indexName : Option Value} {body : List Action}
    (hroute : ∀ k, sequenceAt root (p.inside (.round k)) = body)
    (hwrites : ∀ b ∈ Action.flattenAll body, name ∉ b.writes) {w : Nat → Value → Value}
    (hset : ∀ anchor k v s s', (Act.enterRound itemName (Act.indexNameOf itemName indexName)
      anchor k v).run s = (.ok (), s') → s'.context.vars.get? (.str name) = some (w k v))
    {i : Nat} {s₀ : Scene}
    (h : before ++ [⟨⟨p.inside (.round k), i⟩, .begins, s⟩] <+:
      (loop p reference itemName indexName
        (fun k => sequence engine.perform (p.inside (.round k)) 0 body) s₀).events) :
    ∃ values v, ((Act.items reference).run s₀).1 = .ok values ∧ values[k]? = some v ∧
      SetIn root p k before s name (w k v) := by
  have hnot {events : List Event} (hevents : ∀ e ∈ events, e.spot = p) {l : List Event} :
      ¬ l ++ [⟨⟨p.inside (.round k), i⟩, .begins, s⟩] <+: events := by
    intro h
    have hspot := hevents _ (mem_of_prefix_concat h)
    have hdepth := congrArg Spot.depth hspot
    rw [Spot.depth, Spot.length_inside] at hdepth
    omega
  rcases hrun : (Act.items reference).run s₀ with ⟨f | values, s₁⟩
  · rw [loop, own_bind_error hrun] at h
    exact absurd h (hnot (by simp))
  obtain ⟨anchor, hanchor⟩ : ∃ anchor, Act.anchorCursor.run s₁ = (.ok anchor, s₁) := ⟨_, rfl⟩
  rw [loop, own_bind_ok hrun, quiet_bind_ok hanchor, bind_apply, goOn] at h
  have hrounds {before : List Event}
      (h : before ++ [⟨⟨p.inside (.round k), i⟩, .begins, s⟩] <+:
        (rounds p itemName (Act.indexNameOf itemName indexName) anchor
          (fun k => sequence engine.perform (p.inside (.round k)) 0 body) 0 anchor values
          s₁).events) : ∃ v, values[k]? = some v ∧ SetIn root p k before s name (w k v) := by
    simpa using setIn_rounds hroute hwrites (hset anchor) values 0 anchor s₁ before h
  have hends (last : Option Cursor) : All (fun e => e.spot = p) (do
      own p (Act.dropNames itemName (Act.indexNameOf itemName indexName))
      own p (Act.moveBack last)) :=
    .bind (.own fun _ _ => rfl) fun _ => .own fun _ _ => rfl
  split at h
  · rw [events_rescue_quiet] at h
    rcases concat_prefix_append h with h | ⟨inner, rfl, hinner⟩
    · obtain ⟨v, hv, hset⟩ := hrounds h
      exact ⟨values, v, rfl, hv, hset⟩
    · exact absurd hinner (hnot (hends _ _))
  · rw [events_rescue_quiet] at h
    obtain ⟨v, hv, hset⟩ := hrounds h
    exact ⟨values, v, rfl, hv, hset⟩

end Watched

/-- A round that has begun has set both variables of its loop. -/
theorem get?_enterRound {item index : String} (hne : item ≠ index) {anchor : Option Cursor}
    {k : Nat} {v : Value} {s s' : Scene}
    (h : (Act.enterRound (.str item) (.str index) anchor k v).run s = (.ok (), s')) :
    s'.context.vars.get? (.str item) = some v ∧
      s'.context.vars.get? (.str index) = some (.int k) := by
  rw [Act.enterRound] at h
  obtain ⟨_, s₁, h₁, h⟩ := Act.of_run_bind_ok h
  obtain ⟨_, s₂, h₂, h⟩ := Act.of_run_bind_ok h
  rw [Act.run_setNamed] at h₁ h₂
  have hvars : s₂.context.vars = (s.context.vars.set item v).set index (.int k) := by
    cases h₁
    cases h₂
    rfl
  have hmoved {name : String} {w : Option Value} (hs : Holding name w s₂) : Holding name w s' := by
    have hkept := Act.keeps_holding_moveBack anchor s₂ hs
    rwa [h] at hkept
  constructor
  · exact hmoved (by simp [Holding, hvars, Record.get?_set_str, hne.symm])
  · exact hmoved (by simp [Holding, hvars, Record.get?_set_str])

/-- What the body of a loop finds in the two variables of the loop, if none of its steps writes them.
Before each of its actions a variable is what the last loop that takes it, or the last handler that is
told in its name, has made of the value that the round has set, the item or its position. A variable
that is not called `error` has that value exactly as long as no loop in the same round has taken the
variable; then it is gone. -/
theorem loop_variables_iff (engine : Runner) (config : Config) (kind : String) (scene : Scene)
    {p : Spot} {reference item index : String} {indexName : Option Value}
    {body onError : List Action} {line : Option Nat}
    (ha : actionAt? (actionsOf config kind) p =
      some (.loop reference (.str item) indexName body onError line))
    (hindex : Act.indexNameOf (.str item) indexName = .str index) (hne : item ≠ index)
    (hbody : ∀ a ∈ Action.flattenAll body, item ∉ a.writes ∧ index ∉ a.writes) {k i : Nat}
    {before : List Event} {s : Scene}
    (h : before ++ [⟨⟨p.inside (.round k), i⟩, .begins, s⟩] <+:
      (trailOf engine.perform config kind scene).events) :
    let taken := TakenIn (actionsOf config kind) p k
    let changes := Changes (actionsOf config kind) (p.inside (.round k))
    ∃ s₀ values v, ⟨p, .begins, s₀⟩ ∈ before ∧ ((Act.items reference).run s₀).1 = .ok values ∧
      values[k]? = some v ∧ ∀ name w, (name, w) ∈ [(item, v), (index, .int k)] →
        let found := s.context.vars.get? (.str name)
        Latest (changes name) (some w) before found ∧
          (name ≠ "error" → (found = some w ↔ ¬ taken name before) ∧
            (taken name before → found = none)) := by
  intro taken changes
  have habove : p.Above (.round k) ⟨p.inside (.round k), i⟩ := List.prefix_refl _
  -- the run of the loop that the action lies in, and what its body did before the action
  obtain ⟨s₀, pre, part, rfl, hpart, hpre⟩ := Watched.within_sequence ha _ [] 0 List.drop_zero
    (Nat.zero_le _) _ before _ h (.inr ⟨_, habove⟩)
  rw [Watched.action_eq] at hpart
  obtain ⟨inner, rfl, hinner⟩ :=
    (Watched.sound_action engine.perform _ p ha).before_inner (by simp) habove hpart
  have houtside : ∀ e ∈ pre ++ [⟨p, .begins, s₀⟩], ¬ p.Above (.round k) e.spot := by
    intro e he hround
    rcases List.mem_append.1 he with he | he
    · exact hpre e he (.inr ⟨_, hround⟩)
    · rw [List.mem_singleton.1 he] at hround
      exact absurd hround.depth_lt (Nat.lt_irrefl _)
  have hroute (k : Nat) : sequenceAt (actionsOf config kind) (p.inside (.round k)) = body :=
    sequenceAt_inside ha (.round k)
  have hround (anchor : Option Cursor) (k : Nat) (v : Value) (s s' : Scene)
      (h : (Act.enterRound (.str item) (Act.indexNameOf (.str item) indexName) anchor k v).run s =
        (.ok (), s')) := get?_enterRound hne (hindex ▸ h)
  obtain ⟨values, v, hvalues, hv, hitem⟩ := Watched.setIn_loop hroute (fun b hb => (hbody b hb).1)
    (fun _ _ _ _ _ h => (hround _ _ _ _ _ h).1) hinner
  obtain ⟨-, -, -, -, hposition⟩ := Watched.setIn_loop hroute (fun b hb => (hbody b hb).2)
    (w := fun k _ => .int k) (fun _ _ _ _ _ h => (hround _ _ _ _ _ h).2) hinner
  have hitem := hitem.append_left houtside
  have hposition := hposition.append_left houtside
  rw [List.append_assoc, List.singleton_append] at hitem hposition
  refine ⟨s₀, values, v, by simp, hvalues, hv, fun name w hname => ?_⟩
  have hset : SetIn (actionsOf config kind) p k (pre ++ ⟨p, .begins, s₀⟩ :: inner) s name w := by
    simp only [List.mem_cons, List.not_mem_nil, or_false, Prod.mk.injEq] at hname
    rcases hname with ⟨rfl, rfl⟩ | ⟨rfl, rfl⟩
    · exact hitem
    · exact hposition
  exact ⟨hset, fun herror => ⟨hset.eq_some_iff herror, hset.gone herror⟩⟩

/-- Where actions begin in a trail, and what is seen of the scene there. -/
def beginnings {α : Type} (look : Scene → α) (events : List Event) : List (Spot × α) :=
  events.filterMap fun e => match e.what with
    | .begins => some (e.spot, look e.scene)
    | _ => none

theorem exists_of_mem_beginnings {α : Type} {look : Scene → α} {events : List Event} {p : Spot} {a : α}
    (h : (p, a) ∈ beginnings look events) :
    ∃ before s, before ++ [⟨p, .begins, s⟩] <+: events ∧ look s = a := by
  obtain ⟨⟨q, what, s⟩, he, hbegins⟩ := List.mem_filterMap.1 h
  obtain ⟨before, after, rfl⟩ := List.append_of_mem he
  cases what with
  | begins =>
    cases hbegins
    exact ⟨before, s, ⟨after, by simp⟩, rfl⟩
  | _ => cases hbegins

/-- Which kinds of values some variables have. -/
def kindsOf (names : List String) (s : Scene) : List (Option String) :=
  names.map fun name => (s.context.vars.get? (.str name)).map Value.typeName

/-- Two lists of texts. -/
def pairingScene : Scene where
  world := bareScene.world
  context := { vars := [("xs", .list [.str "a", .str "b"]), ("ys", .list [.str "c"])] }

/-- A script that goes over a list by the name of `error`. In each round it goes over another list,
and fails to append a line where there is no buffer. -/
def noting : Config where
  triggers := [⟨.onTrigger, [.loop "xs" (.str "error") none
    [.loop "ys" (.str "y") none [.step (.log "\x7b\x7berror\x7d\x7d" .info) [] none] [] none,
      .step (.append "x" 1) [.step (.log "failed" .info) [] none] none,
      .step (.log "\x7b\x7berror\x7d\x7d" .info) [] none] [] none]⟩]
  tag := "notes"
  settings := []

/-- Behind the handler of the second round the item is a description of the failure, and its position
is still there. -/
theorem loop_variables_iff_noting :
    let root := actionsOf noting "onTrigger"
    ∃ before s v, before ++ [⟨⟨[(0, .round 1)], 2⟩, .begins, s⟩] <+:
        (trailOf bareRunner.perform noting "onTrigger" pairingScene).events ∧
      Latest (Changes root [(0, .round 1)] "error") (some v) before
        (s.context.vars.get? (.str "error")) ∧
      kindsOf ["error", "error_index"] s = [some "dict", some "int"] ∧
      s.context.vars.get? (.str "error_index") = some (.int 1) ∧
      ¬ TakenIn root ⟨[], 0⟩ 1 "error_index" before := by
  have hmem : (⟨[(0, .round 1)], 2⟩, [some "dict", some "int"]) ∈
      beginnings (kindsOf ["error", "error_index"])
        (trailOf bareRunner.perform noting "onTrigger" pairingScene).events := by
    decide +kernel
  obtain ⟨before, s, h, hkinds⟩ := exists_of_mem_beginnings hmem
  have hindex : Act.indexNameOf (.str "error") none = .str "error_index" := rfl
  obtain ⟨_, _, v, _, _, _, hfound⟩ := loop_variables_iff bareRunner noting "onTrigger" pairingScene
    (p := ⟨[], 0⟩) rfl hindex (by decide) (by decide) h
  obtain ⟨hiff, hgone⟩ := (hfound "error_index" (.int 1) (by simp)).2 (by decide)
  have hthere : ¬ TakenIn (actionsOf noting "onTrigger") ⟨[], 0⟩ 1 "error_index" before := by
    intro htaken
    simp [kindsOf, hgone htaken] at hkinds
  exact ⟨before, s, v, h, (hfound "error" v (by simp)).1, hkinds, hiff.2 hthere, hthere⟩

/-- A script that goes over two lists by the same name, one inside the other. -/
def pairing : Config where
  triggers := [⟨.onTrigger, [.loop "xs" (.str "item") none
    [.loop "ys" (.str "item") none [.step (.log "\x7b\x7bitem\x7d\x7d" .info) [] none] [] none,
      .step (.log "\x7b\x7bitem\x7d\x7d" .info) [] none] [] none]⟩]
  tag := "pairs"
  settings := []

/-- A loop in the body that uses the same names takes both variables away before the next action,
though no action of the body writes them. -/
theorem loop_variables_gone_pairing :
    ∃ body, actionAt? (actionsOf pairing "onTrigger") ⟨[], 0⟩ =
        some (.loop "xs" (.str "item") none body [] none) ∧
      (∀ a ∈ Action.flattenAll body, "item" ∉ a.writes ∧ "item_index" ∉ a.writes) ∧
      ∃ before s, before ++ [⟨⟨[(0, .round 0)], 1⟩, .begins, s⟩] <+:
          (trailOf bareRunner.perform pairing "onTrigger" pairingScene).events ∧
        s.context.vars.get? (.str "item") = none ∧
        s.context.vars.get? (.str "item_index") = none := by
  have hmem : (⟨[(0, .round 0)], 1⟩, [none, none]) ∈ beginnings (kindsOf ["item", "item_index"])
      (trailOf bareRunner.perform pairing "onTrigger" pairingScene).events := by
    decide +kernel
  obtain ⟨before, s, h, hgone⟩ := exists_of_mem_beginnings hmem
  refine ⟨_, rfl, by decide, before, s, h, ?_⟩
  simpa [kindsOf] using hgone

end BulletScript.Engine
