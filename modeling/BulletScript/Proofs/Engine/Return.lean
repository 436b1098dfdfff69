import BulletScript.Proofs.Engine.Trail
import BulletScript.Proofs.Engine.Moves
import BulletScript.Proofs.Engine.Routing

/-! Early returns. Once a step has made the run return, the actions around it end and nothing else
happens: no step is begun, no handler starts, and of the scene only the variables of the loops around
it go. -/
namespace BulletScript.Engine

open Script

/-- The variables that a turn of an action adds. -/
def Turn.variables : Turn → Action → List String
  | .round _, .loop _ itemName indexName _ _ _ =>
    match Act.loopNames itemName (Act.indexNameOf itemName indexName) with
    | .ok (itemName, indexName) => [itemName, indexName]
    | .error _ => []
  | _, _ => []

/-- The variables of the loops on a route. -/
def loopVariables (root : List Action) : Route → List String
  | [] => []
  | (i, turn) :: rest =>
    ((root[i]?.map turn.variables).getD []) ++
      loopVariables ((root[i]?.map turn.sequence).getD []) rest

def dropVariables (names : List String) (vars : Record) : Record :=
  vars.filter fun entry => !names.any fun name => entry.1.same (.str name)

theorem dropVariables_nil (vars : Record) : dropVariables [] vars = vars := by
  simp [dropVariables]

theorem dropVariables_append (names more : List String) (vars : Record) :
    dropVariables names (dropVariables more vars) = dropVariables (names ++ more) vars := by
  simp [dropVariables, List.filter_filter]

theorem dropVariables_pair (a b : String) (vars : Record) :
    (vars.erase a).erase b = dropVariables [a, b] vars := by
  simp [dropVariables, Record.erase, List.filter_filter, Bool.and_comm]

/-- The second scene is what is left of the first once some variables are gone. The cursor of the
buffer may have been moved. -/
structure Left (names : List String) (s s' : Scene) : Prop where
  world : s'.world = s.world
  item : s'.item = s.item
  buffer : s'.buffer.map Buffer.unplaced = s.buffer.map Buffer.unplaced
  context : s'.context = { s.context with vars := dropVariables names s.context.vars }

namespace Left

variable {names more : List String} {s s' s'' : Scene}

theorem refl (s : Scene) : Left [] s s := ⟨rfl, rfl, rfl, by rw [dropVariables_nil]⟩

theorem trans (h : Left names s s') (h' : Left more s' s'') : Left (more ++ names) s s'' where
  world := h'.world.trans h.world
  item := h'.item.trans h.item
  buffer := h'.buffer.trans h.buffer
  context := by rw [h'.context, h.context, dropVariables_append]

theorem shouldReturn (h : Left names s s') : s'.context.shouldReturn = s.context.shouldReturn := by
  rw [h.context]

theorem cursor (h : Left names s s') : s'.context.cursor = s.context.cursor := by
  rw [h.context]

end Left

/-- How a part of a run goes on after the action at `p` has left the scene `s`: only the actions
around it end. -/
structure Halted {α : Type} (names : List String) (p : Spot) (s : Scene) (post : List Event)
    (t : Trail α) : Prop where
  finished : ∃ a, t.result = .ok a
  ends : ∀ e ∈ post, e.what = .ends ∧ e.spot.Covers p
  left : Left names s t.scene

/-- A part of a run that halts once a step in it has made the run return. -/
def Halts {α : Type} (root : List Action) (base : Route) (within : Spot → Prop) (t : Trail α) :
    Prop :=
  ∀ p s₀ s post, ⟨p, .does s₀, s⟩ :: post <:+ t.events → s.context.shouldReturn = true →
    within p ∧ ∃ rel, p.route = base ++ rel ∧
      Halted (loopVariables (sequenceAt root base) rel) p s post t

theorem loopVariables_inside {root : List Action} {p : Spot} {a : Action}
    (h : actionAt? root p = some a) (turn : Turn) (rel : Route) :
    loopVariables (sequenceAt root p.route) ((p.index, turn) :: rel) =
      turn.variables a ++ loopVariables (sequenceAt root (p.inside turn)) rel := by
  have hi : (sequenceAt root p.route)[p.index]? = some a := h
  rw [sequenceAt_inside h, loopVariables, hi]
  rfl

section Attempt

open Watched (attempt attempted noted step own rounds loop)

variable {α : Type} {root : List Action} {p₀ : Spot} {a : Action} {t : Trail Unit}

/-- The way into a sequence of an action that adds no variables. -/
theorem Halts.inside {turn : Turn} (h : Halts root (p₀.inside turn) (fun _ => True) t)
    (ha : actionAt? root p₀ = some a) (hturn : turn.variables a = []) :
    Halts root p₀.route p₀.Covers t := by
  intro p s₀ s post hp hs
  obtain ⟨_, rel, hrel, hhalted⟩ := h p s₀ s post hp hs
  refine ⟨.inr ⟨turn, ⟨rel, hrel.symm⟩⟩, (p₀.index, turn) :: rel, ?_, ?_⟩
  · rw [hrel, Spot.inside, List.append_assoc, List.singleton_append]
  · rwa [loopVariables_inside ha, hturn, List.nil_append]

/-- The end of the action around a part that halts. -/
theorem Halted.close {names : List String} {p : Spot} {s s' : Scene} {post : List Event}
    (h : Halted names p s post t) (hp : p₀.Covers p) (events : List Event) :
    Halted names p s (post ++ [⟨p₀, .ends, s'⟩]) ⟨events, .ok (), t.scene⟩ where
  finished := ⟨(), rfl⟩
  ends := by
    intro e he
    rcases List.mem_append.1 he with he | he
    · exact h.ends e he
    · rw [List.mem_singleton.1 he]
      exact ⟨rfl, hp⟩
  left := h.left

theorem not_does_of_singleton {p q : Spot} {s₀ s s' : Scene} {what : Happening} {post : List Event}
    (hwhat : ∀ s, what ≠ .does s) : ¬ ⟨p, .does s₀, s⟩ :: post <:+ [⟨q, what, s'⟩] := by
  intro h
  have := h.subset (List.mem_cons_self ..)
  simp only [List.mem_singleton, Event.mk.injEq] at this
  exact hwhat s₀ this.2.1.symm

theorem halts_step (m : Act Unit) (s : Scene) : Halts root p₀.route p₀.Covers (step p₀ m s) := by
  intro p s₀ s' post hp _
  rcases hm : m.run s with ⟨f | ⟨⟩, s₁⟩
  · simp [step, hm, List.suffix_cons_iff] at hp
  · simp only [step, hm, List.suffix_cons_iff, List.cons.injEq, Event.mk.injEq, List.suffix_nil,
      Happening.does.injEq, reduceCtorEq, or_false] at hp ⊢
    obtain ⟨⟨rfl, rfl, rfl⟩, rfl⟩ := hp
    exact ⟨.refl _, [], by simp, ⟨(), rfl⟩, by simp, .refl _⟩

theorem halts_attempt (ha : actionAt? root p₀ = some a) {handler body : Watched Unit}
    (hbody : ∀ s, Halts root p₀.route p₀.Covers (body s))
    (hhandler : ∀ s, Halts root (p₀.inside .handler) (fun _ => True) (handler s)) (s : Scene) :
    Halts root p₀.route p₀.Covers (attempt p₀ a.onError handler body s) := by
  have hclose (w : Watched Unit) (hw : ∀ s, Halts root p₀.route p₀.Covers (w s)) (s s' : Scene)
      (events : List Event) {p : Spot} {s₀ s₁ : Scene} {post : List Event}
      (hp : ⟨p, .does s₀, s₁⟩ :: post <:+ (w s).events ++ [⟨p₀, .ends, s'⟩])
      (hs : s₁.context.shouldReturn = true) :
      p₀.Covers p ∧ ∃ rel, p.route = p₀.route ++ rel ∧
        Halted (loopVariables (sequenceAt root p₀.route) rel) p s₁ post
          (⟨events, .ok (), (w s).scene⟩ : Trail Unit) := by
    rcases cons_suffix_append.1 hp with ⟨inner, hin, rfl⟩ | hin
    · obtain ⟨hcovers, rel, hrel, hhalted⟩ := hw s p s₀ s₁ inner hin hs
      exact ⟨hcovers, rel, hrel, hhalted.close hcovers events⟩
    · exact absurd hin (not_does_of_singleton (by simp))
  have hlost {f : Failure} {s₀ s₁ : Scene} {p : Spot} {post : List Event}
      (hf : (body s).result = .error f) (hp : ⟨p, .does s₀, s₁⟩ :: post <:+ (body s).events)
      (hs : s₁.context.shouldReturn = true) : False := by
    obtain ⟨_, _, _, ⟨_, hok⟩, _⟩ := hbody s p s₀ s₁ post hp hs
    rw [hf] at hok
    cases hok
  have hrun := attempted p₀ a.onError handler body s
  generalize attempt p₀ a.onError handler body s = t at hrun ⊢
  intro p s₀ s₁ post hp hs
  cases hrun with
  | succeeded hok =>
    rcases cons_suffix_append.1 hp with ⟨_, hin, _⟩ | hin
    · exact absurd hin (not_does_of_singleton (by simp))
    · exact hclose body hbody s _ _ hin hs
  | failed hf hnone =>
    rcases cons_suffix_append.1 hp with ⟨_, hin, _⟩ | hin
    · exact absurd hin (not_does_of_singleton (by simp))
    · exact (hlost hf hin hs).elim
  | rescued hf hsome hok =>
    rcases cons_suffix_append.1 hp with ⟨_, hin, _⟩ | hp
    · exact absurd hin (not_does_of_singleton (by simp))
    rcases cons_suffix_append.1 hp with ⟨_, hin, _⟩ | hp
    · exact (hlost hf hin hs).elim
    rcases List.suffix_cons_iff.1 hp with heq | hp
    · cases heq
    · exact hclose handler (fun s => (hhandler s).inside ha rfl) _ _ _ hp hs
  | lost hf hsome hg =>
    rcases cons_suffix_append.1 hp with ⟨_, hin, _⟩ | hp
    · exact absurd hin (not_does_of_singleton (by simp))
    rcases cons_suffix_append.1 hp with ⟨_, hin, _⟩ | hp
    · exact (hlost hf hin hs).elim
    rcases List.suffix_cons_iff.1 hp with heq | hp
    · cases heq
    · obtain ⟨_, _, _, ⟨_, hok⟩, _⟩ := hhandler _ p s₀ s₁ post hp hs
      rw [hg] at hok
      cases hok

/-- A loop breaks off in the round of a step that makes the run return. -/
theorem halts_rounds {itemName n : Value} {anchor : Option Cursor}
    {body : Nat → Watched Unit}
    (hbody : ∀ k s, Halts root (p₀.inside (.round k)) (fun _ => True) (body k s))
    (hkeeps : ∀ k s, Act.OnEdit Sturdy s → Act.OnEdit Sturdy (body k s).scene)
    (values : List Value) (k : Nat) (last : Option Cursor) (s : Scene)
    (hs : anchor = none → Act.OnEdit Sturdy s) {p : Spot} {s₀ s₁ : Scene} {post : List Event}
    (hp : ⟨p, .does s₀, s₁⟩ :: post <:+
      (rounds p₀ itemName n anchor body k last values s).events)
    (hreturn : s₁.context.shouldReturn = true) :
    ∃ j rel, p.route = p₀.inside (.round j) ++ rel ∧
      Halted (loopVariables (sequenceAt root (p₀.inside (.round j))) rel) p s₁ post
        (rounds p₀ itemName n anchor body k last values s) ∧
      (rounds p₀ itemName n anchor body k last values s).result =
        .ok s₁.context.cursor ∧
      Act.OnEdit Sturdy (rounds p₀ itemName n anchor body k last values s).scene ∧
      ∃ names, Act.loopNames itemName n = .ok names := by
  induction values generalizing k last s with
  | nil => simp [rounds, pure] at hp
  | cons item rest ih =>
    rcases henter : (Act.enterRound itemName n anchor k item).run s with ⟨f | ⟨⟩, s'⟩
    · rw [rounds, Watched.own_bind_error henter] at hp
      exact absurd hp (not_does_of_singleton (by simp))
    have hsturdy : Act.OnEdit Sturdy (body k s').scene :=
      hkeeps k s' (Act.sturdy_of_enterRound henter hs)
    have hnames : ∃ names, Act.loopNames itemName n = .ok names := by
      cases hn : Act.loopNames itemName n with
      | ok names => exact ⟨names, rfl⟩
      | error f =>
        have := Act.enterRound_error hn anchor k item s
        rw [henter] at this
        cases this
    rw [rounds, Watched.own_bind_ok henter, Watched.bind_apply, Watched.goOn] at hp ⊢
    cases hr : (body k s').result with
    | error f =>
      rw [hr] at hp
      obtain ⟨_, _, _, ⟨_, hok⟩, _⟩ := hbody k s' p s₀ s₁ post hp hreturn
      rw [hr] at hok
      cases hok
    | ok =>
      rw [hr] at hp
      simp only [Watched.quiet_bind_ok (Act.run_context _)] at hp ⊢
      rcases cons_suffix_append.1 hp with ⟨inner, hin, rfl⟩ | hin
      · obtain ⟨_, rel, hrel, hhalted⟩ := hbody k s' p s₀ s₁ inner hin hreturn
        rw [if_pos (hhalted.left.shouldReturn.trans hreturn)]
        refine ⟨k, rel, hrel, ⟨⟨_, rfl⟩, ?_, hhalted.left⟩, ?_, hsturdy, hnames⟩
        · simpa [pure] using hhalted.ends
        · rw [← hhalted.left.cursor]
          rfl
      · split at hin
        · simp [pure] at hin
        · rename_i hgo
          rw [if_neg hgo]
          obtain ⟨j, rel, hrel, hhalted, hrest⟩ := ih (k + 1) _ _ (fun _ => hsturdy) hin
          exact ⟨j, rel, hrel, ⟨hhalted.finished, hhalted.ends, hhalted.left⟩, hrest⟩

theorem left_dropNames {itemName indexName : Value} {a b : String}
    (h : Act.loopNames itemName indexName = .ok (a, b)) (s : Scene) :
    ∃ s', (Act.dropNames itemName indexName).run s = (.ok (), s') ∧ Left [a, b] s s' ∧
      s'.buffer = s.buffer :=
  ⟨_, Act.dropNames_ok h s, ⟨rfl, rfl, rfl, by rw [dropVariables_pair]⟩, rfl⟩

theorem left_moveBack {s : Scene} (h : Act.OnEdit Sturdy s) :
    ∃ s', (Act.moveBack s.context.cursor).run s = (.ok (), s') ∧ Left [] s s' := by
  cases hc : s.context.cursor with
  | none => exact ⟨s, rfl, .refl s⟩
  | some position =>
    obtain ⟨b, hrun, hsame⟩ := Act.run_moveCursor h position
    refine ⟨_, hrun, rfl, rfl, hsame, ?_⟩
    rw [dropVariables_nil, ← hc]

/-- The end of a loop whose run returns. -/
theorem finish_loop {itemName indexName : Value} {a b : String} {s : Scene}
    (h : Act.loopNames itemName indexName = .ok (a, b)) (hs : Act.OnEdit Sturdy s) :
    ∃ s', (do own p₀ (Act.dropNames itemName indexName); own p₀ (Act.moveBack s.context.cursor) :
      Watched Unit) s = ⟨[], .ok (), s'⟩ ∧ Left [a, b] s s' := by
  obtain ⟨s₁, hdrop, hleft, hbuffer⟩ := left_dropNames h s
  have hs₁ : Act.OnEdit Sturdy s₁ := by
    intro b' hb'
    exact hs b' (hbuffer.symm.trans hb')
  obtain ⟨s₂, hmove, hleft'⟩ := left_moveBack hs₁
  rw [hleft.cursor] at hmove
  refine ⟨s₂, ?_, by simpa using hleft.trans hleft'⟩
  rw [Watched.own_bind_ok hdrop]
  simp [own, hmove]

theorem not_does_of_own_bind {m : Act α} {k : α → Act Unit} {s s₀ s₁ : Scene} {p : Spot}
    {post : List Event} :
    ¬ ⟨p, .does s₀, s₁⟩ :: post <:+ ((own p₀ m >>= fun a => own p₀ (k a)) s).events := by
  rcases hm : m.run s with ⟨f | a, s'⟩
  · rw [Watched.own_bind_error hm]
    exact not_does_of_singleton (by simp)
  · rw [Watched.own_bind_ok hm]
    rcases hk : (k a).run s' with ⟨f | ⟨⟩, s''⟩
    · simpa [own, hk] using not_does_of_singleton (by simp)
    · simp [own, hk]

theorem halts_loop {reference : String} {itemName : Value} {indexName : Option Value}
    {items onError : List Action} {line : Option Nat} {body : Nat → Watched Unit}
    (ha : actionAt? root p₀ = some (.loop reference itemName indexName items onError line))
    (hbody : ∀ k s, Halts root (p₀.inside (.round k)) (fun _ => True) (body k s))
    (hkeeps : ∀ k s, Act.OnEdit Sturdy s → Act.OnEdit Sturdy (body k s).scene) (s : Scene) :
    Halts root p₀.route p₀.Covers (loop p₀ reference itemName indexName body s) := by
  intro p s₀ s₁ post hp hreturn
  rw [loop] at hp ⊢
  rcases hitems : (Act.items reference).run s with ⟨f | values, s'⟩
  · rw [Watched.own_bind_error hitems] at hp
    exact absurd hp (not_does_of_singleton (by simp))
  have hanchor : Act.anchorCursor.run s' =
    (.ok (s'.context.cursor.or (s'.buffer.map (·.cursor))), s') := rfl
  simp only [Watched.own_bind_ok hitems, Watched.quiet_bind_ok hanchor, Watched.bind_apply _ _ s',
    Watched.goOn] at hp ⊢
  generalize hanchorEq : s'.context.cursor.or (s'.buffer.map (·.cursor)) = anchor at hp ⊢
  have hs : anchor = none → Act.OnEdit Sturdy s' := by
    rintro rfl b hb
    simp [hb] at hanchorEq
  have hrounds {post : List Event} := @halts_rounds root p₀ itemName
    (Act.indexNameOf itemName indexName) anchor body hbody hkeeps values 0 anchor s' hs p s₀ s₁ post
  have herror {f : Failure} := @Watched.rounds_error p₀ itemName (Act.indexNameOf itemName indexName)
    anchor anchor body values 0 s' f
  generalize rounds p₀ itemName (Act.indexNameOf itemName indexName) anchor body 0 anchor values =
    w at hp hrounds herror ⊢
  cases ht : (w s').result with
  | error f =>
    rw [Watched.rescue_of_error ht] at hp
    simp only [Watched.quiet, herror ht, List.append_nil] at hp
    obtain ⟨_, _, _, _, hok, _⟩ := hrounds hp hreturn
    rw [ht] at hok
    cases hok
  | ok last =>
    rw [Watched.rescue_of_ok ht, ht] at hp ⊢
    simp only at hp ⊢
    rcases cons_suffix_append.1 hp with ⟨inner, hin, rfl⟩ | hin
    · obtain ⟨j, rel, hrel, hhalted, hlast, hsturdy, ⟨a, b⟩, hnames⟩ := hrounds hin hreturn
      rw [ht] at hlast
      cases hlast
      obtain ⟨s₂, hfinish, hleft⟩ := finish_loop hnames hsturdy
      rw [hhalted.left.cursor] at hfinish
      rw [hfinish, List.append_nil]
      refine ⟨.inr ⟨_, ⟨rel, hrel.symm⟩⟩, (p₀.index, .round j) :: rel, ?_, ⟨_, rfl⟩, hhalted.ends, ?_⟩
      · rw [hrel, Spot.inside, List.append_assoc, List.singleton_append]
      · rw [loopVariables_inside ha]
        have hvars : Turn.variables (.round j)
            (.loop reference itemName indexName items onError line) = [a, b] := by
          simp only [Turn.variables, hnames]
        rw [hvars]
        exact hhalted.left.trans hleft
    · exact absurd hin not_does_of_own_bind

end Attempt

section Runs

open Watched (action sequence attempt)

variable {root : List Action} {perform : Step → Act Unit}

theorem sequence_of_shouldReturn (route : Route) (i : Nat) (as : List Action) {s : Scene}
    (hs : s.context.shouldReturn = true) : sequence perform route i as s = ⟨[], .ok (), s⟩ := by
  cases as with
  | nil => exact Watched.sequence_nil perform route i s
  | cons first rest => rw [Watched.sequence_cons, if_pos hs]

theorem halts_cons {route : Route} {i : Nat} {first : Action} {rest : List Action}
    (hfirst : ∀ s, Halts root route (Spot.mk route i).Covers (action perform ⟨route, i⟩ first s))
    (hrest : ∀ s, Halts root route (fun _ => True) (sequence perform route (i + 1) rest s))
    (s : Scene) : Halts root route (fun _ => True) (sequence perform route i (first :: rest) s) := by
  intro p s₀ s₁ post hp hreturn
  refine ⟨trivial, ?_⟩
  rw [Watched.sequence_cons] at hp ⊢
  split at hp
  · simp at hp
  rename_i hgo
  rw [if_neg hgo, Watched.goOn]
  rw [Watched.goOn] at hp
  cases hr : (action perform ⟨route, i⟩ first s).result with
  | error f =>
    rw [hr] at hp
    obtain ⟨_, _, _, ⟨_, hok⟩, _⟩ := hfirst s p s₀ s₁ post hp hreturn
    rw [hr] at hok
    cases hok
  | ok =>
    rw [hr] at hp
    rcases cons_suffix_append.1 hp with ⟨inner, hin, rfl⟩ | hin
    · obtain ⟨_, rel, hrel, hhalted⟩ := hfirst s p s₀ s₁ inner hin hreturn
      have hflag := hhalted.left.shouldReturn.trans hreturn
      refine ⟨rel, hrel, ⟨(), ?_⟩, ?_, ?_⟩
      · simp only [sequence_of_shouldReturn route (i + 1) rest hflag]
      · simpa only [sequence_of_shouldReturn route (i + 1) rest hflag, List.append_nil]
          using hhalted.ends
      · simpa only [sequence_of_shouldReturn route (i + 1) rest hflag] using hhalted.left
    · obtain ⟨_, rel, hrel, hhalted⟩ := hrest _ p s₀ s₁ post hin hreturn
      exact ⟨rel, hrel, hhalted.finished, hhalted.ends, hhalted.left⟩

mutual

theorem halts_action (hkeeps : ∀ as, Act.Keeps (Act.OnEdit Sturdy) (Act.sequence perform as)) :
    ∀ (a : Action) (p : Spot), actionAt? root p = some a →
      ∀ s, Halts root p.route p.Covers (action perform p a s)
  | .step leaf onError line, p, ha => by
    rw [action]
    exact halts_attempt (a := .step leaf onError line) ha (halts_step (perform leaf))
      (halts_sequence hkeeps onError (p.inside .handler) 0 (sequenceAt_inside ha _))
  | .branch condition yes no onError line, p, ha => by
    rw [action]
    refine halts_attempt (a := .branch condition yes no onError line) ha (fun s => ?_)
      (halts_sequence hkeeps onError (p.inside .handler) 0 (sequenceAt_inside ha _))
    have hyes := halts_sequence hkeeps yes (p.inside .yes) 0 (sequenceAt_inside ha _)
    have hno := halts_sequence hkeeps no (p.inside .no) 0 (sequenceAt_inside ha _)
    rcases hrun : (Act.holds condition).run s with ⟨f | b, s'⟩
    · rw [Watched.own_bind_error hrun]
      exact fun _ _ _ _ hp => absurd hp (not_does_of_singleton (by simp))
    · rw [Watched.own_bind_ok hrun]
      cases b
      · exact (hno s').inside ha rfl
      · exact (hyes s').inside ha rfl
  | .loop reference itemName indexName body onError line, p, ha => by
    rw [action]
    refine halts_attempt (a := .loop reference itemName indexName body onError line) ha
      (halts_loop ha (fun k => ?_) fun k s hs => ?_)
      (halts_sequence hkeeps onError (p.inside .handler) 0 (sequenceAt_inside ha _))
    · exact halts_sequence hkeeps body (p.inside (.round k)) 0 (sequenceAt_inside ha _)
    · have := hkeeps body s hs
      rwa [← Watched.plain_sequence perform (p.inside (.round k)) 0 body] at this

/-- Every sequence halts once a step in it has made the run return. -/
theorem halts_sequence (hkeeps : ∀ as, Act.Keeps (Act.OnEdit Sturdy) (Act.sequence perform as)) :
    ∀ (as : List Action) (route : Route) (i : Nat), (sequenceAt root route).drop i = as →
      ∀ s, Halts root route (fun _ => True) (sequence perform route i as s)
  | [], route, i, _, s => by
    intro p s₀ s₁ post hp
    rw [Watched.sequence_nil] at hp
    simp at hp
  | first :: rest, route, i, h, s => by
    obtain ⟨hi, hrest⟩ := actionAt?_of_drop h
    exact halts_cons (halts_action hkeeps first ⟨route, i⟩ hi)
      (halts_sequence hkeeps rest route (i + 1) hrest) s

end

end Runs

/-- What a return gives in a context. -/
def returned (value : Option String) (c : Context) : Result Value :=
  match value.filter (· ≠ "") with
  | some template => do return parseLiteral (← Template.interpolate template c.vars)
  | none => return c.returnValue

theorem run_returnValue_ok {value : Option String} {s s' : Scene}
    (h : (Act.returnValue value).run s = (.ok (), s')) :
    ∃ v, returned value s.context = .ok v ∧ s' = { s with
      context := { s.context with returnValue := v, shouldReturn := true } } := by
  rw [Act.returnValue] at h
  unfold returned
  cases hv : value.filter (· ≠ "") with
  | none =>
    rw [hv] at h
    cases h
    exact ⟨_, rfl, rfl⟩
  | some template =>
    rw [hv] at h
    simp only [Act.render, Act.run_bind, Act.run_context, Act.run_ofResult,
      Act.run_modifyContext] at h
    cases htext : Template.interpolate template s.context.vars with
    | error f =>
      rw [htext] at h
      cases h
    | ok text =>
      rw [htext] at h
      cases h
      exact ⟨parseLiteral text, by simp [htext, bind, Except.bind, pure, Except.pure], rfl⟩

theorem genuine_trailOf (perform : Step → Act Unit) (config : Config) (kind : String)
    (scene : Scene) :
    ∀ e ∈ (trailOf perform config kind scene).events,
      Genuine (actionsOf config kind) perform e :=
  Watched.genuine_sequence (actionsOf config kind) [] 0 rfl (scene.enter config kind)

/-- After a return nothing happens but the end of the actions around it, and of the scene only the
variables of the loops around it go. The outcome carries the value of the return. -/
theorem return_halts (engine : Runner) (config : Config) (kind : String) (scene : Scene) {p : Spot}
    {value : Option String} {onError : List Action} {line : Option Nat} {s₀ s : Scene}
    {post : List Event}
    (ha : actionAt? (actionsOf config kind) p = some (.step (.return value) onError line))
    (h : ⟨p, .does s₀, s⟩ :: post <:+ (trailOf engine.perform config kind scene).events) :
    (∀ e ∈ post, e.what = .ends ∧ e.spot.Covers p) ∧
      Left (loopVariables (actionsOf config kind) p.route) s (engine.execute config kind scene).2 ∧
      (engine.execute config kind scene).1.state = .completed ∧
      ∃ v, returned value s₀.context = .ok v ∧ s = { s₀ with
          context := { s₀.context with returnValue := v, shouldReturn := true } } ∧
        (engine.execute config kind scene).1.value = v := by
  obtain ⟨leaf, _, _, ha', hrun⟩ := genuine_trailOf engine.perform config kind scene _
    (h.subset (List.mem_cons_self ..)) s₀ rfl
  obtain rfl : Step.return value = leaf := by
    have := ha.symm.trans ha'
    simp only [Option.some.injEq, Action.step.injEq] at this
    exact this.1
  have hrun' : (Act.returnValue value).run s₀ = (.ok (), s) := hrun
  obtain ⟨v, hv, hs⟩ := run_returnValue_ok hrun'
  have hreturn : s.context.shouldReturn = true := by rw [hs]
  obtain ⟨_, rel, hrel, ⟨_, hok⟩, hends, hleft⟩ := halts_sequence (Act.keeps_sturdy engine)
    (actionsOf config kind) [] 0 rfl (scene.enter config kind) p s₀ s post h hreturn
  have hactions : actionsOf config kind ≠ [] := by
    intro hnil
    simp [trailOf, hnil, Watched.sequence, pure] at h
  rw [Runner.execute, executeWith_of_ok hactions hok]
  have hvalue : (trailOf engine.perform config kind scene).scene.context.returnValue = v := by
    rw [trailOf, hleft.context, hs]
  rw [show p.route = rel from hrel]
  exact ⟨hends, hleft, rfl, v, hv, hs, hvalue⟩

/-- A script that returns in the first round of a loop. -/
def looping : Config :=
  { triggers := [⟨.onTrigger,
      [.loop "xs" (.str "x") none [.step (.return none) [] none] [] none,
        .step (.transform none .replace []) [] none]⟩]
    tag := ""
    settings := [] }

def listScene : Scene :=
  { bareScene with context := { vars := [("xs", .list [.int 1, .int 2])] } }

theorem return_halts_looping :
    ∃ s₀ s post, let p : Spot := ⟨[(0, .round 0)], 0⟩
      actionAt? (actionsOf looping "onTrigger") p = some (.step (.return none) [] none) ∧
      ⟨p, .does s₀, s⟩ :: post <:+ (trailOf bareRunner.perform looping "onTrigger" listScene).events ∧
      (∀ e ∈ post, e.what = .ends ∧ e.spot.Covers p) ∧
      Left (loopVariables (actionsOf looping "onTrigger") p.route) s
        (bareRunner.execute looping "onTrigger" listScene).2 ∧
      (bareRunner.execute looping "onTrigger" listScene).1.state = .completed ∧
      ∃ v, returned none s₀.context = .ok v ∧ s = { s₀ with
          context := { s₀.context with returnValue := v, shouldReturn := true } } ∧
        (bareRunner.execute looping "onTrigger" listScene).1.value = v := by
  have ha : actionAt? (actionsOf looping "onTrigger") ⟨[(0, .round 0)], 0⟩ =
      some (.step (.return none) [] none) := rfl
  have h : _ :: _ <:+ (trailOf bareRunner.perform looping "onTrigger" listScene).events :=
    ⟨[_, _], rfl⟩
  exact ⟨_, _, _, ha, h, return_halts _ _ _ _ ha h⟩

end BulletScript.Engine
