import BulletScript.Proofs.Engine.LoopNames
import BulletScript.Proofs.Engine.Moves
import Mathlib.Data.List.TakeDrop

/-! The rounds of a loop. There is one for each value of the list that the loop has found when it
began, in their order, whatever the body does to variables; only a round that returns or fails is the
last one before the values are used up. Whichever way the loop ends, its variables are gone. -/
namespace BulletScript.Engine

open Script

/-- A round is over, and the next one may start. -/
def Completes (t : Trail Unit) : Prop := t.result = .ok () ∧ t.scene.context.shouldReturn = false

/-- How the body of a loop finds the scene in the `k`-th round, for the value `v`. -/
structure Starts (item index : String) (k : Nat) (v : Value) (s : Scene) : Prop where
  item : s.context.vars.get? (.str item) = some v
  index : s.context.vars.get? (.str index) = some (.int k)
  proceeds : s.context.shouldReturn = false

/-- The rounds of a loop from the `k`-th one on, by the scenes in which their bodies start. There is
one for each value, in their order, up to the first that does not complete. -/
structure Rounds (item index : String) (body : Nat → Watched Unit) (k : Nat) (values : List Value)
    (starts : List Scene) : Prop where
  started : ∀ j s, starts[j]? = some s → ∃ v, values[j]? = some v ∧ Starts item index (k + j) v s
  first : values ≠ [] → starts ≠ []
  next : ∀ j s, starts[j]? = some s → j + 1 < values.length →
    (j + 1 < starts.length ↔ Completes (body (k + j) s))

/-- What happens in the bodies of some rounds. -/
def roundEvents (body : Nat → Watched Unit) (k : Nat) (starts : List Scene) : List Event :=
  (starts.zipIdx k).flatMap fun (s, j) => (body j s).events

/-- One of the rounds fails. -/
def FailsIn (body : Nat → Watched Unit) (k : Nat) (starts : List Scene) (f : Failure) : Prop :=
  ∃ j s, starts[j]? = some s ∧ (body (k + j) s).result = .error f

/-- The variables of a loop are gone. -/
structure Cleared (item index : String) (s : Scene) : Prop where
  item : s.context.vars.get? (.str item) = none
  index : s.context.vars.get? (.str index) = none

/-- The variables of a loop are gone when its handler starts. Only the description of the failure has
a name that can be one of theirs. -/
def ClearedBut (item index : String) (f : Failure) (s : Scene) : Prop :=
  ∀ name ∈ [item, index], s.context.vars.get? (.str name) =
    if name = "error" then some (.map (failureRecord f)) else none

/-- A trail with other events in front of it. -/
def Trail.behind {α : Type} (t : Trail α) (front : List Event) : Trail α :=
  ⟨front ++ t.events, t.result, t.scene⟩

/-- How a run goes on when the rounds of the loop at a spot are over: with what comes after the loop,
with the failure of a round, or with the handler of the loop. -/
inductive GoesOn (p : Spot) (item index : String) (onError : List Action)
    (handler after : Watched Unit) : Option Failure → Trail Unit → Prop
  | ends {s : Scene} (h : Cleared item index s) :
    GoesOn p item index onError handler after none ((do Watched.tell p .ends; after) s)
  | fails {s : Scene} {f : Failure} (h : Cleared item index s) (hnone : onError = []) :
    GoesOn p item index onError handler after (some f) ⟨[], .error f, s⟩
  | handles {s : Scene} {f : Failure} (h : ClearedBut item index f s) (hsome : onError ≠ []) :
    GoesOn p item index onError handler after (some f) ((do
      Watched.tell p (.handles f)
      handler
      Watched.tell p .ends
      after) s)

section Rounds

variable {item index : String} {body : Nat → Watched Unit} {k : Nat} {v : Value}
  {values : List Value} {starts : List Scene} {s s₀ : Scene} {f : Failure}

namespace Rounds

theorem single (hstart : Starts item index k v s) (hover : ¬ Completes (body k s)) :
    Rounds item index body k (v :: values) [s] where
  started
    | 0, _, h => ⟨v, rfl, Option.some.inj h ▸ hstart⟩
    | _ + 1, _, h => by simp at h
  first _ := by simp
  next
    | 0, _, h, _ => by
      obtain rfl := Option.some.inj h
      simpa using hover
    | _ + 1, _, h, _ => by simp at h

theorem cons (hstart : Starts item index k v s) (hover : Completes (body k s))
    (h : Rounds item index body (k + 1) values starts) :
    Rounds item index body k (v :: values) (s :: starts) where
  started
    | 0, _, hs => ⟨v, rfl, Option.some.inj hs ▸ hstart⟩
    | j + 1, s', hs => by
      have hround : k + (j + 1) = k + 1 + j := by omega
      rw [hround]
      exact h.started j s' hs
  first _ := by simp
  next
    | 0, _, hs, hlt => by
      obtain rfl := Option.some.inj hs
      have hvalues : values ≠ [] := by
        rintro rfl
        simp at hlt
      simpa [List.length_pos_iff, h.first hvalues] using hover
    | j + 1, s', hs, hlt => by
      have hround : k + (j + 1) = k + 1 + j := by omega
      rw [hround, List.length_cons, Nat.add_lt_add_iff_right]
      exact h.next j s' hs (by simpa using hlt)

end Rounds

theorem failsIn_cons :
    FailsIn body k (s :: starts) f ↔
      (body k s).result = .error f ∨ FailsIn body (k + 1) starts f := by
  constructor
  · rintro ⟨_ | j, s', hs, hf⟩
    · obtain rfl := Option.some.inj hs
      exact .inl hf
    · exact .inr ⟨j, s', hs, by rwa [Nat.add_assoc, Nat.add_comm 1]⟩
  · rintro (hf | ⟨j, s', hs, hf⟩)
    · exact ⟨0, s, rfl, hf⟩
    · exact ⟨j + 1, s', hs, by rwa [Nat.add_assoc, Nat.add_comm 1] at hf⟩

/-- In a buffer with a line every round can be entered. -/
theorem exists_enterRound (hne : item ≠ index) (hbuffer : Act.OnEdit Sturdy s₀)
    (hproceeds : s₀.context.shouldReturn = false) (anchor : Option Cursor) (k : Nat) (v : Value) :
    ∃ s, (Act.enterRound (.str item) (.str index) anchor k v).run s₀ = (.ok (), s) ∧
      Act.OnEdit Sturdy s ∧ Starts item index k v s := by
  let set : Scene := { s₀ with context := { s₀.context with
    vars := (s₀.context.vars.set item v).set index (.int k) } }
  obtain ⟨s, hmove, hcontext⟩ := Act.run_moveBack (s := set) hbuffer anchor
  have hrun : (Act.enterRound (.str item) (.str index) anchor k v).run s₀ = (.ok (), s) := by
    simp only [Act.enterRound, Act.run_bind, Act.run_setNamed, Act.variableName, Act.run_set]
    exact hmove
  obtain ⟨hitem, hindex⟩ := get?_enterRound hne hrun
  refine ⟨s, hrun, Act.sturdy_of_enterRound hrun fun _ => hbuffer, hitem, hindex, ?_⟩
  rw [hcontext]
  exact hproceeds

end Rounds

namespace Watched

variable {p : Spot} {item index reference : String} {indexName : Option Value}
  {body : Nat → Watched Unit} {k : Nat} {values : List Value} {s₀ : Scene}

theorem rounds_trail (hne : item ≠ index)
    (hbody : ∀ k s, Act.OnEdit Sturdy s → Act.OnEdit Sturdy (body k s).scene)
    (hbuffer : Act.OnEdit Sturdy s₀) (hproceeds : s₀.context.shouldReturn = false)
    (anchor last : Option Cursor) (values : List Value) :
    let t := rounds p (.str item) (.str index) anchor body k last values s₀
    ∃ starts, Rounds item index body k values starts ∧ t.events = roundEvents body k starts ∧
      (∀ f, t.result = .error f ↔ FailsIn body k starts f) ∧ Act.OnEdit Sturdy t.scene := by
  induction values generalizing k last s₀ with
  | nil =>
    refine ⟨[], ⟨by simp, by simp, by simp⟩, rfl, fun f => ?_, hbuffer⟩
    simp [rounds, pure, FailsIn]
  | cons v rest ih =>
    obtain ⟨s, henter, hs, hstart⟩ := exists_enterRound hne hbuffer hproceeds anchor k v
    rw [rounds, own_bind_ok henter, bind_apply, goOn]
    have hafter := hbody k s hs
    have hsingle : roundEvents body k [s] = (body k s).events := by simp [roundEvents]
    have hnone (f : Failure) : ¬ FailsIn body (k + 1) [] f := by simp [FailsIn]
    cases hresult : (body k s).result with
    | error f =>
      have hover : ¬ Completes (body k s) := fun h => by simp [Completes, hresult] at h
      refine ⟨[s], .single hstart hover, hsingle.symm, fun g => ?_, hafter⟩
      rw [failsIn_cons, hresult, or_iff_left (hnone g)]
      simp
    | ok =>
      dsimp only
      rw [quiet_bind_ok (Act.run_context _)]
      cases hreturn : (body k s).scene.context.shouldReturn with
      | true =>
        have hover : ¬ Completes (body k s) := fun h => by simp [Completes, hreturn] at h
        refine ⟨[s], .single hstart hover, ?_, fun g => ?_, hafter⟩
        · simp [hsingle, pure]
        · rw [failsIn_cons, hresult, or_iff_left (hnone g)]
          simp [pure]
      | false =>
        obtain ⟨starts, hrounds, hevents, hfails, hscene⟩ :=
          ih hafter hreturn (body k s).scene.context.cursor (k := k + 1)
        refine ⟨s :: starts, .cons hstart ⟨hresult, hreturn⟩ hrounds, ?_, fun g => ?_, hscene⟩
        · rw [roundEvents, List.zipIdx_cons, List.flatMap_cons, ← roundEvents, ← hevents]
          rfl
        · rw [failsIn_cons, hresult, ← hfails g]
          simp

/-- A loop over a list goes through its rounds, fails if one of them does, and leaves none of its
variables. -/
theorem loop_trail (hindex : Act.indexNameOf (.str item) indexName = .str index) (hne : item ≠ index)
    (hitems : ((Act.items reference).run s₀).1 = .ok values)
    (hbody : ∀ k s, Act.OnEdit Sturdy s → Act.OnEdit Sturdy (body k s).scene)
    (hbuffer : Act.OnEdit Sturdy s₀) (hproceeds : s₀.context.shouldReturn = false) :
    ∃ starts r s, Rounds item index body 0 values starts ∧
      loop p reference (.str item) indexName body s₀ = ⟨roundEvents body 0 starts, r, s⟩ ∧
      (∀ f, r = .error f ↔ FailsIn body 0 starts f) ∧ Cleared item index s := by
  obtain ⟨anchor, hanchor⟩ : ∃ anchor, Act.anchorCursor.run s₀ = (.ok anchor, s₀) := ⟨_, rfl⟩
  obtain ⟨starts, hrounds, hevents, hfails, hafter⟩ :=
    rounds_trail (p := p) (k := 0) hne hbody hbuffer hproceeds anchor anchor values
  generalize hrun : rounds p (.str item) (.str index) anchor body 0 anchor values s₀ = t at *
  have hdrop := Act.run_dropNames item index t.scene
  generalize hdropped : ({ t.scene with context := { t.scene.context with
    vars := (t.scene.context.vars.erase item).erase index } } : Scene) = dropped at hdrop
  have hcleared : Cleared item index dropped := by
    constructor <;> simp [← hdropped, Record.get?_erase_str]
  rw [loop, own_bind_ok (Act.run_items hitems), hindex, quiet_bind_ok hanchor, bind_apply]
  cases hresult : t.result with
  | error f =>
    refine ⟨starts, .error f, dropped, hrounds, ?_, fun g => ?_, hcleared⟩
    · have hthrow : (quiet (do Act.dropNames (.str item) (.str index); throw f) :
          Watched (Option Cursor)) t.scene = ⟨[], .error f, dropped⟩ := by
        rw [quiet, Act.run_bind, hdrop]
        rfl
      rw [rescue_of_error (hrun ▸ hresult), hrun, hthrow, hevents, goOn, List.append_nil]
    · rw [← hfails g, hresult]
      simp
  | ok last =>
    obtain ⟨s, hmove, hcontext⟩ := Act.run_moveBack (s := dropped) (hdropped ▸ hafter) last
    refine ⟨starts, .ok (), s, hrounds, ?_, fun g => ?_, ?_⟩
    · rw [rescue_of_ok (hrun ▸ hresult), hrun, goOn, hresult]
      dsimp only
      rw [own_bind_ok hdrop, own, hmove, hevents, List.append_nil]
    · rw [← hfails g, hresult]
      simp
    · constructor <;> rw [hcontext]
      · exact hcleared.item
      · exact hcleared.index

theorem clearedBut_noted {s : Scene} {f : Failure} (h : Cleared item index s) :
    ClearedBut item index f (noted f s) := by
  have hget (name : String) (hname : s.context.vars.get? (.str name) = none) :
      (noted f s).context.vars.get? (.str name) =
        if name = "error" then some (.map (failureRecord f)) else none := by
    by_cases herror : name = "error"
    · subst herror
      simp [noted, Record.get?_set_str]
    · simp [noted, Record.get?_set_str, Ne.symm herror, herror, hname]
  exact List.forall_mem_cons.2 ⟨hget item h.item, List.forall_mem_singleton.2 (hget index h.index)⟩

/-- What comes after an action whose body leaves none of two variables. -/
theorem goesOn_attempt (onError : List Action) (handler after : Watched Unit)
    {body : Watched Unit} {events : List Event} {r : Except Failure Unit} {s : Scene}
    (h : body s₀ = ⟨events, r, s⟩) (hcleared : Cleared item index s) :
    ∃ t, GoesOn p item index onError handler after (failure? r) t ∧
      goOn (attempt p onError handler body s₀) (fun _ => after) =
        t.behind (⟨p, .begins, s₀⟩ :: events) := by
  cases r with
  | ok =>
    refine ⟨_, .ends hcleared, ?_⟩
    by_cases hnone : onError = []
    · simp [attempt, hnone, bind_apply, goOn, tell, h, Trail.behind]
    · simp [attempt, hnone, bind_apply, goOn, tell, rescue, h, Trail.behind]
  | error f =>
    by_cases hnone : onError = []
    · refine ⟨_, .fails hcleared hnone, ?_⟩
      simp [attempt, hnone, bind_apply, goOn, tell, h, Trail.behind]
    · refine ⟨_, .handles (clearedBut_noted hcleared) hnone, ?_⟩
      cases hh : (handler (noted f s)).result <;>
        simp [attempt, hnone, bind_apply, goOn, tell, rescue, quiet, run_noteFailure, h, hh,
          Trail.behind]

end Watched

/-- A loop over a list of values runs its body once for each of them, in their order, from a scene
in which its two variables are the value and its position, whatever the body does to variables; only
a round that returns or fails is followed by no other. When the loop ends, and when it fails, its
variables are gone. Its handler, too, finds them gone, except for one with the name `error`, which
describes the failure to every handler. -/
theorem loop_rounds (engine : Runner) (route : Route) (i : Nat) {reference item index : String}
    {indexName : Option Value} {body onError others : List Action} {line : Option Nat}
    {values : List Value} {s₀ : Scene}
    (hindex : Act.indexNameOf (.str item) indexName = .str index) (hne : item ≠ index)
    (hitems : ((Act.items reference).run s₀).1 = .ok values)
    (hbuffer : ∀ b, s₀.buffer = some b → b.lines ≠ [])
    (hproceeds : s₀.context.shouldReturn = false) :
    let p : Spot := ⟨route, i⟩
    let round k := Watched.sequence engine.perform (p.inside (.round k)) 0 body
    let handler := Watched.sequence engine.perform (p.inside .handler) 0 onError
    let after := Watched.sequence engine.perform route (i + 1) others
    ∃ starts failure t, Rounds item index round 0 values starts ∧
      (∀ f, failure = some f ↔ FailsIn round 0 starts f) ∧
      GoesOn p item index onError handler after failure t ∧
      Watched.sequence engine.perform route i
          (.loop reference (.str item) indexName body onError line :: others) s₀ =
        t.behind (⟨p, .begins, s₀⟩ :: roundEvents round 0 starts) := by
  intro p round handler after
  have hround (k : Nat) (s : Scene) (h : Act.OnEdit Sturdy s) :
      Act.OnEdit Sturdy (round k s).scene := by
    have hkept := Act.keeps_sturdy engine body s h
    rwa [← Watched.plain_sequence engine.perform (p.inside (.round k)) 0 body] at hkept
  obtain ⟨starts, r, s, hrounds, hloop, hfails, hcleared⟩ :=
    Watched.loop_trail (p := p) hindex hne hitems hround hbuffer hproceeds
  obtain ⟨t, hgoes, hrun⟩ := Watched.goesOn_attempt onError handler after hloop hcleared
  refine ⟨starts, failure? r, t, hrounds, fun f => ?_, hgoes, ?_⟩
  · rw [← hfails f]
    cases r <;> simp [failure?]
  · rw [Watched.sequence_cons, if_neg (by simp [hproceeds]), Watched.action]
    exact hrun

/-- A loop that appends a line where there is no buffer, and logs something once that has failed. -/
def homeless (itemName : String) : List Action :=
  [.loop "xs" (.str itemName) none [.step (.append "x" 1) [] none]
    [.step (.log "failed" .info) [] none] none]

theorem items_pairingScene : ((Act.items "xs").run pairingScene).1 = .ok [.str "a", .str "b"] :=
  Act.items_of_name (by decide +kernel) (by decide +kernel) (by cbv) rfl

/-- There is no round for the second element, since the first round fails. -/
theorem loop_rounds_homeless :
    let round k := Watched.sequence bareRunner.perform [(0, .round k)] 0
      [.step (.append "x" 1) [] none]
    let handler := Watched.sequence bareRunner.perform [(0, .handler)] 0
      [.step (.log "failed" .info) [] none]
    ∃ starts failure t, Rounds "item" "item_index" round 0 [.str "a", .str "b"] starts ∧
      starts.length = 1 ∧ (∀ f, failure = some f ↔ FailsIn round 0 starts f) ∧
      GoesOn ⟨[], 0⟩ "item" "item_index" [.step (.log "failed" .info) [] none] handler
        (Watched.sequence bareRunner.perform [] 1 []) failure t ∧
      Watched.sequence bareRunner.perform [] 0 (homeless "item") pairingScene =
        t.behind (⟨⟨[], 0⟩, .begins, pairingScene⟩ :: roundEvents round 0 starts) := by
  intro round handler
  have hindex : Act.indexNameOf (.str "item") none = .str "item_index" := rfl
  obtain ⟨starts, failure, t, hrounds, hfails, hgoes, hrun⟩ :=
    loop_rounds bareRunner [] 0 hindex (by decide) items_pairingScene nofun rfl
  refine ⟨starts, failure, t, hrounds, ?_, hfails, hgoes, hrun⟩
  have hspots : ⟨[(0, .round 1)], 0⟩ ∉ (Watched.sequence bareRunner.perform [] 0 (homeless "item")
      pairingScene).events.map (·.spot) := by
    decide +kernel
  have hfirst : 0 < starts.length := List.length_pos_iff.2 (hrounds.first (by simp))
  by_contra hlength
  have hsecond : 1 < starts.length := by omega
  have hget := List.getElem?_eq_getElem hsecond
  obtain ⟨v, -, hstart⟩ := hrounds.started 1 _ hget
  obtain ⟨rest, hbegins⟩ := Watched.sequence_begins bareRunner.perform [(0, .round 1)] 0
    (List.cons_ne_nil (Action.step (.append "x" 1) [] none) []) hstart.proceeds
  refine hspots (List.mem_map.2 ⟨⟨⟨[(0, .round 1)], 0⟩, .begins, starts[1]⟩, ?_, rfl⟩)
  rw [homeless, hrun]
  refine List.mem_append_left _ (List.mem_cons_of_mem _ (List.mem_flatMap.2 ⟨(starts[1], 1), ?_, ?_⟩))
  · exact List.mem_zipIdx_iff_getElem?.2 hget
  · change _ ∈ (round 1 starts[1]).events
    rw [hbegins]
    exact List.mem_cons_self ..

/-- The handler of a loop finds a variable with the name `error`, though it is one of the loop's. -/
theorem loop_variable_stays_homeless :
    ∃ before s, before ++ [⟨⟨[(0, .handler)], 0⟩, .begins, s⟩] <+:
        (Watched.sequence bareRunner.perform [] 0 (homeless "error") pairingScene).events ∧
      s.context.vars.get? (.str "error") ≠ none := by
  have hmem : (⟨[(0, .handler)], 0⟩, [some "dict"]) ∈ beginnings (kindsOf ["error"])
      (Watched.sequence bareRunner.perform [] 0 (homeless "error") pairingScene).events := by
    decide +kernel
  obtain ⟨before, s, h, hthere⟩ := exists_of_mem_beginnings hmem
  refine ⟨before, s, h, fun hnone => ?_⟩
  simp [kindsOf, hnone] at hthere

end BulletScript.Engine
