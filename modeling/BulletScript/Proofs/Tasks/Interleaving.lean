import BulletScript.Proofs.Tasks.Serial

/-! No update is lost when calls run at the same time: each writes what it made of the last text of
its document, and together they do what they do one after the other. -/
namespace BulletScript.Tasks

open Text Outline Files

variable {ι κ : Type}

def Access.path : Access → String
  | .read path | .write path _ => path

/-- A call that has written nothing as long as it is here. -/
def Phase.Unwritten : Phase → Prop
  | .started | .loaded _ | .ready .. | .ended (.error _) => True
  | _ => False

def Stage.Unwritten : Stage → Prop
  | .waiting | .finished (.error _) => True
  | .visiting _ phase => phase.Unwritten
  | .finished (.ok _) => False

namespace Visit

variable {editor : Editor} {job : Job} {v : Visit} {access : Access} {path text : String}

theorem access?_path (h : v.access? editor = some access) : access.path = v.item.path := by
  unfold access? at h
  split at h
  · cases h; rfl
  · split at h
    · cases h; rfl
    · cases h
  · cases h

theorem hasRead_of_write (h : v.access? editor = some (.write path text)) : v.phase.HasRead := by
  cases hphase : v.phase with
  | loaded s => trivial
  | ready text settle => trivial
  | _ => simp [access?, hphase] at h

/-- A call has read its document in the step before, or earlier. -/
theorem hasRead_of_next (h : (v.next editor job).phase.HasRead) :
    v.access? editor = some (.read v.item.path) ∨
      v.phase.HasRead ∧ v.access? editor = none := by
  cases hphase : v.phase with
  | started => exact .inl (by simp [access?, hphase])
  | loaded s => exact .inr ⟨trivial, by simp [access?, hphase]⟩
  | ready text settle =>
    simp only [next, hphase] at h
    split at h <;> cases h
  | written settle => simp [next, hphase, Phase.HasRead] at h
  | ended result => simp [next, hphase, Phase.HasRead] at h

/-- A call that has written nothing after a step wrote nothing before and in that step. -/
theorem unwritten_of_next (h : (v.next editor job).phase.Unwritten) :
    v.phase.Unwritten ∧ v.access? editor ≠ some (.write path text) := by
  cases hphase : v.phase with
  | started => exact ⟨trivial, by simp [access?, hphase]⟩
  | loaded s => exact ⟨trivial, by simp [access?, hphase]⟩
  | ready text settle =>
    refine ⟨trivial, ?_⟩
    cases hwrite : editor.store.write v.tree v.item.path text with
    | error failure => simp [access?, hphase, hwrite]
    | ok tree => simp [next, hphase, hwrite, Phase.Unwritten] at h
  | written settle => simp [next, hphase, Phase.Unwritten] at h
  | ended result => exact ⟨by simpa [next, hphase] using h, by simp [access?, hphase]⟩

end Visit

variable {editor : Editor} {calls : κ → Call ι} {start σ σ' : Shared ι κ} {b : Serial ι κ}
  {c d : κ} {event : Event} {events : List (κ × Event)} {job : Job} {phase : Phase}

/-- A call has read the document of a path, and nobody has written it since. -/
def ReadLast (events : List (κ × Event)) (c : κ) (path : String) : Prop :=
  ∃ before since, events = before ++ (c, .advanced (some (.read path))) :: since ∧
    ∀ d text, (d, .advanced (some (.write path text))) ∉ since

theorem ReadLast.snoc {path : String} (h : ReadLast events c path)
    (hevent : ∀ text, event ≠ .advanced (some (.write path text))) :
    ReadLast (events ++ [(d, event)]) c path := by
  obtain ⟨before, since, rfl, hsince⟩ := h
  refine ⟨before, since ++ [(d, event)], by rw [List.append_assoc, List.cons_append], ?_⟩
  intro d' text hmem
  rcases List.mem_append.1 hmem with hmem | hmem
  · exact hsince d' text hmem
  · rw [List.mem_singleton, Prod.mk.injEq] at hmem
    exact hevent text hmem.2.symm

/-- What the steps so far tell of where the calls are. -/
structure History (calls : κ → Call ι) (events : List (κ × Event)) (σ : Shared ι κ) : Prop where
  turned : ∀ c, c ∈ turns events ↔ σ.stage c ≠ .waiting
  nodup : (turns events).Nodup
  path : ∀ c access, (c, .advanced (some access)) ∈ events → access.path = σ.path calls c
  unwritten : ∀ c, (σ.stage c).Unwritten → ∀ path text,
    (c, .advanced (some (.write path text))) ∉ events
  fresh : ∀ c job phase, σ.stage c = .visiting job phase → phase.HasRead →
    ReadLast events c (σ.path calls c)
  written : ∀ before after c path text,
    events = before ++ (c, .advanced (some (.write path text))) :: after → ReadLast before c path

theorem turns_snoc (events : List (κ × Event)) (c : κ) (event : Event) :
    turns (events ++ [(c, event)]) = turns events ++ if event.isTurn then [c] else [] := by
  rw [turns, List.filter_append, List.map_append]
  cases event <;> rfl

namespace History

theorem initial (hinitial : start.Initial editor) : History calls [] start := by
  refine ⟨fun c => ?_, List.nodup_nil, nofun, nofun, fun c job phase hc => ?_, ?_⟩
  · simp [turns, hinitial.waiting]
  · rw [hinitial.waiting] at hc
    cases hc
  · intro before after c path text h
    simp at h

/-- One step more, by what it does to the call that takes it. -/
theorem snoc (h : History calls events σ) (hturn : event.isTurn = true ↔ σ.stage c = .waiting)
    (hself : σ'.stage c ≠ .waiting) (hother : ∀ d, d ≠ c → σ'.stage d = σ.stage d)
    (hpath : ∀ d, σ'.path calls d = σ.path calls d)
    (haccess : ∀ access, event = .advanced (some access) → access.path = σ.path calls c)
    (hunwritten : (σ'.stage c).Unwritten →
      (σ.stage c).Unwritten ∧ ∀ path text, event ≠ .advanced (some (.write path text)))
    (hfresh : ∀ job phase, σ'.stage c = .visiting job phase → phase.HasRead →
      ReadLast (events ++ [(c, event)]) c (σ.path calls c))
    (hwritten : ∀ path text, event = .advanced (some (.write path text)) → ReadLast events c path)
    (hapart : ∀ d job phase, d ≠ c → σ.stage d = .visiting job phase →
      ∀ text, event ≠ .advanced (some (.write (σ.path calls d) text))) :
    History calls (events ++ [(c, event)]) σ' := by
  refine ⟨fun d => ?turned, ?nodup, fun d access hd => ?path, fun d hd path text hmem => ?unwritten,
    fun d job phase hd hread => ?fresh, fun before after d path text heq => ?written⟩
  case turned =>
    rw [turns_snoc, List.mem_append, h.turned]
    by_cases hd : d = c
    · subst hd
      cases hevent : event.isTurn with
      | true => simpa using hself
      | false =>
        rw [hevent] at hturn
        simpa [hself] using hturn
    · rw [hother d hd]
      cases event.isTurn <;> simp [hd]
  case nodup =>
    rw [turns_snoc]
    cases hevent : event.isTurn with
    | true =>
      have hc : c ∉ turns events := fun hmem => (h.turned c).1 hmem (hturn.1 hevent)
      rw [if_pos rfl, List.nodup_append]
      refine ⟨h.nodup, by simp, fun d hd last hlast => ?_⟩
      rw [List.mem_singleton.1 hlast]
      rintro rfl
      exact hc hd
    | false => simpa using h.nodup
  case path =>
    rw [hpath]
    rcases List.mem_append.1 hd with hd | hd
    · exact h.path d access hd
    · rw [List.mem_singleton, Prod.mk.injEq] at hd
      rw [hd.1]
      exact haccess access hd.2.symm
  case unwritten =>
    by_cases hne : d = c
    · subst hne
      obtain ⟨hbefore, hevent⟩ := hunwritten hd
      rcases List.mem_append.1 hmem with hmem | hmem
      · exact h.unwritten d hbefore path text hmem
      · rw [List.mem_singleton, Prod.mk.injEq] at hmem
        exact hevent path text hmem.2.symm
    · rw [hother d hne] at hd
      rcases List.mem_append.1 hmem with hmem | hmem
      · exact h.unwritten d hd path text hmem
      · rw [List.mem_singleton, Prod.mk.injEq] at hmem
        exact hne hmem.1
  case fresh =>
    rw [hpath]
    by_cases hne : d = c
    · subst hne
      exact hfresh job phase hd hread
    · rw [hother d hne] at hd
      exact (h.fresh d job phase hd hread).snoc (hapart d job phase hne hd)
  case written =>
    rcases List.eq_nil_or_concat after with rfl | ⟨after, last, rfl⟩
    · obtain ⟨rfl, hlast⟩ := List.append_inj' heq rfl
      simp only [List.cons.injEq, Prod.mk.injEq, and_true] at hlast
      obtain ⟨rfl, hevent⟩ := hlast
      exact hwritten path text hevent
    · rw [List.concat_eq_append, ← List.cons_append, ← List.append_assoc] at heq
      exact h.written before after d path text (List.append_inj' heq rfl).1

/-- One step more that touches no document. -/
theorem snoc_quiet (h : History calls events σ) (hevent : ∀ access, event ≠ .advanced access)
    (hturn : event.isTurn = true ↔ σ.stage c = .waiting) (hself : σ'.stage c ≠ .waiting)
    (hother : ∀ d, d ≠ c → σ'.stage d = σ.stage d) (hitems : σ'.items = σ.items)
    (hunwritten : (σ'.stage c).Unwritten → (σ.stage c).Unwritten)
    (hread : ∀ job phase, σ'.stage c = .visiting job phase → ¬ phase.HasRead) :
    History calls (events ++ [(c, event)]) σ' :=
  h.snoc hturn hself hother (fun d => by rw [Shared.path, Shared.path, hitems])
    (fun _ heq => absurd heq (hevent _)) (fun h => ⟨hunwritten h, fun _ _ => hevent _⟩)
    (fun job phase hd h => absurd h (hread job phase hd)) (fun _ _ heq => absurd heq (hevent _))
    fun _ _ _ _ _ _ => hevent _

theorem step [DecidableEq ι] [DecidableEq κ] (h : History calls events σ)
    (hσ : Follows editor calls start σ b) (hstep : σ.step? editor calls c = some (event, σ')) :
    History calls (events ++ [(c, event)]) σ' := by
  obtain ⟨failure, hstage, hjob, rfl, rfl⟩ | ⟨job, hstage, hjob, hfree, rfl, rfl⟩ |
    ⟨job, phase, hstage, hphase, rfl, rfl⟩ | ⟨job, result, hstage, rfl, rfl⟩ :=
    Shared.step_cases hstep
  · have hself : (σ.refuse c failure).stage c = .finished (.error failure) := Function.update_self ..
    refine h.snoc_quiet nofun ?_ ?_ (fun d hd => Function.update_of_ne hd ..) rfl ?_ ?_
    · simp [Event.isTurn, hstage]
    · simp [hself]
    · exact fun _ => hstage ▸ trivial
    · intro job phase hd
      rw [hself] at hd
      cases hd
  · have hself : (σ.acquire calls c job).stage c = .visiting job .started := Function.update_self ..
    refine h.snoc_quiet nofun ?_ ?_ (fun d hd => Function.update_of_ne hd ..) rfl ?_ ?_
    · simp [Event.isTurn, hstage]
    · simp [hself]
    · exact fun _ => hstage ▸ trivial
    · intro job' phase hd hread
      rw [hself, Stage.visiting.injEq] at hd
      obtain ⟨rfl, rfl⟩ := hd
      exact hread.elim
  · obtain ⟨hleads, -⟩ := Visit.next_leads job (hσ.visiting c job phase hstage).sound hσ.grounded
    have hself : (σ.advance calls c job ((σ.visit calls c phase).next editor job)).stage c =
        .visiting job ((σ.visit calls c phase).next editor job).phase := Function.update_self ..
    refine h.snoc ?_ ?_ (fun d hd => Function.update_of_ne hd ..)
      (fun d => Shared.path_advance hleads.path _) ?_ ?_ ?_ ?_ ?_
    · simp [Event.isTurn, hstage]
    · simp [hself]
    · intro access haccess
      exact Visit.access?_path (Event.advanced.inj haccess)
    · intro hunwritten
      rw [hself] at hunwritten
      refine ⟨?_, fun path text hevent => ?_⟩
      · rw [hstage]
        exact (@Visit.unwritten_of_next editor job _ "" "" hunwritten).1
      · exact (Visit.unwritten_of_next hunwritten).2 (Event.advanced.inj hevent)
    · intro job' phase' hd hread
      rw [hself, Stage.visiting.injEq] at hd
      obtain ⟨rfl, rfl⟩ := hd
      obtain hfirst | ⟨hbefore, hnone⟩ := Visit.hasRead_of_next hread
      · rw [hfirst]
        exact ⟨events, [], rfl, nofun⟩
      · rw [hnone]
        exact (h.fresh c job phase hstage hbefore).snoc nofun
    · intro path text hevent
      have haccess := Event.advanced.inj hevent
      rw [show path = σ.path calls c from Visit.access?_path haccess]
      exact h.fresh c job phase hstage (Visit.hasRead_of_write haccess)
    · intro d job' phase' hne hd text hevent
      refine (hσ.visiting d job' phase' hd).path_ne (.inr (hσ.visiting c job phase hstage).holds) hne ?_
      exact Visit.access?_path (Event.advanced.inj hevent)
  · have hself : (σ.release c result).stage c = .finished result := Function.update_self ..
    refine h.snoc_quiet nofun ?_ ?_ (fun d hd => Function.update_of_ne hd ..) rfl ?_ ?_
    · simp [Event.isTurn, hstage]
    · simp [hself]
    · intro hunwritten
      rw [hself] at hunwritten
      rw [hstage]
      cases result with
      | ok _ => cases hunwritten
      | error failure => trivial
    · intro job' phase hd
      rw [hself] at hd
      cases hd

end History

section Runs

variable [DecidableEq ι] [DecidableEq κ]

theorem History.run (hinitial : start.Initial editor) (hrun : Run editor calls start events σ) :
    History calls events σ := by
  induction hrun with
  | nil => exact initial hinitial
  | snoc hrun hstep ih => exact ih.step (Follows.run hinitial hrun) hstep

/-- As long as a call is not over, some call can go on. -/
theorem Run.exists_step (hinitial : start.Initial editor) (hrun : Run editor calls start events σ)
    (hc : ∀ result, σ.stage c ≠ .finished result) : ∃ d, (σ.step? editor calls d).isSome := by
  have hvisits (d : κ) (hd : σ.Visits d) : (σ.step? editor calls d).isSome := by
    obtain ⟨job, phase, hd⟩ := hd
    simp only [Shared.step?, hd]
    split <;> rfl
  cases hstage : σ.stage c with
  | waiting =>
    cases hjob : (calls c).request.job with
    | error failure => exact ⟨c, by simp [Shared.step?, hstage, hjob]⟩
    | ok job =>
      cases hholder : σ.holder (σ.path calls c) with
      | none => exact ⟨c, by simp [Shared.step?, hstage, hjob, hholder]⟩
      | some d => exact ⟨d, hvisits d ((Follows.run hinitial hrun).holder _ d hholder).1⟩
  | visiting job phase => exact ⟨c, hvisits c ⟨job, phase, hstage⟩⟩
  | finished result => exact absurd hstage (hc result)

/-- In every order in which the steps of some calls can be taken, a call writes what it made of a
text that nobody has overwritten since it was read, and a call that fails writes nothing. Once all
calls are over, the documents, the items and the outcomes are those that the calls have one after
the other, each alone, in the order in which they took their locks. -/
theorem run_serializable (hinitial : start.Initial editor)
    (hrun : Run editor calls start events σ) :
    (∀ before after c path text,
      events = before ++ (c, .advanced (some (.write path text))) :: after →
      ∃ earlier since, before = earlier ++ (c, .advanced (some (.read path))) :: since ∧
        ∀ d path' text', (d, .advanced (some (.write path' text'))) ∈ since →
          ∀ place, editor.store.place start.tree path = .ok place →
            editor.store.place start.tree path' ≠ .ok place) ∧
    (∀ c failure, σ.stage c = .finished (.error failure) →
      ∀ path text, (c, .advanced (some (.write path text))) ∉ events) ∧
    ((∀ c, ∃ result, σ.stage c = .finished result) →
      let serial := serially editor calls start (turns events)
      (turns events).Nodup ∧ (∀ c, c ∈ turns events) ∧
        (∀ q, σ.tree.file? q = serial.tree.file? q) ∧ (∀ i, σ.items i = serial.items i) ∧
        ∀ c result, σ.stage c = .finished result → serial.outcome c = some result) := by
  have h : History calls events σ := .run hinitial hrun
  have hfollows := Follows.run hinitial hrun
  refine ⟨fun before after c path text hevents => ?_, fun c failure hc => ?_, fun hover => ?_⟩
  · obtain ⟨earlier, since, rfl, hsince⟩ := h.written before after c path text hevents
    refine ⟨earlier, since, rfl, fun d path' text' hmem place hplace hplace' => ?_⟩
    have hpath (e : κ) (path text : String)
        (he : (e, .advanced (some (.write path text))) ∈ events) :
        path = (start.items (calls e).item).path :=
      (h.path e (.write path text) he).trans (hfollows.path _)
    have hread := hpath c path text (by simp [hevents])
    have hwrite := hpath d path' text' (by simp [hevents, hmem])
    have hsame : path' = path := by
      rw [hread, hwrite]
      exact hinitial.onePath _ _ place (hwrite ▸ hplace') (hread ▸ hplace)
    exact hsince d text' (hsame ▸ hmem)
  · exact h.unwritten c (hc ▸ trivial)
  · have hnobody (c : κ) : ¬ σ.Visits c := by
      rintro ⟨job, phase, hc⟩
      obtain ⟨result, hresult⟩ := hover c
      rw [hresult] at hc
      cases hc
    refine ⟨h.nodup, fun c => (h.turned c).2 fun hc => ?_, fun q => ?_, fun i => ?_, hfollows.finished⟩
    · obtain ⟨result, hresult⟩ := hover c
      rw [hresult] at hc
      cases hc
    · exact (hfollows.file q fun c hc => absurd hc (hnobody c)).symm
    · exact (hfollows.item i fun c hc => absurd hc (hnobody c)).symm

/-- The next steps of calls in a given order, and what happens in them. -/
def Shared.play (editor : Editor) (calls : κ → Call ι) (σ : Shared ι κ) :
    List κ → Option (List (κ × Event) × Shared ι κ)
  | [] => some ([], σ)
  | c :: rest => do
    let (event, σ) ← σ.step? editor calls c
    let (events, σ) ← σ.play editor calls rest
    return ((c, event) :: events, σ)

theorem Run.play {order : List κ} {more : List (κ × Event)}
    (hrun : Run editor calls start events σ)
    (h : σ.play editor calls order = some (more, σ')) :
    Run editor calls start (events ++ more) σ' := by
  induction order generalizing events more σ with
  | nil =>
    cases h
    rwa [List.append_nil]
  | cons c rest ih =>
    simp only [Shared.play, Option.bind_eq_bind, Option.bind_eq_some_iff, Prod.exists] at h
    obtain ⟨event, σ₁, hstep, more', σ₂, hplay, heq⟩ := h
    cases heq
    rw [List.append_cons]
    exact ih (hrun.snoc hstep) hplay

end Runs

/-- Two documents; the first has two items. -/
def deskTree : Tree :=
  .ofFiles "/" [("a.md", .text "- [ ] T\n- [ ] U\n"), ("b.md", .text "- [ ] V")]

def deskItems : Fin 3 → WorkItem
  | 0 => { text := "T", path := "a.md", line := 0, status := " ", tags := [], indent := "" }
  | 1 => { text := "U", path := "a.md", line := 1, status := " ", tags := [], indent := "" }
  | 2 => { text := "W", path := "b.md", line := 0, status := " ", tags := [], indent := "" }

/-- Two calls on items of one document, and one on an item that is lost. -/
def deskCalls : Fin 3 → Call (Fin 3)
  | 0 => ⟨0, .update { appendChildren := [{ text := "x" }] }⟩
  | 1 => ⟨1, .setStatus "x"⟩
  | 2 => ⟨2, .update { append := "y" }⟩

def deskStart : Shared (Fin 3) (Fin 3) :=
  { tree := deskTree, items := deskItems, holder := fun _ => none, stage := fun _ => .waiting }

/-- The second call takes its lock while the third is on its way, and the first follows. -/
def deskOrder : List (Fin 3) := [2, 1, 2, 1, 2, 1, 1, 1, 2, 1, 0, 0, 0, 0, 0, 0]

def deskEditor : Editor := { store := {}, indentUnit := "  " }

/-- Whether a call is over. -/
def Stage.isOver : Stage → Bool
  | .finished _ => true
  | _ => false

theorem deskStart_initial : deskStart.Initial deskEditor where
  grounded := Tree.grounded_ofFiles _ _
  waiting _ := rfl
  free _ := rfl
  onePath := by
    have hpaths : ∀ i j, (deskEditor.store.place deskTree (deskItems i).path).toOption =
        (deskEditor.store.place deskTree (deskItems j).path).toOption →
          (deskItems i).path = (deskItems j).path := by
      decide +kernel
    intro i j place hi hj
    refine hpaths i j ?_
    change deskEditor.store.place deskTree (deskItems i).path = _ at hi
    change deskEditor.store.place deskTree (deskItems j).path = _ at hj
    rw [hi, hj]

theorem run_serializable_desk :
    deskStart.Initial deskEditor ∧
      ∃ events σ, deskStart.play deskEditor deskCalls deskOrder = some (events, σ) ∧
        Run deskEditor deskCalls deskStart events σ ∧ turns events = [2, 1, 0] ∧
        (∀ c, ∃ result, σ.stage c = .finished result) ∧
        (∀ q, σ.tree.file? q =
          (serially deskEditor deskCalls deskStart [2, 1, 0]).tree.file? q) ∧
        σ.tree.file? ["a.md"] = some (.text "- [ ] T\n  - x\n- [x] U\n") := by
  have hsome : (deskStart.play deskEditor deskCalls deskOrder).isSome := by decide +kernel
  obtain ⟨⟨events, σ⟩, hplay⟩ := Option.isSome_iff_exists.1 hsome
  have hrun : Run deskEditor deskCalls deskStart events σ := Run.nil.play hplay
  have hturns : (deskStart.play deskEditor deskCalls deskOrder).map (turns ·.1) =
      some [2, 1, 0] := by
    decide +kernel
  have hover : ∀ c, ((deskStart.play deskEditor deskCalls deskOrder).map
      (·.2.stage c |>.isOver)) = some true := by
    decide +kernel
  have hfile : (deskStart.play deskEditor deskCalls deskOrder).map (·.2.tree.file? ["a.md"]) =
      some (some (.text "- [ ] T\n  - x\n- [x] U\n")) := by
    decide +kernel
  rw [hplay, Option.map_some, Option.some.injEq] at hturns hfile
  have hstages (c : Fin 3) : ∃ result, σ.stage c = .finished result := by
    have hc := hover c
    rw [hplay, Option.map_some, Option.some.injEq] at hc
    cases hstage : σ.stage c with
    | finished result => exact ⟨result, rfl⟩
    | _ => simp [hstage, Stage.isOver] at hc
  obtain ⟨-, -, hfiles, -⟩ := (run_serializable deskStart_initial hrun).2.2 hstages
  rw [hturns] at hfiles
  exact ⟨deskStart_initial, events, σ, hplay, hrun, hturns, hstages, hfiles, hfile⟩

end BulletScript.Tasks
