import BulletScript.Proofs.Engine.Footing

/-! Runs in a buffer, and where their cursor is. What each act does from a scene in which the run
stands is put together along the trail of the run: the run stands in every scene, whatever fails. -/
namespace BulletScript.Engine

open Script

/-- An action that looks for a line does not fail by an index that is out of range. -/
def Spares (root : List Action) (e : Event) : Prop :=
  ∀ f a, e.what = .fails f → actionAt? root e.spot = some a → seeksLine a.keyword →
    f.isIndexError = false

/-- A part of a run from a scene on. Each of its scenes can come after those before it, and `Q` holds
of its result. -/
structure Secure {α : Type} (root : List Action) (s : Scene) (Q : α → Scene → Prop) (t : Trail α) :
    Prop where
  onward : (s :: (t.events.map (·.scene) ++ [t.scene])).Pairwise Onward
  spares : ∀ e ∈ t.events, Spares root e
  result : ∀ a, t.result = .ok a → Q a t.scene

theorem spares_of_ne {root : List Action} {p : Spot} {what : Happening} {s : Scene}
    (h : ∀ f, what ≠ .fails f) : Spares root ⟨p, what, s⟩ := fun f _ hf => absurd hf (h f)

namespace Secure

open Watched (goOn quiet tell own step rescue attempt rounds loop)

variable {α β : Type} {root : List Action} {s : Scene} {p : Spot} {n : Nat}
  {Q : α → Scene → Prop} {Q' : β → Scene → Prop}

theorem last {t : Trail α} (h : Secure root s Q t) : Onward s t.scene :=
  (List.pairwise_cons.1 h.onward).1 _ (by simp)

theorem pure {a : α} (hs : Stands n s) (hq : Q a s) : Secure root s Q ((pure a : Watched α) s) where
  onward := List.pairwise_pair.2 hs.refl
  spares _ he := absurd he List.not_mem_nil
  result _ h := by
    cases h
    exact hq

/-- A part that goes on where another one ends. -/
theorem append {t : Trail α} {t' : Trail β} (h : Secure root s Q t) (h' : Secure root t.scene Q' t') :
    Secure root s Q' ⟨t.events ++ t'.events, t'.result, t'.scene⟩ where
  onward := by
    have hbefore := h.onward
    rw [← List.cons_append, List.pairwise_append] at hbefore
    obtain ⟨hfirst, -, hjoin⟩ := hbefore
    obtain ⟨hnext, hrest⟩ := List.pairwise_cons.1 h'.onward
    rw [List.map_append, List.append_assoc, ← List.cons_append, List.pairwise_append]
    refine ⟨hfirst, hrest, fun x hx y hy => ?_⟩
    exact Stands.trans (hjoin x hx t.scene (by simp)) (hnext y hy)
  spares e he := (List.mem_append.1 he).elim (h.spares e) (h'.spares e)
  result := h'.result

theorem bind {m : Watched α} {k : α → Watched β} (h : Secure root s Q (m s))
    (hk : ∀ a s', Q a s' → Onward s s' → Secure root s' Q' (k a s')) :
    Secure root s Q' ((m >>= k) s) := by
  rw [Watched.bind_apply, goOn]
  cases hr : (m s).result with
  | error f => exact ⟨h.onward, h.spares, by simp⟩
  | ok a => exact h.append (hk a _ (h.result a hr) h.last)

theorem quiet {m : Act α} (hm : Onward s (m.run s).2)
    (hq : ∀ a, (m.run s).1 = .ok a → Q a (m.run s).2) : Secure root s Q (quiet m s) where
  onward := by simpa [Watched.quiet] using hm
  spares := by simp [Watched.quiet]
  result := hq

theorem tell {what : Happening} (hs : Stands n s) (hwhat : ∀ f, what ≠ .fails f) :
    Secure root s (fun _ _ => True) (tell p what s) where
  onward := by simpa [Watched.tell] using hs.refl
  spares e he := List.mem_singleton.1 he ▸ spares_of_ne hwhat
  result := fun _ _ => trivial

/-- The own work of an action. -/
theorem own {m : Act α} (hm : Firm m s) (hq : ∀ a s', m.run s = (.ok a, s') → Q a s') :
    Secure root s Q (own p m s) := by
  obtain ⟨honward, hrange⟩ := hm
  rw [Watched.own]
  rcases hrun : m.run s with ⟨f | a, s'⟩
  · rw [hrun] at honward hrange
    refine ⟨by simpa using ⟨honward, honward.refl⟩, ?_, by simp⟩
    rintro e he g _ hg - -
    obtain rfl := List.mem_singleton.1 he
    cases hg
    exact hrange f rfl
  · rw [hrun] at honward
    exact ⟨by simpa using honward, by simp, fun b hb => by cases hb; exact hq a s' hrun⟩

theorem step {m : Act Unit} {a : Action} (ha : actionAt? root p = some a)
    (hm : Onward s (m.run s).2) (hrange : seeksLine a.keyword → Result.InRange (m.run s).1) :
    Secure root s (fun _ _ => True) (step p m s) := by
  rw [Watched.step]
  rcases hrun : m.run s with ⟨f | ⟨⟩, s'⟩
  · rw [hrun] at hm hrange
    refine ⟨by simpa using ⟨hm, hm.refl⟩, ?_, by simp⟩
    rintro e he g b hg hb hseeks
    obtain rfl := List.mem_singleton.1 he
    cases hg
    obtain rfl := Option.some.inj (ha.symm.trans hb)
    exact hrange hseeks f rfl
  · rw [hrun] at hm
    refine ⟨by simpa using ⟨hm, hm.refl⟩, ?_, fun _ _ => trivial⟩
    intro e he
    exact List.mem_singleton.1 he ▸ spares_of_ne (by simp)

theorem rescue {m : Watched α} {k : Failure → Watched α} (h : Secure root s Q (m s))
    (hk : ∀ f s', Onward s s' → Secure root s' Q (k f s')) : Secure root s Q (rescue m k s) := by
  rw [Watched.rescue]
  split
  · exact h
  · exact h.append (hk _ _ h.last)

theorem attempt {onError : List Action} {handler body : Watched Unit} (hs : Stands n s)
    (hhandler : ∀ s', Onward s s' → Secure root s' (fun _ _ => True) (handler s'))
    (hbody : ∀ s', Onward s s' → Secure root s' (fun _ _ => True) (body s')) :
    Secure root s (fun _ _ => True) (attempt p onError handler body s) := by
  have hown : Secure root s (fun _ _ => True) ((do Watched.tell p .begins; body) s) :=
    .bind (.tell hs (by simp)) fun _ s' _ hs' => hbody s' hs'
  rw [Watched.attempt]
  dsimp only
  split
  · exact .bind hown fun _ s' _ hs' => .tell hs' (by simp)
  · refine .bind (.rescue hown fun f s₁ h₁ => ?_) fun _ s' _ hs' => .tell hs' (by simp)
    refine .bind (.quiet (Q := fun _ _ => True) ?_ fun _ _ => trivial) fun _ s₂ _ h₂ => ?_
    · exact Stands.of_keeps h₁ fun _ => Act.keeps_noteFailure f
    · refine .bind (.tell h₂ (by simp)) fun _ s₃ _ h₃ => ?_
      exact hhandler s₃ (Stands.trans h₁ (Stands.trans h₂ h₃))

/-- The rounds of a loop. Where the last one leaves the cursor there will be a line later on. -/
theorem rounds {itemName indexName : Value} {anchor : Option Cursor} {body : Nat → Watched Unit}
    (hbody : ∀ k n s, Stands n s → Secure root s (fun _ _ => True) (body k s))
    (values : List Value) (k : Nat) {last : Option Cursor} {s : Scene} (hs : Stands n s)
    (hanchor : Onto s.height anchor) (hlast : Onto s.height last) :
    Secure root s (fun last s' => Onto s'.height last)
      (rounds p itemName indexName anchor body k last values s) := by
  induction values generalizing n k last s with
  | nil => exact .pure hs hlast
  | cons item rest ih =>
    rw [Watched.rounds]
    refine .bind (Q := fun _ _ => True) (.own (firm_enterRound hs hanchor) fun _ _ _ => trivial)
      fun _ s₁ _ h₁ => ?_
    refine .bind (hbody k _ s₁ h₁) fun _ s₂ _ h₂ => ?_
    refine .bind (Q := fun c s => c = s.context) (.quiet (Stands.refl h₂) fun c hc => ?_)
      fun c s₃ hc h₃ => ?_
    · cases hc
      rfl
    · have hcursor : Onto s₃.height c.cursor := hc ▸ Stands.onto h₃
      split
      · exact .pure h₃ hcursor
      · have hheight := (Stands.trans h₁ (Stands.trans h₂ h₃)).le_height
        exact ih _ h₃ (hanchor.mono hheight) hcursor

theorem loop {reference : String} {itemName : Value} {indexName : Option Value}
    {body : Nat → Watched Unit}
    (hbody : ∀ k n s, Stands n s → Secure root s (fun _ _ => True) (body k s)) (hs : Stands n s) :
    Secure root s (fun _ _ => True) (loop p reference itemName indexName body s) := by
  refine .bind (Q := fun _ _ => True) (.own (firm_items reference hs) fun _ _ _ => trivial)
    fun values s₁ _ h₁ => ?_
  refine .bind (Q := fun anchor s => Onto s.height anchor) (.quiet (Stands.refl h₁) fun a ha => ?_)
    fun anchor s₂ hanchor h₂ => ?_
  · cases ha
    exact Stands.onto_anchor h₁
  refine .bind (.rescue (.rounds hbody values 0 h₂ hanchor hanchor) fun f s₃ h₃ => ?_)
    fun last s₃ hlast h₃ => ?_
  · refine .quiet (Stands.of_keeps h₃ fun _ => .bind (Act.keeps_dropNames _ _) fun _ => .throw f) ?_
    -- the failure goes on: there is no result
    intro a ha
    obtain ⟨_, _, _, hthrow⟩ := Act.of_run_bind_ok (Prod.ext ha rfl)
    cases hthrow
  · refine .bind (Q := fun _ _ => True) (.own (firm_dropNames _ _ h₃) fun _ _ _ => trivial)
      fun _ s₄ _ h₄ => ?_
    exact .own (firm_moveBack h₄ (hlast.mono (Stands.le_height h₄))) fun _ _ _ => trivial

end Secure

namespace Watched

variable {root : List Action} (engine : Runner)

mutual

theorem secure_action : ∀ (a : Action) (p : Spot), actionAt? root p = some a → ∀ n s, Stands n s →
    Secure root s (fun _ _ => True) (action engine.perform p a s)
  | .step leaf onError line, p, ha, _, s, hs => by
    rw [action]
    refine .attempt hs (fun s' h =>
      secure_sequence onError (p.inside .handler) 0 (sequenceAt_inside ha _) _ s' h) ?_
    exact fun s' h => .step ha (onward_perform engine leaf h) fun hseeks =>
      (firm_perform engine h hseeks).inRange
  | .branch condition yes no onError line, p, ha, _, s, hs => by
    rw [action]
    refine .attempt hs (fun s' h =>
      secure_sequence onError (p.inside .handler) 0 (sequenceAt_inside ha _) _ s' h) ?_
    refine fun s₁ h₁ => .bind (Q := fun _ _ => True) (.own (firm_holds condition h₁)
      fun _ _ _ => trivial) fun b s₂ _ h₂ => ?_
    split
    · exact secure_sequence yes (p.inside .yes) 0 (sequenceAt_inside ha _) _ s₂ h₂
    · exact secure_sequence no (p.inside .no) 0 (sequenceAt_inside ha _) _ s₂ h₂
  | .loop reference itemName indexName body onError line, p, ha, _, s, hs => by
    rw [action]
    refine .attempt hs (fun s' h =>
      secure_sequence onError (p.inside .handler) 0 (sequenceAt_inside ha _) _ s' h) ?_
    refine fun s₁ h₁ => .loop (fun k n s hs => ?_) h₁
    exact secure_sequence body (p.inside (.round k)) 0 (sequenceAt_inside ha _) n s hs

theorem secure_sequence : ∀ (as : List Action) (route : Route) (i : Nat),
    (sequenceAt root route).drop i = as → ∀ n s, Stands n s →
      Secure root s (fun _ _ => True) (sequence engine.perform route i as s)
  | [], _, _, _, _, s, hs => .pure hs trivial
  | first :: rest, route, i, h, _, s, hs => by
    obtain ⟨hi, hrest⟩ := actionAt?_of_drop h
    rw [sequence_cons]
    split
    · exact .pure hs trivial
    · exact (secure_action first _ hi _ s hs).bind fun _ s' _ h' =>
        secure_sequence rest route (i + 1) hrest _ s' h'

end

end Watched

section Runs

variable (engine : Runner) (config : Config) (kind : String) {scene : Scene} {n : Nat}

theorem secure_trailOf (hs : Stands n scene) :
    Secure (actionsOf config kind) scene (fun _ _ => True)
      (trailOf engine.perform config kind scene) := by
  have henter : Stands n (scene.enter config kind) := hs
  obtain ⟨honward, hspares, -⟩ :=
    Watched.secure_sequence engine (actionsOf config kind) [] 0 List.drop_zero n _ henter
  -- entering changes neither the buffer nor the cursor
  obtain ⟨hfirst, hrest⟩ := List.pairwise_cons.1 honward
  exact ⟨List.pairwise_cons.2 ⟨hfirst, hrest⟩, hspares, fun _ _ => trivial⟩

/-- A run that ends stands as its last scene does. -/
theorem onward_execute (hs : Stands n scene) :
    Onward scene (engine.execute config kind scene).2 ∧
      (engine.execute config kind scene).1.context.cursor =
        (engine.execute config kind scene).2.context.cursor := by
  have hlast := (secure_trailOf engine config kind hs).last
  unfold Runner.execute executeWith
  cases hc : config.trigger? kind with
  | none => exact ⟨hs.refl, rfl⟩
  | some trigger =>
    simp only [run_trigger hc]
    cases (trailOf engine.perform config kind scene).result with
    | error f => exact ⟨hlast, rfl⟩
    | ok => exact ⟨hlast, rfl⟩

end Runs

section Enter

variable {b : Binding} {d : Desk} {buffer : Buffer}

/-- The line that tells of a failed run, below a line. -/
def Binding.noteOf (b : Binding) (line : String) (o : Outcome) : String :=
  Text.leadingBlanks line ++ b.engine.settings.indentUnit ++ errorBullet ++ " Error: " ++
    ((o.error.map (·.message)).getD "None")

/-- The note goes below a line that is there. -/
theorem run_noteBelow (b : Binding) {o : Outcome} (hbuffer : d.buffer = some buffer)
    (hline : buffer.HasLine (o.context.cursor.getD buffer.cursor).line) :
    ∃ line buffer', buffer.line (o.context.cursor.getD buffer.cursor).line = .ok line ∧
      (b.noteBelow o).run d = (.ok (), { d with buffer := some buffer' }) ∧
      buffer'.lines = (buffer.insertLines (o.context.cursor.getD buffer.cursor).line
        [b.noteOf line o]).lines := by
  obtain ⟨line, hread⟩ := hline.line_ok
  have hsome : (buffer.insertLines (o.context.cursor.getD buffer.cursor).line
      [b.noteOf line o]).lines ≠ [] := by
    rw [← List.length_pos_iff, Buffer.length_insertLines]
    simp
  obtain ⟨buffer', hset, hsame⟩ := Buffer.setCursor_ok hsome
    ⟨(o.context.cursor.getD buffer.cursor).line, line.length⟩
  rw [Binding.noteOf] at hset
  refine ⟨line, buffer', hread, ?_, congrArg Prod.fst hsame⟩
  simp only [Binding.noteBelow, Deal.run_bind, Deal.run_get, hbuffer, Deal.run_ofResult, hread,
    hset, Deal.run_modify]

/-- What an entered line in a buffer sets going: the trigger runs in a scene with that buffer, and a
note is left if the run fails. -/
theorem run_onEnter (b : Binding) (document : Option String) (htrigger : b.hasTrigger .onEnter)
    (hitem : d.item = none) (hbuffer : d.buffer = some buffer)
    (hline : buffer.HasLine buffer.cursor.line) :
    ∃ start : Context, start.cursor = some buffer.cursor ∧
      let scene : Scene := ⟨d.world, none, some buffer, start⟩
      let ended := b.engine.execute b.config TriggerKind.onEnter.text scene
      (b.onEnter document).run d = (do
        if !ended.1.success then b.noteBelow ended.1
        return some ended.1 : Deal (Option Outcome)).run
          { d with world := ended.2.world, buffer := ended.2.buffer } := by
  obtain ⟨line, hread⟩ := hline.line_ok
  obtain ⟨start, hstart, hcursor⟩ : ∃ start, Context.start none none document (some buffer)
      TriggerKind.onEnter.text b.config.tag (b.varsWith []) = .ok start ∧
        start.cursor = some buffer.cursor := by
    simp only [Context.start, hread]
    exact ⟨_, rfl, rfl⟩
  refine ⟨start, hcursor, ?_⟩
  intro scene ended
  have hnone : ended.2.item = none := by
    have hpath := execute_path b.engine b.config TriggerKind.onEnter.text scene
    exact Option.map_eq_none_iff.1 hpath
  simp only [Binding.onEnter, htrigger, Bool.not_true, Bool.false_eq_true, if_false, Deal.runTrigger,
    Deal.runTriggerAs, Deal.act, Deal.run_bind, Deal.run_get, hitem, hbuffer, if_true,
    Deal.run_ofResult, hstart, Deal.run_set, Deal.run_pure]
  simp only [ended, scene] at hnone ⊢
  simp only [hnone, Option.isNone_none, Bool.and_true]

/-- In a buffer with a line at its cursor, an entered line is answered without a failure. -/
theorem exists_onEnter (b : Binding) (document : Option String) (hitem : d.item = none)
    (hbuffer : d.buffer = some buffer) (hline : buffer.HasLine buffer.cursor.line) :
    ∃ o d' buffer', (b.onEnter document).run d = (.ok o, d') ∧ d'.buffer = some buffer' ∧
      buffer.lines.length ≤ buffer'.lines.length := by
  by_cases htrigger : b.hasTrigger .onEnter
  · obtain ⟨start, hcursor, hrun⟩ := run_onEnter b document htrigger hitem hbuffer hline
    have hstands : Stands buffer.lines.length ⟨d.world, none, some buffer, start⟩ :=
      ⟨rfl, buffer, rfl, Nat.le_refl _, by simpa [hcursor] using hline⟩
    dsimp only at hrun
    obtain ⟨honward, hended⟩ :=
      onward_execute b.engine b.config TriggerKind.onEnter.text hstands
    generalize b.engine.execute b.config TriggerKind.onEnter.text _ = ended at honward hended hrun
    obtain ⟨-, buffer', hbuffer', hlength, hplace⟩ := honward
    rw [← hended] at hplace
    rw [hrun]
    split
    · obtain ⟨_, noted, -, hnote, hlines⟩ := run_noteBelow b (o := ended.1)
        (d := { d with world := ended.2.world, buffer := ended.2.buffer }) hbuffer' hplace
      refine ⟨some ended.1, { d with world := ended.2.world, buffer := some noted }, noted, ?_,
        rfl, ?_⟩
      · simp only [Deal.run_bind, hnote, Deal.run_pure]
      · rw [hlines, Buffer.length_insertLines]
        exact Nat.le_add_right_of_le hlength
    · exact ⟨some ended.1, _, buffer', rfl, hbuffer', hlength⟩
  · exact ⟨none, d, buffer, by simp [Binding.onEnter, htrigger], hbuffer, Nat.le_refl _⟩

end Enter

/-- Wherever a run without an item goes, its cursor is on a line of the buffer, no line is lost, and no
action that looks for a line fails by an index that is out of range. Nor does the note below an
entered line whose run fails. -/
theorem cursor_safe (engine : Runner) (config : Config) (kind : String) {scene : Scene}
    (hscene : Stands 0 scene) (b : Binding) (document : Option String) {d : Desk} {buffer : Buffer}
    (hitem : d.item = none) (hbuffer : d.buffer = some buffer)
    (hline : buffer.HasLine buffer.cursor.line) :
    let t := trailOf engine.perform config kind scene
    (scene :: (t.events.map (·.scene) ++ [t.scene])).Pairwise Onward ∧
      (∀ e ∈ t.events, Spares (actionsOf config kind) e) ∧
      ∃ o d' buffer', (b.onEnter document).run d = (.ok o, d') ∧ d'.buffer = some buffer' ∧
        buffer.lines.length ≤ buffer'.lines.length := by
  obtain ⟨honward, hspares, -⟩ := secure_trailOf engine config kind hscene
  exact ⟨honward, hspares, exists_onEnter b document hitem hbuffer hline⟩

/-- A script that adds a line for each name, and fails below the first one. -/
def listing : Config where
  triggers := [⟨.onEnter, [.loop "names" (.str "name") none
    [.step (.append "\x7b\x7bname\x7d\x7d" 1) [] none,
      .step (.append "\x7b\x7bage\x7d\x7d" 2) [] none] [] none]⟩]
  tag := "list"
  settings := []

/-- The names, and a cursor on the second line. -/
def listingScene : Scene where
  world := bareScene.world
  buffer := some { lines := ["# Names", "- all"], cursor := ⟨1, 0⟩ }
  context := { vars := [("names", .list [.str "a", .str "b"])] }

def listingBinding : Binding := .make "list" bareRunner listing []

theorem cursor_safe_listing :
    let d : Desk := { world := bareScene.world, buffer := listingScene.buffer }
    let t := trailOf bareRunner.perform listing "onEnter" listingScene
    Stands 0 listingScene ∧ (listingScene :: (t.events.map (·.scene) ++ [t.scene])).Pairwise Onward ∧
      (∀ e ∈ t.events, Spares (actionsOf listing "onEnter") e) ∧
      ∃ o d' buffer', (listingBinding.onEnter none).run d = (.ok o, d') ∧
        d'.buffer = some buffer' ∧ 2 ≤ buffer'.lines.length := by
  have hline : Buffer.HasLine { lines := ["# Names", "- all"], cursor := ⟨1, 0⟩ } 1 :=
    ⟨by decide, by decide⟩
  have hscene : Stands 0 listingScene := ⟨rfl, _, rfl, Nat.zero_le _, hline⟩
  exact ⟨hscene, cursor_safe bareRunner listing "onEnter" hscene listingBinding none rfl rfl hline⟩

end BulletScript.Engine
