import BulletScript.Proofs.Engine.Adding
import BulletScript.Proofs.Engine.Children

/-! Loops that append a line to a buffer in each round. Every round comes back to the line where the
loop began, and puts its line at the end of that line's block. Lines that are indented further than
the line are in its block, so that the next ones come behind them; lines that are not end the block,
and the next ones come before them. -/
namespace BulletScript.Engine

open Script Tasks Outline Text

namespace Adding

variable {unit line : String} {after texts : List String} {a : Adding}

theorem toList_bullet (a : Adding) : ∃ c, a.bullet.toList = [c] ∧ isBlank c = false := by
  cases a with
  | append => exact ⟨'-', by rw [bullet]; decide, by decide⟩
  | shell => exact ⟨'+', by rw [bullet]; decide, by decide⟩

theorem not_isBlankText_of_mem_written {l : String} (hl : l ∈ a.written unit line texts) :
    isBlankText l = false := by
  obtain ⟨text, -, rfl⟩ := List.mem_map.1 hl
  obtain ⟨c, hc, hblank⟩ := a.toList_bullet
  exact not_isBlankText_of_mem (by simp [hc]) hblank

theorem written_of_pos (hne : unit ≠ "") (hblank : isBlankText unit = true) (hdepth : 0 < a.depth) :
    ∀ l ∈ a.written unit line texts, isBlankText l = false ∧ indentWidth line < indentWidth l := by
  intro l hl
  refine ⟨not_isBlankText_of_mem_written hl, ?_⟩
  obtain ⟨text, -, rfl⟩ := List.mem_map.1 hl
  obtain ⟨n, hn⟩ : ∃ n, a.depth.toNat = n + 1 := ⟨a.depth.toNat - 1, by omega⟩
  have hdeeper := indentWidth_lt_append hne hblank n line (a.bullet ++ (" " ++ text))
  simpa only [hn, String.append_assoc] using hdeeper

theorem written_of_le_zero (hdepth : a.depth ≤ 0) :
    ∀ l ∈ a.written unit line texts, isBlankText l = false ∧ indentWidth l ≤ indentWidth line := by
  intro l hl
  refine ⟨not_isBlankText_of_mem_written hl, Nat.le_of_eq ?_⟩
  obtain ⟨text, -, rfl⟩ := List.mem_map.1 hl
  obtain ⟨c, hbullet, hc⟩ := a.toList_bullet
  have hzero : a.depth.toNat = 0 := by omega
  have heq : (leadingBlanks line ++ repeated unit a.depth.toNat ++ a.bullet ++ " " ++ text).toList =
      (leadingBlanks line).toList ++ c :: ' ' :: text.toList := by
    simp [hzero, repeated, hbullet]
  rw [indentWidth, leadingBlanks_of_eq heq (leadingBlanks_blank line) hc, String.ofList_toList,
    indentWidth]

/-- A step that is done once for each of some texts, with one text each time. -/
def each (a : Adding) (texts : List String) : List (Adding × List String) :=
  texts.map fun text => (a, [text])

theorem extended_each_cons (unit line text : String) (rest after : List String) :
    extended unit line (a.each (text :: rest)) after = extended unit line (a.each rest)
      (extendBlock (indentWidth line) (a.written unit line [text]) after) := rfl

theorem written_cons (unit line text : String) (rest : List String) :
    a.written unit line (text :: rest) =
      a.written unit line [text] ++ a.written unit line rest := rfl

/-- Lines that belong to the block stay in the order in which they are added. -/
theorem extended_each_of_pos (hne : unit ≠ "") (hblank : isBlankText unit = true)
    (hdepth : 0 < a.depth) : extended unit line (a.each texts) after =
      extendBlock (indentWidth line) (a.written unit line texts) after := by
  induction texts generalizing after with
  | nil => exact (extendBlock_nil _ _).symm
  | cons text rest ih =>
    rw [extended_each_cons, ih, extendBlock_extendBlock_of_deep (written_of_pos hne hblank hdepth),
      ← written_cons]

/-- Lines that do not belong to the block come before those that were added earlier. -/
theorem extended_each_of_le_zero (hdepth : a.depth ≤ 0) : extended unit line (a.each texts) after =
    extendBlock (indentWidth line) (a.written unit line texts).reverse after := by
  induction texts generalizing after with
  | nil => exact (extendBlock_nil _ _).symm
  | cons text rest ih =>
    rw [extended_each_cons, ih, extendBlock_extendBlock_of_flat (written_of_le_zero hdepth),
      written_cons unit line text rest, List.reverse_append]
    rfl

/-- How many lines the block has once a step was done for each of some texts. -/
theorem bodyLength_extended_each (hne : unit ≠ "") (hblank : isBlankText unit = true) :
    bodyLength (indentWidth line) (extended unit line (a.each texts) after) =
      bodyLength (indentWidth line) after + if 0 < a.depth then texts.length else 0 := by
  split
  · next hdepth =>
    rw [extended_each_of_pos hne hblank hdepth,
      bodyLength_extendBlock_of_deep (written_of_pos hne hblank hdepth), written, List.length_map]
  · next hdepth =>
    rw [extended_each_of_le_zero (by omega)]
    refine bodyLength_extendBlock_of_flat fun l hl => ?_
    exact written_of_le_zero (by omega) l (List.mem_reverse.1 hl)

end Adding

/-- The texts that a template has in the rounds of a loop over some values, from the round `k` on. -/
def roundTexts (template item index : String) (vars : Record) (k : Nat) :
    List Value → Result (List String)
  | [] => .ok []
  | v :: rest => do
    let text ← Template.interpolate template ((vars.set item v).set index (.int k))
    return trim text :: (← roundTexts template item index vars (k + 1) rest)

theorem roundTexts_cons_ok {template item index : String} {vars : Record} {k : Nat} {v : Value}
    {rest : List Value} {texts : List String}
    (h : roundTexts template item index vars k (v :: rest) = .ok texts) :
    ∃ text others, Template.interpolate template ((vars.set item v).set index (.int k)) = .ok text ∧
      roundTexts template item index vars (k + 1) rest = .ok others ∧
      texts = trim text :: others := by
  rw [roundTexts] at h
  cases htext : Template.interpolate template ((vars.set item v).set index (.int k)) with
  | error f => simp [htext, bind, Except.bind] at h
  | ok text =>
    cases hothers : roundTexts template item index vars (k + 1) rest with
    | error f => simp [htext, hothers, bind, Except.bind] at h
    | ok others =>
      simp only [htext, hothers, bind, Except.bind, pure, Except.pure, Except.ok.injEq] at h
      exact ⟨text, others, rfl, rfl, h.symm⟩

/-- What every round of the loop finds: the lines of the buffer, and variables that are those from
before the loop once its own are set. -/
structure BetweenRounds (vars : Record) (item index : String) (before : List String) (line : String)
    (after : List String) (s : Scene) : Prop where
  onBuffer : OnBuffer before line after s
  proceeds : s.context.shouldReturn = false
  vars : ∀ v k, (s.context.vars.set item v).set index k = (vars.set item v).set index k

section Rounds

variable {engine : Runner} {vars : Record} {item index template line : String} {indent : Int}
  {before after texts : List String} {cursor : Cursor} {s : Scene} {k : Nat} {v : Value}
  {handlers : List Action} {stepLine : Option Nat}

/-- The end of a line that is put right behind the block of another one. -/
def endBehind (before : List String) (line : String) (below : List String) (l : String) : Cursor :=
  ⟨(before.length + bodyLength (indentWidth line) below + 1 : Nat), l.length⟩

theorem run_append (engine : Runner) (indent : Int) (h : OnBuffer before line after s)
    (hcursor : s.context.cursor = some cursor) (hline : cursor.line = before.length) {text : String}
    (htext : Template.interpolate template s.context.vars = .ok text) :
    ∃ s', (engine.perform (.append template indent)).run s = (.ok (), s') ∧
      Added before line after
        ((Adding.append template indent).written engine.settings.indentUnit line [trim text]) s s' := by
  have htexts : ((Adding.append template indent).texts engine).run s = (.ok [trim text], s) := by
    rw [Adding.texts, Act.run_bind, run_render, htext]
    rfl
  obtain ⟨s', hput, hadded⟩ : ∃ s', ((Adding.append template indent).put engine [trim text]).run s =
      (.ok (), s') ∧ Added before line after
        ((Adding.append template indent).written engine.settings.indentUnit line [trim text]) s s' :=
    h.put hcursor hline
  refine ⟨s', ?_, hadded⟩
  rw [← hput]
  change (engine.perform (Adding.append template indent).step).run s = _
  rw [Adding.perform_step, Act.run_bind, htexts]

/-- A sequence of one step that does not fail. -/
theorem run_sequence_step {step : Step} {s' : Scene} (hproceeds : s.context.shouldReturn = false)
    (hrun : (engine.perform step).run s = (.ok (), s')) :
    (Act.sequence engine.perform [.step step handlers stepLine]).run s = (.ok (), s') := by
  have haction : (Act.action engine.perform (.step step handlers stepLine)).run s = (.ok (), s') := by
    rw [Act.action]
    exact Act.run_handled hrun
  simp only [Act.sequence, Act.run_bind, Act.run_context, hproceeds, Bool.false_eq_true, if_false,
    haction, Act.run_pure]

/-- A round of the loop puts one line at the end of the block. -/
theorem BetweenRounds.round (h : BetweenRounds vars item index before line after s)
    (engine : Runner) (indent : Int) (handlers : List Action) (stepLine : Option Nat)
    (hline : cursor.line = before.length) {text : String}
    (htext : Template.interpolate template ((vars.set item v).set index (.int k)) = .ok text) :
    ∃ s', (do
        Act.enterRound (.str item) (.str index) (some cursor) k v
        Act.sequence engine.perform [.step (.append template indent) handlers stepLine]).run s =
        (.ok (), s') ∧
      BetweenRounds vars item index before line (extendBlock (indentWidth line)
        ((Adding.append template indent).written engine.settings.indentUnit line [trim text]) after)
        s' ∧
      ∀ l ∈ (Adding.append template indent).written engine.settings.indentUnit line [trim text],
        s'.context.cursor = some (endBehind before line after l) := by
  have hset : OnBuffer before line after { s with context := { s.context with
      vars := (s.context.vars.set item v).set index (.int k) } } := ⟨h.onBuffer.item, h.onBuffer.buffer⟩
  obtain ⟨s₁, hmove, hs₁, hcontext⟩ := hset.moveCursor cursor
  have henter : (Act.enterRound (.str item) (.str index) (some cursor) k v).run s = (.ok (), s₁) := by
    simp only [Act.enterRound, Act.run_bind, Act.run_setNamed, Act.variableName, Act.run_set]
    exact hmove
  have hvars : s₁.context.vars = (vars.set item v).set index (.int k) := by
    rw [hcontext, ← h.vars v (.int k)]
  rw [← hvars] at htext
  obtain ⟨s', hrun, hadded⟩ := run_append engine indent hs₁ (congrArg Context.cursor hcontext) hline
    htext
  have hproceeds : s₁.context.shouldReturn = false := by rw [hcontext]; exact h.proceeds
  refine ⟨s', ?_, ⟨hadded.onBuffer, ?_, fun v' k' => ?_⟩, fun l hl => ?_⟩
  · rw [Act.run_bind, henter]
    exact run_sequence_step hproceeds hrun
  · rw [hadded.context]
    exact hproceeds
  · rw [hadded.context]
    change (s₁.context.vars.set item v').set index k' = _
    rw [hvars, Record.set_set_again]
  · rw [List.mem_singleton.1 hl, hadded.cursor _ rfl]
    rfl

/-- The rounds of the loop put their lines at the end of the block, one after the other. -/
theorem BetweenRounds.eachItem {values : List Value} (last : Option Cursor)
    (h : BetweenRounds vars item index before line after s) (engine : Runner) (indent : Int)
    (handlers : List Action) (stepLine : Option Nat) (hline : cursor.line = before.length)
    (htexts : roundTexts template item index vars k values = .ok texts) :
    let a := Adding.append template indent
    let unit := engine.settings.indentUnit
    ∃ last' s', (Act.eachItem (.str item) (.str index) (some cursor)
        (Act.sequence engine.perform [.step (.append template indent) handlers stepLine]) k last
        values).run s = (.ok last', s') ∧
      OnBuffer before line (extended unit line (a.each texts) after) s' ∧
      (texts = [] → last' = last) ∧
      ∀ front text, texts = front ++ [text] → ∀ l ∈ a.written unit line [text],
        last' = some (endBehind before line (extended unit line (a.each front) after) l) := by
  intro a unit
  induction values generalizing after texts s k last with
  | nil =>
    cases htexts
    exact ⟨last, s, rfl, h.onBuffer, fun _ => rfl, fun _ _ heq => by simp at heq⟩
  | cons v rest ih =>
    obtain ⟨text, others, htext, hothers, rfl⟩ := roundTexts_cons_ok htexts
    obtain ⟨s₁, hround, h₁, hcursor⟩ := h.round engine indent handlers stepLine hline htext
    obtain ⟨last', s', hrest, hbuffer, hnil, hlast⟩ := ih s₁.context.cursor h₁ hothers
    refine ⟨last', s', ?_, hbuffer, nofun, fun front text' heq l hl => ?_⟩
    · rw [Act.eachItem, ← bind_assoc, Act.run_bind, hround]
      simp only [Act.run_bind, Act.run_context, h₁.proceeds, Bool.false_eq_true, if_false]
      exact hrest
    · rcases front with _ | ⟨first, front⟩
      · obtain ⟨rfl, rfl⟩ := List.cons.inj heq
        rw [hnil rfl]
        exact hcursor l hl
      · obtain ⟨rfl, rfl⟩ := List.cons.inj heq
        exact hlast front text' rfl l hl

/-- The cursor can be put at the end of every line. -/
theorem OnBuffer.moveCursor_end (h : OnBuffer before line after s) {i : Nat} {l : String}
    (hl : (before ++ line :: after)[i]? = some l) :
    ∃ s' b, (Act.moveCursor ⟨i, l.length⟩).run s = (.ok (), s') ∧
      s'.context.cursor = some ⟨i, l.length⟩ ∧ s'.buffer = some b ∧
      b.lines = before ++ line :: after ∧ b.cursor = ⟨i, l.length⟩ := by
  obtain ⟨b, hbuffer, hb⟩ := h.buffer
  rw [← hb] at hl
  obtain ⟨hlt, -⟩ := List.getElem?_eq_some_iff.1 hl
  have hplace : min (max (i : Int) 0) ((b.lines.length : Int) - 1) = i := by omega
  have hset : b.setCursor ⟨i, l.length⟩ = .ok { b with cursor := ⟨i, l.length⟩ } := by
    simp only [Buffer.setCursor, hplace, Int.toNat_natCast, hl]
    simp
  refine ⟨{ s with
    context := { s.context with cursor := some ⟨i, l.length⟩ }
    buffer := some { b with cursor := ⟨i, l.length⟩ } }, _, ?_, rfl, rfl, hb, rfl⟩
  simp only [Act.moveCursor, Act.run_bind, Act.run_modifyContext, Act.run_get, hbuffer,
    Act.run_ofResult, hset, Act.run_modify]

/-- A loop runs its rounds from the cursor, takes its variables away and goes to the place where the
last round ended. -/
theorem run_forEach {reference : String} {indexName : Option Value} {body : Act Unit}
    {values : List Value} {last : Option Cursor} {s' : Scene}
    (hindex : Act.indexNameOf (.str item) indexName = .str index)
    (hitems : ((Act.items reference).run s).1 = .ok values)
    (hcursor : s.context.cursor.or (s.buffer.map (·.cursor)) = some cursor)
    (hrounds : (Act.eachItem (.str item) (.str index) (some cursor) body 0 (some cursor) values).run s =
      (.ok last, s')) :
    (Act.forEach reference (.str item) indexName body).run s =
      (Act.moveBack last).run { s' with context := { s'.context with
        vars := (s'.context.vars.erase item).erase index } } := by
  have hanchor : Act.anchorCursor.run s = (.ok (some cursor), s) := by
    simp only [Act.anchorCursor, Act.run_bind, Act.run_get, hcursor, Act.run_pure]
  simp only [Act.forEach, hindex, Act.run_bind, Act.run_items hitems, hanchor, Act.run_tryCatch,
    hrounds, Act.run_dropNames]

/-- In the lines with which a loop ends, the last line that it put there is where it was put. -/
theorem getElem?_extended_each (a : Adding) (unit : String) (front : List String) {text l : String}
    (hl : l ∈ a.written unit line [text]) :
    (before ++ line :: extended unit line (a.each (front ++ [text])) after)[before.length +
      bodyLength (indentWidth line) (extended unit line (a.each front) after) + 1]? = some l := by
  have hlast : extended unit line (a.each (front ++ [text])) after = extendBlock (indentWidth line)
      (a.written unit line [text]) (extended unit line (a.each front) after) := by
    simp [extended, Adding.each]
  have hput := getElem?_extendBlock (indentWidth line) (a.written unit line [text])
    (extended unit line (a.each front) after) (show 0 < 1 by decide)
  rw [List.mem_singleton.1 hl, hlast, List.getElem?_append_right (by omega), Nat.add_assoc,
    Nat.add_sub_cancel_left, List.getElem?_cons_succ]
  exact hput

/-- A loop of appends puts its lines at the end of the block, one after the other, and ends at the
end of the last one. -/
theorem BetweenRounds.loop {values : List Value} {reference : String} {indexName : Option Value}
    {onError : List Action} {loopLine : Option Nat}
    (h : BetweenRounds s.context.vars item index before line after s)
    (engine : Runner) (indent : Int) (handlers : List Action) (stepLine : Option Nat)
    (hcursor : s.context.cursor.or (s.buffer.map (·.cursor)) = some cursor)
    (hline : cursor.line = before.length)
    (hindex : Act.indexNameOf (.str item) indexName = .str index)
    (hitems : ((Act.items reference).run s).1 = .ok values)
    (htexts : roundTexts template item index s.context.vars 0 values = .ok texts) :
    let a := Adding.append template indent
    let unit := engine.settings.indentUnit
    ∃ s' b, (Act.action engine.perform (.loop reference (.str item) indexName
        [.step (.append template indent) handlers stepLine] onError loopLine)).run s =
        (.ok (), s') ∧
      s'.buffer = some b ∧ b.lines = before ++ line :: extended unit line (a.each texts) after ∧
      ∀ front text, texts = front ++ [text] → ∀ l ∈ a.written unit line [text],
        let position := endBehind before line (extended unit line (a.each front) after) l
        s'.context.cursor = some position ∧ b.cursor = position := by
  intro a unit
  obtain ⟨last, s₁, hrounds, hbuffer, hnil, hlast⟩ :=
    h.eachItem (some cursor) engine indent handlers stepLine hline htexts
  have hforEach := run_forEach hindex hitems hcursor hrounds
  have hdropped : OnBuffer before line (extended unit line (a.each texts) after) { s₁ with
      context := { s₁.context with vars := (s₁.context.vars.erase item).erase index } } :=
    ⟨hbuffer.item, hbuffer.buffer⟩
  have haction {s' : Scene} (hmove : (Act.moveBack last).run { s₁ with context := { s₁.context with
      vars := (s₁.context.vars.erase item).erase index } } = (.ok (), s')) :
      (Act.action engine.perform (.loop reference (.str item) indexName
        [.step (.append template indent) handlers stepLine] onError loopLine)).run s =
        (.ok (), s') := by
    rw [Act.action]
    exact Act.run_handled (hforEach.trans hmove)
  rcases List.eq_nil_or_concat texts with rfl | ⟨front, text, rfl⟩
  · obtain ⟨s', hmove, ⟨-, b, hb, hlines⟩, -⟩ := hdropped.moveCursor cursor
    rw [hnil rfl] at haction
    exact ⟨s', b, haction hmove, hb, hlines, fun front text heq => by simp at heq⟩
  · rw [List.concat_eq_append] at *
    obtain ⟨l, hl⟩ : ∃ l, a.written unit line [text] = [l] := ⟨_, rfl⟩
    obtain ⟨s', b, hmove, hcontext, hb, hlines, hplace⟩ := hdropped.moveCursor_end
      (getElem?_extended_each a unit front (hl ▸ List.mem_singleton_self l))
    rw [hlast front text rfl l (hl ▸ List.mem_singleton_self l)] at haction
    refine ⟨s', b, haction hmove, hb, hlines, fun front' text' heq l' hl' => ?_⟩
    obtain ⟨rfl, hsame⟩ := List.append_inj' heq rfl
    obtain rfl := List.singleton_inj.1 hsame
    rw [hl] at hl'
    obtain rfl := List.mem_singleton.1 hl'
    exact ⟨hcontext, hplace⟩

end Rounds

/-- A loop that appends a line for each of its items to a buffer puts them right behind the block of
the line where it began, and ends at the end of the line that it put there last. The lines are in the
order of the items if they are indented further than that line, and else in the opposite order. -/
theorem appending_loop_lines {engine : Runner} {s : Scene} {before after texts : List String}
    {line template item index reference : String} {indexName : Option Value} {values : List Value}
    {cursor : Cursor} (indent : Int) (handlers stepHandlers : List Action)
    (loopLine stepLine : Option Nat) (hne : engine.settings.indentUnit ≠ "")
    (hblank : isBlankText engine.settings.indentUnit = true) (h : OnBuffer before line after s)
    (hproceeds : s.context.shouldReturn = false)
    (hcursor : s.context.cursor.or (s.buffer.map (·.cursor)) = some cursor)
    (hline : cursor.line = before.length)
    (hindex : Act.indexNameOf (.str item) indexName = .str index)
    (hitems : ((Act.items reference).run s).1 = .ok values)
    (htexts : roundTexts template item index s.context.vars 0 values = .ok texts) :
    let loop := Action.loop reference (.str item) indexName
      [.step (.append template indent) stepHandlers stepLine] handlers loopLine
    let new := (Adding.append template indent).written engine.settings.indentUnit line texts
    let width := indentWidth line
    ∃ s' b, (Act.action engine.perform loop).run s = (.ok (), s') ∧ s'.buffer = some b ∧
      b.lines = before ++ line :: extendBlock width (if 0 < indent then new else new.reverse) after ∧
      (∀ last ∈ new.getLast?, ∃ place : Nat,
        place = before.length + bodyLength width after + (if 0 < indent then new.length else 1) ∧
        b.lines[place]? = some last ∧ b.cursor = ⟨place, last.length⟩ ∧
        s'.context.cursor = some b.cursor) ∧
      (b.lines = before ++ line :: extendBlock width new after ↔
        0 < indent ∨ new.reverse = new) := by
  intro loop new width
  let a := Adding.append template indent
  let unit := engine.settings.indentUnit
  have hbetween : BetweenRounds s.context.vars item index before line after s :=
    ⟨h, hproceeds, fun _ _ => rfl⟩
  obtain ⟨s', b, hrun, hb, hlines, hlast⟩ :=
    hbetween.loop engine indent stepHandlers stepLine hcursor hline hindex hitems htexts
  have hextended : extended unit line (a.each texts) after =
      extendBlock width (if 0 < indent then new else new.reverse) after := by
    split
    · next hpos => exact Adding.extended_each_of_pos hne hblank hpos
    · next hpos => exact Adding.extended_each_of_le_zero (Int.not_lt.1 hpos)
  refine ⟨s', b, hrun, hb, hextended ▸ hlines, fun last hmem => ?_, ?_⟩
  · rcases List.eq_nil_or_concat texts with rfl | ⟨front, text, rfl⟩
    · cases hmem
    · rw [List.concat_eq_append] at *
      obtain ⟨l, hl⟩ : ∃ l, a.written unit line [text] = [l] := ⟨_, rfl⟩
      have hnew : new = a.written unit line front ++ [l] := by
        rw [← hl]
        simp [new, a, unit, Adding.written]
      obtain rfl : l = last := by simpa [hnew] using hmem
      have hmem := hl ▸ List.mem_singleton_self l
      obtain ⟨hcontext, hplace⟩ := hlast front text rfl l hmem
      have hat : (before ++ line :: extended unit line (a.each (front ++ [text])) after)[_]? = some l :=
        getElem?_extended_each a unit front hmem
      have hlength : new.length = front.length + 1 := by simp [new, Adding.written]
      rw [endBehind, Adding.bodyLength_extended_each hne hblank] at hcontext hplace
      rw [Adding.bodyLength_extended_each hne hblank] at hat
      refine ⟨_, ?_, hlines ▸ hat, hplace, hplace ▸ hcontext⟩
      have hdepth : a.depth = indent := rfl
      have hwidth : width = indentWidth line := rfl
      rw [hdepth, hwidth]
      split <;> omega
  · rw [hlines, hextended, List.append_right_inj, List.cons_inj_right, extendBlock_inj]
    split
    · next hpos => simp [hpos]
    · next hpos => simp [hpos]

/-- A list of shops with the cursor on one of them, and what is to be bought there. -/
def shopping : Scene where
  world := weekItem.world
  buffer := some { lines := ["# Shops", "- Grocer", "  - tea", "- Baker"], cursor := ⟨1, 3⟩ }
  context := { vars := [("items", .list [.str "milk", .str "eggs"])] }

/-- A loop that appends each item at some depth below the line of the cursor. -/
def buying (indent : Int) : Action :=
  .loop "items" (.str "item") none [.step (.append "\x7b\x7bitem\x7d\x7d" indent) [] none] [] none

theorem onBuffer_shopping : OnBuffer ["# Shops"] "- Grocer" ["  - tea", "- Baker"] shopping :=
  ⟨rfl, _, rfl, rfl⟩

theorem items_shopping :
    ((Act.items "items").run shopping).1 = .ok [.str "milk", .str "eggs"] :=
  Act.items_of_name (by decide +kernel) (by decide +kernel) (by cbv) rfl

theorem appending_loop_lines_shopping :
    ∃ s' b, (Act.action weekEngine.perform (buying 1)).run shopping = (.ok (), s') ∧
      s'.buffer = some b ∧
      b.lines = ["# Shops", "- Grocer", "  - tea", "  - milk", "  - eggs", "- Baker"] ∧
      b.cursor = ⟨4, 8⟩ := by
  have htexts : roundTexts "\x7b\x7bitem\x7d\x7d" "item" "item_index" shopping.context.vars 0
      [.str "milk", .str "eggs"] = .ok ["milk", "eggs"] := eq_ok_of_toOption (by decide +kernel)
  have hindex : Act.indexNameOf (.str "item") none = .str "item_index" := by cbv
  obtain ⟨s', b, hrun, hb, hlines, hlast, -⟩ := appending_loop_lines 1 [] [] none none
    (show weekEngine.settings.indentUnit ≠ "" by decide) (by decide) onBuffer_shopping rfl rfl rfl
    hindex items_shopping htexts
  have hnew : (Adding.append "\x7b\x7bitem\x7d\x7d" 1).written weekEngine.settings.indentUnit
      "- Grocer" ["milk", "eggs"] = ["  - milk", "  - eggs"] := by decide +kernel
  rw [hnew] at hlines hlast
  obtain ⟨place, hplace, -, hcursor, -⟩ := hlast "  - eggs" rfl
  have hfour : place = 4 := hplace.trans (by decide +kernel)
  refine ⟨s', b, hrun, hb, hlines.trans (by decide +kernel), ?_⟩
  rw [hcursor, hfour]
  decide +kernel

/-- At the depth of the line itself the items come in the opposite order. -/
theorem appending_loop_reversed_shopping :
    let run := (Act.action weekEngine.perform (buying 0)).run shopping
    let lines := run.2.buffer.map (·.lines)
    run.1.toOption = some () ∧
      lines = some ["# Shops", "- Grocer", "  - tea", "- eggs", "- milk", "- Baker"] ∧
      lines ≠ some ("# Shops" :: "- Grocer" ::
        extendBlock (indentWidth "- Grocer") ["- milk", "- eggs"] ["  - tea", "- Baker"]) := by
  decide +kernel

end BulletScript.Engine
