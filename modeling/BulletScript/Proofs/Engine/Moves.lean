import BulletScript.Proofs.Engine.Steps
import BulletScript.Proofs.Text.Lines

/-! Buffers that keep at least one line. In such a buffer a cursor can be moved anywhere, and no run
takes its last line away. -/
namespace BulletScript

/-- A buffer without its cursor. -/
def Buffer.unplaced (b : Buffer) : List String × String := (b.lines, b.selection)

theorem Buffer.setCursor_ok {b : Buffer} (h : b.lines ≠ []) (position : Cursor) :
    ∃ b', b.setCursor position = .ok b' ∧ b'.unplaced = b.unplaced := by
  have hlen : 0 < b.lines.length := List.length_pos_iff.2 h
  unfold setCursor
  dsimp only
  generalize hline : min (max position.line 0) ((b.lines.length : Int) - 1) = line
  have hlt : line.toNat < b.lines.length := by omega
  rw [List.getElem?_eq_getElem hlt]
  exact ⟨_, rfl, rfl⟩

theorem Buffer.lines_ne_nil_of_setCursor {b b' : Buffer} {position : Cursor}
    (h : b.setCursor position = .ok b') : b'.lines ≠ [] := by
  simp only [setCursor] at h
  split at h
  · cases h
    rename_i hline
    intro hnil
    simp [show b.lines = [] from hnil] at hline
  · cases h

namespace Engine

open Script

/-- A buffer in which every position can be approached. -/
def Sturdy (b : Option Buffer) (_ : Option Cursor) : Prop := ∀ b', b = some b' → b'.lines ≠ []

namespace Act

theorem run_moveCursor {s : Scene} (h : OnEdit Sturdy s) (position : Cursor) :
    ∃ b, (moveCursor position).run s =
        (.ok (), { s with context := { s.context with cursor := some position }, buffer := b }) ∧
      b.map Buffer.unplaced = s.buffer.map Buffer.unplaced := by
  cases hb : s.buffer with
  | none =>
    refine ⟨none, ?_, rfl⟩
    simp only [moveCursor, run_bind, run_modifyContext, run_get, hb, run_pure]
  | some b =>
    obtain ⟨b', hset, hsame⟩ := Buffer.setCursor_ok (h b hb) position
    refine ⟨some b', ?_, by simp [hsame]⟩
    simp only [moveCursor, run_bind, run_modifyContext, run_get, hb, run_ofResult, hset, run_modify]

theorem run_moveBack {s : Scene} (h : OnEdit Sturdy s) (position : Option Cursor) :
    ∃ s', (moveBack position).run s = (.ok (), s') ∧
      s'.context = { s.context with cursor := position.or s.context.cursor } := by
  cases position with
  | none => exact ⟨s, rfl, rfl⟩
  | some position =>
    obtain ⟨b, hrun, -⟩ := run_moveCursor h position
    exact ⟨_, hrun, rfl⟩

theorem keeps_moveCursor (position : Cursor) : Keeps (OnEdit Sturdy) (moveCursor position) := by
  intro s hs
  obtain ⟨b, hrun, hsame⟩ := run_moveCursor hs position
  rw [hrun]
  intro b' hb'
  change b = some b' at hb'
  subst hb'
  cases hb : s.buffer with
  | none => simp [hb] at hsame
  | some b₀ =>
    have h₀ := hs b₀ hb
    simp only [hb, Option.map_some, Option.some.injEq, Buffer.unplaced, Prod.mk.injEq] at hsame
    rwa [hsame.1]

/-- A cursor is only moved in a buffer that has lines. -/
theorem sturdy_of_moveCursor {position : Cursor} {s s' : Scene}
    (h : (moveCursor position).run s = (.ok (), s')) : OnEdit Sturdy s' := by
  cases hb : s.buffer with
  | none =>
    simp only [moveCursor, run_bind, run_modifyContext, run_get, hb, run_pure] at h
    cases h
    exact fun b' hb' => by cases hb'
  | some b =>
    simp only [moveCursor, run_bind, run_modifyContext, run_get, hb, run_ofResult] at h
    cases hset : b.setCursor position with
    | error f =>
      simp only [hset] at h
      cases h
    | ok b' =>
      simp only [hset, run_modify] at h
      cases h
      intro b'' hb''
      cases hb''
      exact Buffer.lines_ne_nil_of_setCursor hset

/-- After a loop has entered a round, its cursor can be moved. -/
theorem sturdy_of_enterRound {itemName indexName item : Value} {anchor : Option Cursor} {k : Nat}
    {s s' : Scene} (h : (enterRound itemName indexName anchor k item).run s = (.ok (), s'))
    (hs : anchor = none → OnEdit Sturdy s) : OnEdit Sturdy s' := by
  cases anchor with
  | none =>
    have := keeps_enterRound keeps_moveCursor itemName indexName none k item s (hs rfl)
    rwa [h] at this
  | some position =>
    rw [enterRound] at h
    obtain ⟨_, s₁, _, h⟩ := of_run_bind_ok h
    obtain ⟨_, s₂, _, h⟩ := of_run_bind_ok h
    exact sturdy_of_moveCursor h

theorem keeps_setBuffer {b : Buffer} (h : b.lines ≠ []) : Keeps (OnEdit Sturdy) (setBuffer b) := by
  intro s _ b' hb'
  cases hb'
  exact h

theorem splice_ne_nil {α : Type} {items new : List α} (start stop : Int) (h : new ≠ []) :
    splice items start stop new ≠ [] := by
  simp [splice, h]

theorem keeps_insertBelow (engine : Runner) (bullet : String) (entries : List (Int × String)) :
    Keeps (OnEdit Sturdy) (insertBelow engine bullet entries) := by
  rw [insertBelow]
  refine .bind keeps_buffer fun b => .bind keeps_currentCursor fun cursor => ?_
  refine .bind (.ofResult _) fun line => ?_
  dsimp only
  split
  · exact .pure _
  · rename_i last hlast
    refine .bind (.ofResult _) fun stop => .bind (keeps_setBuffer (splice_ne_nil _ _ ?_)) fun _ =>
      keeps_moveCursor _
    intro hnil
    simp [hnil] at hlast

theorem keeps_transformBuffer (engine : Runner) (buffer : Buffer) (template : String)
    (mode : TransformMode) (children : List ChildTemplate) :
    Keeps (OnEdit Sturdy) (transformBuffer engine buffer template mode children) := by
  rw [transformBuffer]
  refine .bind keeps_currentCursor fun cursor => .bind (.ofResult _) fun line => ?_
  refine .bind (keeps_bufferEntries _ _ _ _) fun (first, entries) => ?_
  refine .bind (keeps_setBuffer (splice_ne_nil _ _ (Text.lines_ne_nil _))) fun _ => ?_
  exact .bind (keeps_moveCursor _) fun _ => keeps_setLine _

theorem keepsWriting_sturdy (engine : Runner) : KeepsWriting engine fun _ => Sturdy where
  insertBelow := keeps_insertBelow engine
  transformBuffer buffer template mode children s _ hs :=
    keeps_transformBuffer engine buffer template mode children s hs

theorem keeps_sturdy (engine : Runner) (as : List Action) :
    Keeps (OnEdit Sturdy) (sequence engine.perform as) :=
  keeps_sequence keeps_moveCursor (keeps_perform (keepsWriting_sturdy engine)) as

end Act

end Engine

end BulletScript
