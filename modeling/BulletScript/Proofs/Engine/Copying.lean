import BulletScript.Proofs.Engine.Routing
import BulletScript.Proofs.Value.Literals
import BulletScript.Proofs.Template.Segments
import BulletScript.Proofs.Template.Slots

/-! Values that go through text. A list, a mapping, a truth value or a whole number is written by a
template so that the literal that is read from the text is that value, and so the steps that read
the text of a template copy it. -/
namespace BulletScript

section Literals

variable {s : String} {v : Value}

/-- The text of a list stands between brackets. -/
theorem enclosed_of_write_list {items : List Value}
    (h : Json.write Json.compact Json.plainString (.list items) = .ok s) :
    ∃ inner, s.toList = '[' :: inner ++ [']'] := by
  rw [Json.write] at h
  cases hitems : Json.writeItems Json.compact Json.plainString items with
  | error fault => simp [hitems, bind, Except.bind] at h
  | ok texts =>
    simp only [hitems, bind, Except.bind, pure, Except.pure, Except.ok.injEq] at h
    exact ⟨_, by rw [← h, String.toList_append, String.toList_append]; rfl⟩

/-- The text of a mapping stands between braces. -/
theorem enclosed_of_write_map {entries : Record}
    (h : Json.write Json.compact Json.plainString (.map entries) = .ok s) :
    ∃ inner, s.toList = '\x7b' :: inner ++ ['\x7d'] := by
  rw [Json.write] at h
  cases hentries : Json.writeEntries Json.compact Json.plainString entries with
  | error fault => simp [hentries, bind, Except.bind] at h
  | ok texts =>
    simp only [hentries, bind, Except.bind, pure, Except.pure, Except.ok.injEq] at h
    exact ⟨_, by rw [← h, String.toList_append, String.toList_append]; rfl⟩

/-- What a template prints for data is a literal for it, unless it is a text or null. -/
theorem parseLiteral_templateText (h : v.IsData) (hnull : v ≠ .null) (htext : ∀ s, v ≠ .str s) :
    parseLiteral v.templateText = v := by
  obtain ⟨text, hwrite, hspells⟩ := Json.written_of_isData h
  cases h with
  | null => exact absurd rfl hnull
  | bool b => cases b <;> rfl
  | int hn => exact parseLiteral_intText hn
  | str s => exact absurd rfl (htext s)
  | list _ =>
    obtain ⟨inner, hinner⟩ := enclosed_of_write_list hwrite
    rw [Value.templateText, hwrite]
    exact parseLiteral_of_enclosed hinner (by decide) (by decide) hspells.read?
  | map _ _ =>
    obtain ⟨inner, hinner⟩ := enclosed_of_write_map hwrite
    rw [Value.templateText, hwrite]
    exact parseLiteral_of_enclosed hinner (by decide) (by decide) hspells.read?

theorem entriesWritable_fields {fields : List (String × Value)} (h : ∀ e ∈ fields, e.2.isWritable) :
    Value.entriesWritable (fields.map fun e => (.str e.1, e.2)) := by
  induction fields with
  | nil => rfl
  | cons field fields ih =>
    obtain ⟨hfield, hrest⟩ := List.forall_mem_cons.1 h
    simp [Value.entriesWritable, Key.isWritable, hfield, ih hrest]

theorem Value.IsData.isWritable (h : v.IsData) : v.isWritable := by
  induction h with
  | null | bool | str => rfl
  | int hn => exact hn
  | @list items _ ih =>
    rw [Value.isWritable, Json.areWritable_eq_all]
    exact List.all_eq_true.2 ih
  | map _ _ ih =>
    rw [Value.isWritable]
    exact entriesWritable_fields ih

end Literals

namespace Template

variable {vars : Record} {name : String} {v : Value}

theorem isInner_of_plain (hname : IsPlainName name) : IsInner name := by
  have hfresh : '\x7d' ∉ name.toList := by
    intro hmem
    rcases hname.chars.2 _ hmem with h | h
    · exact absurd h (by decide)
    · cases h
  exact isInner_iff.2 ⟨Text.cutChars_double_of_not_mem hfresh,
    fun hlast => hfresh (List.mem_of_getLast? hlast)⟩

/-- A plain name is a token. -/
theorem tokenOf?_plain (hname : IsPlainName name) :
    tokenOf? name = .ok (some ⟨name, .simple, rawText name⟩) := by
  obtain ⟨-, hchars⟩ := hname.chars
  have hspan : (name.toList ++ []).span isTokenRest = (name.toList, []) :=
    Text.span_append (fun c hc => (plainChar (hchars c hc)).2.2) (by simp)
  obtain ⟨c, cs, hcs, hstart, -⟩ := hname
  have hblank : Text.isBlank c = false := (plainChar (hchars c (by simp [hcs]))).2.1
  have hleft : Text.trimLeftChars name.toList = name.toList := by
    simp [Text.trimLeftChars, hcs, hblank]
  have hcut : cutName name.toList = some (name.toList, []) := by
    rw [List.append_nil, hcs] at hspan
    rw [hcs, cutName, if_pos hstart, hspan]
    simp [cutIndexes]
  have hkind : kindOf name [] = .ok (some .simple) := rfl
  rw [tokenOf?, hleft, hcut]
  simp only [bind, Except.bind, hkind, pure, Except.pure, Option.map_some, String.ofList_toList]

/-- A placeholder with a plain name becomes the text of its value. -/
theorem interpolate_rawText (hname : IsPlainName name) (hcursor : name ≠ "cursor")
    (hvars : vars.get? (.str name) = some v) (hwritable : v.isWritable) :
    interpolate (rawText name) vars = .ok v.templateText := by
  have htoken := tokenOf?_plain hname
  have hvalue : placeholderValue vars true name = .ok v := by
    rw [placeholderValue, htoken]
    simp only [bind, Except.bind, resolvePath_of_plain hname, hvars, Value.checkWritable,
      if_pos hwritable]
    rfl
  rw [interpolate, interpolateWith, segments_rawText (isInner_of_plain hname)]
  simp only [bind, Except.bind, segmentsText, segmentText, isCursor_eq_false htoken hcursor, hvalue]
  simp [pure, Except.pure]

end Template

namespace Engine

open Template (IsPlainName rawText)

variable {s : Scene} {name : String} {v : Value}

theorem run_render_rawText (hname : IsPlainName name) (hcursor : name ≠ "cursor")
    (hvars : s.context.vars.get? (.str name) = some v) (hwritable : v.isWritable) :
    (Act.render (rawText name)).run s = (.ok v.templateText, s) := by
  rw [Act.render, Act.run_bind, Act.run_context]
  exact congrArg (·, s) (Template.interpolate_rawText hname hcursor hvars hwritable)

/-- Data that is no text and not null survives the passage through text: what a template prints for
it is a literal for it, and so a step that sets a variable to a placeholder, or returns one, copies
the value of its name. Nothing else of the scene changes. -/
theorem data_copied_through_text (hdata : v.IsData) (hnull : v ≠ .null)
    (htext : ∀ text, v ≠ .str text) :
    parseLiteral v.templateText = v ∧
      ∀ (engine : Runner) (s : Scene) (name : String), IsPlainName name → name ≠ "cursor" →
        s.context.vars.get? (.str name) = some v →
        (∀ (target : String) (source : Value),
          (engine.perform (.set target (rawText name) none source)).run s = (.ok (),
            { s with context := { s.context with vars := s.context.vars.set target v } })) ∧
        (engine.perform (.return (some (rawText name)))).run s = (.ok (),
          { s with context := { s.context with returnValue := v, shouldReturn := true } }) := by
  have hliteral := parseLiteral_templateText hdata hnull htext
  refine ⟨hliteral, fun engine s name hname hcursor hvars => ?_⟩
  have hrender := run_render_rawText hname hcursor hvars hdata.isWritable
  constructor
  · intro target source
    change (Act.render (rawText name) >>= fun text => Act.set target (parseLiteral text)).run s = _
    rw [Act.run_bind, hrender]
    dsimp only
    rw [hliteral, Act.run_set]
  · have hne : rawText name ≠ "" := by
      intro h
      simpa [Template.toList_rawText, Template.openMark] using congrArg String.toList h
    change (Act.returnValue (some (rawText name))).run s = _
    rw [Act.returnValue, Option.filter_some, if_pos (by simpa using hne)]
    simp only [Act.run_bind, hrender, Act.run_modifyContext, hliteral]

/-- An escaped text, a list and an empty mapping. -/
def nestedFields : List (String × Value) :=
  [("name", .str "a\"\n\u0001"), ("tags", .list [.null, .bool true, .int (-12)]),
    ("more", .map [])]

def nestedRow : Value := .map (nestedFields.map fun e => (.str e.1, e.2))

theorem isData_nestedRow : nestedRow.IsData := by
  have htags : (Value.list [.null, .bool true, .int (-12)]).IsData := by
    refine .list ?_
    simp only [List.forall_mem_cons]
    exact ⟨.null, .bool true, .int (by decide), List.forall_mem_nil _⟩
  have hmore : (Value.map (([] : List (String × Value)).map fun e => (.str e.1, e.2))).IsData :=
    .map List.nodup_nil (List.forall_mem_nil _)
  refine .map (by decide) ?_
  simp only [nestedFields, List.forall_mem_cons]
  exact ⟨.str _, htags, hmore, List.forall_mem_nil _⟩

def nestedScene : Scene := { bareScene with context := { vars := [(.str "row", nestedRow)] } }

theorem data_copied_through_text_nested :
    (nestedRow.IsData ∧ nestedRow ≠ .null ∧ ∀ text, nestedRow ≠ .str text) ∧
      parseLiteral nestedRow.templateText = nestedRow ∧
      (bareRunner.perform (.set "copy" (rawText "row") none .null)).run nestedScene = (.ok (),
        { bareScene with context :=
          { vars := [(.str "row", nestedRow), (.str "copy", nestedRow)] } }) := by
  have hnull : nestedRow ≠ .null := nofun
  have htext : ∀ text, nestedRow ≠ .str text := nofun
  obtain ⟨hliteral, hcopied⟩ := data_copied_through_text isData_nestedRow hnull htext
  have hname : IsPlainName "row" := ⟨'r', ['o', 'w'], rfl, by decide, by simp⟩
  refine ⟨⟨isData_nestedRow, hnull, htext⟩, hliteral, ?_⟩
  exact (hcopied bareRunner nestedScene "row" hname (by decide) rfl).1 "copy" .null

end Engine

end BulletScript
