import BulletScript.Proofs.Text.Search
import BulletScript.Proofs.Text.Word
import BulletScript.Template.Extract
import BulletScript.Template.Interpolate

/-! Patterns as placeholders with literal text between them: the text that is made of one when each
placeholder has a value, and the regular expression that is made of it. -/
namespace BulletScript.Template

/-- A placeholder of a pattern with its token, the value it is filled with, and the literal text
behind it. -/
structure Slot where
  inner : String
  position : Nat
  token : Token
  value : Value
  behind : String

/-- A text with something in it and no blank around it. -/
def Trimmed (s : String) : Prop := s ≠ "" ∧ Text.trim s = s

/-- A name without dots and brackets. -/
def IsPlainName (s : String) : Prop :=
  ∃ c cs, s.toList = c :: cs ∧ isTokenStart c ∧ ∀ d ∈ cs, d.isAlphanum ∨ d = '_'

/-- The values that a token can be filled with so that they are found again. -/
inductive Fits : TokenKind → Value → Prop
  | simple {s : String} : Trimmed s → Fits .simple (.str s)
  | greedy {s : String} : Trimmed s → Fits .greedy (.str s)
  | list {delimiter : String} {texts : List String} : texts ≠ [] → (∀ t ∈ texts, Trimmed t) →
      Text.split delimiter (Text.join delimiter texts) = texts →
        Fits (.list delimiter) (.list (texts.map .str))

namespace Slot

/-- What is written for the placeholder. -/
def text (slot : Slot) : String :=
  match slot.token.kind, slot.value with
  | .list delimiter, .list items => Text.join delimiter (items.map Value.templateText)
  | _, v => v.templateText

/-- A slot with a plain name and a value that fits. The literal behind it first occurs where the
value ends. -/
structure Valid (slot : Slot) : Prop where
  token : tokenOf? slot.inner = .ok (some slot.token)
  plain : IsPlainName slot.token.name
  notCursor : slot.token.name ≠ "cursor"
  fits : Fits slot.token.kind slot.value
  first : slot.behind ≠ "" →
    Text.indexOf? slot.behind (slot.text ++ slot.behind) = some slot.text.length

end Slot

def slotSegments : List Slot → List Segment
  | [] => []
  | slot :: rest =>
    .placeholder slot.inner slot.position ::
      literalBefore slot.behind.toList (slotSegments rest)

/-- The segments of a pattern: a literal that may be empty, and its slots. -/
def patternSegments (lead : String) (slots : List Slot) : List Segment :=
  literalBefore lead.toList (slotSegments slots)

/-- The text of the slots with their values. -/
def slotsText (slots : List Slot) : String :=
  String.join (slots.map fun slot => slot.text ++ slot.behind)

variable {lead behind : String} {slot : Slot} {slots : List Slot} {segs : List Segment}
  {vars : Record} {kind : TokenKind} {value : Value}

theorem trimmed_iff {s : String} : Trimmed s ↔ s.toList ≠ [] ∧
    (∀ c ∈ s.toList.head?, Text.isBlank c = false) ∧
      ∀ c ∈ s.toList.getLast?, Text.isBlank c = false := by
  rw [Trimmed, Text.trim, ← Text.trimChars_eq_self_iff, Ne, Ne, String.toList_eq_nil_iff]
  refine and_congr_right fun _ => ?_
  rw [← String.toList_inj, String.toList_ofList]

theorem Trimmed.append {s t : String} (hs : Trimmed s) (ht : Trimmed t) (between : String) :
    Trimmed (s ++ between ++ t) := by
  rw [trimmed_iff] at hs ht ⊢
  obtain ⟨hs, hhead, -⟩ := hs
  obtain ⟨ht, -, hlast⟩ := ht
  simp only [String.toList_append]
  refine ⟨by simp [hs], fun c hc => hhead c ?_, fun c hc => hlast c ?_⟩
  · rwa [List.append_assoc, List.head?_append, List.head?_eq_some_head hs, Option.some_or,
      ← List.head?_eq_some_head hs] at hc
  · rwa [List.getLast?_append, List.getLast?_eq_some_getLast ht, Option.some_or,
      ← List.getLast?_eq_some_getLast ht] at hc

theorem trimmed_join {texts : List String} (delimiter : String) (hne : texts ≠ [])
    (h : ∀ t ∈ texts, Trimmed t) : Trimmed (Text.join delimiter texts) := by
  induction texts with
  | nil => exact absurd rfl hne
  | cons t rest ih =>
    have ht : Trimmed t := h t (List.mem_cons_self ..)
    cases rest with
    | nil => simpa [Text.join, Text.joinChars] using ht
    | cons t' rest =>
      have hrest := ih (List.cons_ne_nil _ _) fun s hs => h s (List.mem_cons_of_mem _ hs)
      have hjoin : Text.join delimiter (t :: t' :: rest) =
          t ++ delimiter ++ Text.join delimiter (t' :: rest) := by
        apply String.toList_injective
        simp [Text.join, Text.joinChars, List.intercalate_cons_cons]
      rw [hjoin]
      exact ht.append hrest delimiter

theorem Slot.Valid.trimmed (h : slot.Valid) : Trimmed slot.text := by
  have hfits := h.fits
  unfold Slot.text
  obtain ⟨inner, position, ⟨name, kind, raw⟩, value, behind⟩ := slot
  cases hfits with
  | simple htext => exact htext
  | greedy htext => exact htext
  | @list delimiter texts hne htexts _ =>
    have htext : (texts.map Value.str).map Value.templateText = texts :=
      (List.map_map ..).trans (List.map_id _)
    change Trimmed (Text.join delimiter ((texts.map Value.str).map Value.templateText))
    rw [htext]
    exact trimmed_join delimiter hne htexts

theorem literalBefore_eq (behind : String) (segs : List Segment) :
    literalBefore behind.toList segs =
      if behind = "" then segs else .literal behind :: segs := by
  simp [literalBefore]

theorem tokensOf_literalBefore (behind : String) (segs : List Segment) :
    tokensOf (literalBefore behind.toList segs) = tokensOf segs := by
  rw [literalBefore_eq]
  split <;> rfl

/-- The tokens of a pattern are those of its slots. -/
theorem tokensOf_patternSegments (hvalid : ∀ slot ∈ slots, slot.Valid) :
    tokensOf (patternSegments lead slots) = .ok (slots.map (·.token)) := by
  rw [patternSegments, tokensOf_literalBefore]
  induction slots with
  | nil => rfl
  | cons slot rest ih =>
    have hslot := (hvalid slot (List.mem_cons_self ..)).token
    have hrest := ih fun s hs => hvalid s (List.mem_cons_of_mem _ hs)
    simp only [slotSegments, tokensOf, requireToken, hslot, bind, Except.bind, pure, Except.pure,
      tokensOf_literalBefore, hrest, List.map_cons]

section Interpolation

theorem segmentsText_literalBefore (behind : String) (segs : List Segment) :
    segmentsText vars true id (literalBefore behind.toList segs) =
      (segmentsText vars true id segs).map (behind ++ ·) := by
  rw [literalBefore_eq]
  split
  · rename_i hbehind
    subst hbehind
    cases segmentsText vars true id segs <;> simp [Except.map]
  · cases hsegs : segmentsText vars true id segs <;>
      simp [segmentsText, segmentText, hsegs, bind, Except.bind, Except.map, pure, Except.pure]

/-- A letter, a digit or a low line is part of a name and of a step, and not blank. -/
theorem plainChar {c : Char} (h : c.isAlphanum ∨ c = '_') :
    isNameChar c = true ∧ Text.isBlank c = false ∧ isTokenRest c = true := by
  have hcode : (48 ≤ c.toNat ∧ c.toNat ≤ 57) ∨ (65 ≤ c.toNat ∧ c.toNat ≤ 90) ∨ c.toNat = 95 ∨
      (97 ≤ c.toNat ∧ c.toNat ≤ 122) := by
    rcases h with h | rfl
    · have halphanum := Text.code_of_isAlphanum h
      omega
    · exact .inr (.inr (.inl rfl))
  refine ⟨?_, Text.isBlank_of_isAlphanum h, ?_⟩
  · simp only [isNameChar, Bool.and_eq_true, decide_eq_true_eq, ne_eq]
    refine ⟨⟨?_, ?_⟩, ?_⟩ <;> rintro rfl <;> simp at hcode
  · rcases h with h | rfl
    · simp [isTokenRest, h]
    · rfl

theorem IsPlainName.chars {name : String} (h : IsPlainName name) :
    name.toList ≠ [] ∧ ∀ c ∈ name.toList, c.isAlphanum ∨ c = '_' := by
  obtain ⟨c, cs, hname, hc, hcs⟩ := h
  rw [hname]
  refine ⟨List.cons_ne_nil _ _, fun d hd => ?_⟩
  rcases List.mem_cons.1 hd with rfl | hd
  · simp only [isTokenStart, Bool.or_eq_true, beq_iff_eq] at hc
    exact hc.imp (fun h => by simp [Char.isAlphanum, h]) id
  · exact hcs d hd

/-- A plain name is a path of one step. -/
theorem splitPath_of_plain {name : String} (h : IsPlainName name) :
    splitPath name = .ok [.name name] := by
  obtain ⟨hne, hchars⟩ := h.chars
  have hspan : (name.toList ++ []).span isNameChar = (name.toList, []) :=
    Text.span_append (fun c hc => (plainChar (hchars c hc)).1) (by simp)
  rw [List.append_nil] at hspan
  have htrim : Text.trim name = name := by
    rw [Text.trim, Text.trimChars_eq_self_iff.2, String.ofList_toList]
    exact ⟨fun c hc => (plainChar (hchars c (List.mem_of_mem_head? hc))).2.1,
      fun c hc => (plainChar (hchars c (List.mem_of_getLast? hc))).2.1⟩
  obtain ⟨c, cs, hname⟩ := List.exists_cons_of_ne_nil hne
  have hc : isNameChar c = true := (plainChar (hchars c (by simp [hname]))).1
  have hbracket : c ≠ '[' := by
    rintro rfl
    exact absurd hc (by decide)
  have hindex : cutIndex (c :: cs) = none := by
    simp [cutIndex, hbracket]
  have hquoted : cutQuoted (c :: cs) = none := by
    simp [cutQuoted, hbracket]
  rw [splitPath, ← String.length_toList, hname, List.length_cons, pathSteps, hindex, hquoted]
  dsimp only
  rw [if_pos hc, ← hname, hspan]
  rw [show pathSteps cs.length [] = .ok [] by cases cs.length <;> rfl, String.ofList_toList, htrim]
  rfl

theorem resolvePath_of_plain {name : String} (h : IsPlainName name) :
    resolvePath vars name = .ok (vars.get? (.str name)) := by
  rw [resolvePath, splitPath_of_plain h]
  cases hget : vars.get? (.str name) <;>
    simp [bind, Except.bind, Value.steps?, Value.step?, hget, pure, Except.pure]

/-- A placeholder with another name is not that of the cursor. -/
theorem isCursor_eq_false {inner : String} {token : Token} (h : tokenOf? inner = .ok (some token))
    (hname : token.name ≠ "cursor") : isCursor inner = false := by
  rw [isCursor, beq_eq_false_iff_ne]
  intro hcursor
  obtain ⟨blanks, hinner, hblanks⟩ :=
    Text.exists_eq_trimRightChars_append (Text.trimLeftChars inner.toList)
  have hleft : Text.trimLeftChars inner.toList = "cursor".toList ++ blanks := by
    rw [hinner, ← hcursor, Text.trim, String.toList_ofList, Text.trimChars, ← hinner]
  have hspan : ("cursor".toList ++ blanks).span isTokenRest = ("cursor".toList, blanks) := by
    refine Text.span_append (List.all_eq_true.1 (by decide)) fun c hc =>
      Bool.eq_false_iff.2 fun hrest => ?_
    have hblank := hblanks c (List.mem_of_mem_head? hc)
    simp only [isTokenRest, Bool.or_eq_true, beq_iff_eq] at hrest
    rcases hrest with hplain | rfl
    · rw [(plainChar hplain).2.1] at hblank
      cases hblank
    · cases hblank
  have hindexes : cutIndexes blanks.length blanks = ([], blanks) := by
    cases blanks with
    | nil => rfl
    | cons c rest =>
      have hc : c ≠ '[' := by
        rintro rfl
        exact absurd (hblanks '[' (by simp)) (by decide)
      simp [cutIndexes, hc]
  have hcut : cutName (Text.trimLeftChars inner.toList) = some ("cursor".toList, blanks) := by
    have hspan' : ('c' :: ("ursor".toList ++ blanks)).span isTokenRest = ("cursor".toList, blanks) :=
      hspan
    rw [hleft]
    change cutName ('c' :: ("ursor".toList ++ blanks)) = _
    rw [cutName, if_pos (by decide), hspan']
    dsimp only
    rw [hindexes]
    rfl
  rw [tokenOf?, hcut] at h
  cases hkind : kindOf inner blanks with
  | error failure => simp [hkind, bind, Except.bind] at h
  | ok kind =>
    cases kind with
    | none => simp [hkind, bind, Except.bind, pure, Except.pure] at h
    | some kind =>
      simp only [hkind, bind, Except.bind, pure, Except.pure, Option.map_some, Except.ok.injEq,
        Option.some.injEq] at h
      exact hname (h ▸ String.ofList_toList)

theorem areWritable_texts (texts : List String) : Value.areWritable (texts.map .str) = true := by
  induction texts with
  | nil => rfl
  | cons t rest ih => simpa [Value.areWritable, Value.isWritable] using ih

theorem Fits.checkWritable {kind : TokenKind} {v : Value} (h : Fits kind v) :
    v.checkWritable = .ok () := by
  have hwritable : v.isWritable = true := by
    cases h with
    | simple _ => rfl
    | greedy _ => rfl
    | list _ _ _ => rw [Value.isWritable, areWritable_texts]
  rw [Value.checkWritable, if_pos hwritable]

/-- The value of a slot's name is written as the text of the slot. -/
theorem placeholderValue_of_valid (hslot : slot.Valid)
    (hvars : vars.get? (.str slot.token.name) = some slot.value) :
    ∃ v, placeholderValue vars true slot.inner = .ok v ∧ v.templateText = slot.text := by
  unfold placeholderValue Slot.text
  rw [hslot.token]
  simp only [bind, Except.bind, resolvePath_of_plain hslot.plain, hvars, hslot.fits.checkWritable]
  obtain ⟨inner, position, ⟨name, kind, raw⟩, value, behind⟩ := slot
  cases hslot.fits with
  | simple _ => exact ⟨_, rfl, rfl⟩
  | greedy _ => exact ⟨_, rfl, rfl⟩
  | list _ _ _ => exact ⟨_, rfl, rfl⟩

/-- A pattern whose names have values is filled with them. -/
theorem segmentsText_patternSegments (hvalid : ∀ slot ∈ slots, slot.Valid)
    (hvars : ∀ slot ∈ slots, vars.get? (.str slot.token.name) = some slot.value) :
    segmentsText vars true id (patternSegments lead slots) = .ok (lead ++ slotsText slots) := by
  rw [patternSegments, segmentsText_literalBefore]
  suffices h : segmentsText vars true id (slotSegments slots) = .ok (slotsText slots) by
    rw [h]
    rfl
  induction slots with
  | nil => rfl
  | cons slot rest ih =>
    have hslot := hvalid slot (List.mem_cons_self ..)
    have hrest := ih (fun s hs => hvalid s (List.mem_cons_of_mem _ hs))
      fun s hs => hvars s (List.mem_cons_of_mem _ hs)
    have hvalue := placeholderValue_of_valid hslot (hvars slot (List.mem_cons_self ..))
    obtain ⟨v, hv, htext⟩ := hvalue
    simp only [slotSegments, segmentsText, segmentText, isCursor_eq_false hslot.token hslot.notCursor,
      hv, htext, segmentsText_literalBefore, hrest, bind, Except.bind, pure, Except.pure, Except.map,
      id, Bool.false_eq_true, if_false, slotsText, List.map_cons, String.join_cons,
      String.append_assoc]

end Interpolation

end BulletScript.Template
