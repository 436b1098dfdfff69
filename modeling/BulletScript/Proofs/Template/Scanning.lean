import BulletScript.Proofs.Template.Segments
import Mathlib.Data.List.Chain
import Mathlib.Data.List.Infix

/-! Templates read from left to right. A template is its segments one after the other, unless an
opening mark is reached that no closing mark follows; then it is not filled, whatever its variables
hold. -/
namespace BulletScript.Text

/-- The first place, from a start on, where one text stands in another. -/
def IsFirst (needle cs : List Char) (start place : Nat) : Prop :=
  start ≤ place ∧ needle <+: cs.drop place ∧ ∀ p, start ≤ p → p < place → ¬needle <+: cs.drop p

variable {needle cs before after : List Char} {start place place' : Nat}

theorem IsFirst.unique (h : IsFirst needle cs start place) (h' : IsFirst needle cs start place') :
    place = place' := by
  rcases Nat.lt_trichotomy place place' with hlt | heq | hlt
  · exact absurd h.2.1 (h'.2.2 place h.1 hlt)
  · exact heq
  · exact absurd h'.2.1 (h.2.2 place' h'.1 hlt)

theorem cutChars_eq_none_iff : cutChars needle cs = none ↔ ¬needle <:+: cs := by
  induction cs with
  | nil => simp [cutChars]
  | cons c rest ih =>
    rw [List.infix_cons_iff, cutChars, ← List.isPrefixOf_iff_prefix]
    by_cases hhere : needle.isPrefixOf (c :: rest) <;> simp [hhere, ih]

theorem not_prefix_of_cutChars_none (h : cutChars needle (cs.drop start) = none) (p : Nat)
    (hp : start ≤ p) : ¬needle <+: cs.drop p := by
  obtain ⟨n, rfl⟩ := Nat.exists_eq_add_of_le hp
  intro hstart
  rw [← List.drop_drop] at hstart
  exact cutChars_eq_none_iff.1 h (hstart.isInfix.trans (List.drop_suffix ..).isInfix)

/-- A text is cut where it is found first. -/
theorem isFirst_of_cutChars (h : cutChars needle (cs.drop start) = some (before, after)) :
    IsFirst needle cs start (start + before.length) ∧
      after = cs.drop (start + before.length + needle.length) := by
  have heq : cs.drop start = before ++ (needle ++ after) := by
    rw [cutChars_eq h, List.append_assoc]
  have hplace : cs.drop (start + before.length) = needle ++ after := by
    rw [← List.drop_drop, heq, List.drop_left]
  refine ⟨⟨Nat.le_add_right .., ?_, ?_⟩, ?_⟩
  · rw [hplace]
    exact List.prefix_append ..
  · intro p hstart hp
    obtain ⟨n, rfl⟩ := Nat.exists_eq_add_of_le hstart
    have hnot := cutChars_first h (Nat.lt_of_add_lt_add_left hp)
    rwa [List.drop_drop, ← Bool.not_eq_true, List.isPrefixOf_iff_prefix] at hnot
  · rw [← List.drop_drop, hplace, List.drop_left]

theorem IsFirst.cutChars (h : IsFirst needle cs start place) :
    ∃ before, Text.cutChars needle (cs.drop start) =
      some (before, cs.drop (place + needle.length)) ∧ place = start + before.length := by
  cases hcut : Text.cutChars needle (cs.drop start) with
  | none => exact absurd h.2.1 (not_prefix_of_cutChars_none hcut place h.1)
  | some found =>
    obtain ⟨before, after⟩ := found
    obtain ⟨hfirst, hafter⟩ := isFirst_of_cutChars hcut
    obtain rfl := h.unique hfirst
    exact ⟨before, by rw [hafter], rfl⟩

end BulletScript.Text

namespace BulletScript.Template

open Text (IsFirst)

section Reached

/-- The places where the reading of a text looks for an opening mark: its start, and behind the
closing mark of each placeholder. -/
inductive Resumes (cs : List Char) : Nat → Prop
  | start : Resumes cs 0
  | behind {p opening closing : Nat} : Resumes cs p → IsFirst openMark cs p opening →
      IsFirst closeMark cs (opening + 2) closing → Resumes cs (closing + 2)

/-- An opening mark that the reading of a text reaches, and that no closing mark follows. -/
def Unclosed (cs : List Char) (here : Nat) : Prop :=
  (∃ p, Resumes cs p ∧ IsFirst openMark cs p here) ∧
    ∀ p, here + 2 ≤ p → ¬closeMark <+: cs.drop p

variable {template : String} {whole cs : List Char} {position : Nat} {failure : Failure}

/-- Reading fails at an opening mark that is not closed. -/
theorem unclosed_of_segmentsFrom (hresumes : Resumes whole position) (hcs : cs = whole.drop position)
    (h : segmentsFrom template position cs = .error failure) :
    ∃ here, Unclosed whole here ∧
      failure = .pattern (.unterminatedPlaceholder template here) := by
  fun_induction segmentsFrom template position cs with
  | case1 => cases h
  | case2 position cs before after hopen hclose =>
    subst hcs
    obtain ⟨hfirst, rfl⟩ := Text.isFirst_of_cutChars hopen
    exact ⟨position + before.length,
      ⟨⟨position, hresumes, hfirst⟩, Text.not_prefix_of_cutChars_none hclose⟩,
      (Except.error.inj h).symm⟩
  | case3 position cs before after hopen inner rest hclose _ here =>
    rename_i ih
    subst hcs
    obtain ⟨hfirst, rfl⟩ := Text.isFirst_of_cutChars hopen
    obtain ⟨hlast, hrest⟩ := Text.isFirst_of_cutChars hclose
    have hplace : here + inner.length + 4 = here + openMark.length + inner.length + 2 := by
      simp only [openMark, List.length_cons, List.length_nil]
      omega
    cases htail : segmentsFrom template (here + inner.length + 4) rest with
    | error failure' =>
      simp only [htail, bind, Except.bind, Except.error.injEq] at h
      subst h
      exact ih (hplace ▸ hresumes.behind hfirst hlast) (hplace ▸ hrest) htail
    | ok tail => simp [htail, bind, Except.bind, pure, Except.pure] at h

/-- Where reading goes on, it fails as the reading of what is left. -/
theorem Resumes.segmentsFrom_eq_error (hresumes : Resumes whole position)
    (h : segmentsFrom template position (whole.drop position) = .error failure) :
    segmentsFrom template 0 whole = .error failure := by
  induction hresumes with
  | start => exact h
  | @behind p opening closing hp hopening hclosing ih =>
    obtain ⟨before, hopen, rfl⟩ := hopening.cutChars
    obtain ⟨inner, hclose, rfl⟩ := hclosing.cutChars
    apply ih
    rw [segmentsFrom_of_closed hopen hclose]
    have hplace : p + before.length + inner.length + 4 = p + before.length + 2 + inner.length + 2 := by
      omega
    rw [hplace]
    exact congrArg (Except.map _) h

theorem segments_of_unclosed {here : Nat} (h : Unclosed template.toList here) :
    segments template = .error (.pattern (.unterminatedPlaceholder template here)) := by
  obtain ⟨⟨p, hresumes, hfirst⟩, hnone⟩ := h
  apply hresumes.segmentsFrom_eq_error
  obtain ⟨before, hopen, rfl⟩ := hfirst.cutChars
  cases hclose : Text.cutChars closeMark (template.toList.drop (p + before.length + 2)) with
  | none => exact segmentsFrom_of_open hopen hclose
  | some found =>
    obtain ⟨hclosing, -⟩ := Text.isFirst_of_cutChars hclose
    exact absurd hclosing.2.1 (hnone _ hclosing.1)

end Reached

section Parted

def Segment.isLiteral : Segment → Bool
  | .literal _ => true
  | .placeholder .. => false

/-- Segments that are cut where they can be cut: literal text is not empty and holds no opening mark,
a placeholder ends with its first closing mark, and literal texts are not next to each other. -/
structure Parted (parts : List Segment) : Prop where
  literal : ∀ text, .literal text ∈ parts → text ≠ "" ∧ ¬openMark <:+: text.toList
  inner : ∀ inner here, .placeholder inner here ∈ parts → ¬closeMark <:+: inner.toList
  apart : parts.IsChain fun a b => ¬(a.isLiteral ∧ b.isLiteral)

variable {template : String} {position : Nat} {cs : List Char} {parts : List Segment}

theorem Parted.nil : Parted [] := ⟨by simp, by simp, .nil⟩

theorem Parted.placeholder {inner : String} (h : Parted parts) (hinner : ¬closeMark <:+: inner.toList)
    (here : Nat) : Parted (.placeholder inner here :: parts) where
  literal text htext := h.literal text (by simpa using htext)
  inner inner' here' hmem := by
    rcases List.mem_cons.1 hmem with heq | hmem
    · cases heq
      exact hinner
    · exact h.inner inner' here' hmem
  apart := by
    rw [List.isChain_cons]
    exact ⟨fun part _ => by simp [Segment.isLiteral], h.apart⟩

theorem Parted.literalBefore (h : Parted parts) (hcs : ¬openMark <:+: cs)
    (hhead : ∀ part ∈ parts.head?, part.isLiteral = false) :
    Parted (literalBefore cs parts) := by
  unfold Template.literalBefore
  split
  · exact h
  · next hne =>
    refine ⟨?_, ?_, ?_⟩
    · intro text htext
      rcases List.mem_cons.1 htext with heq | htext
      · cases heq
        exact ⟨by simpa using hne, by simpa using hcs⟩
      · exact h.literal text htext
    · exact fun inner here hmem => h.inner inner here (by simpa using hmem)
    · rw [List.isChain_cons]
      exact ⟨fun part hpart => by simp [hhead part hpart], h.apart⟩

theorem parted_of_segmentsFrom (h : segmentsFrom template position cs = .ok parts) :
    Parted parts := by
  fun_induction segmentsFrom template position cs generalizing parts with
  | case1 position cs hopen =>
    cases h
    exact Parted.nil.literalBefore (Text.cutChars_eq_none_iff.1 hopen) (by simp)
  | case2 => cases h
  | case3 position cs before after hopen inner rest hclose _ here =>
    rename_i ih
    have hbefore := Text.cutChars_before (by decide) hopen
    have hinner := Text.cutChars_before (by decide) hclose
    rw [Text.cutChars_eq_none_iff] at hbefore hinner
    cases htail : segmentsFrom template (here + inner.length + 4) rest with
    | error failure => simp [htail, bind, Except.bind] at h
    | ok tail =>
      simp only [htail, bind, Except.bind, pure, Except.pure, Except.ok.injEq] at h
      subst h
      have hinner : ¬closeMark <:+: (String.ofList inner).toList := by simpa using hinner
      have hbehind := (ih htail).placeholder hinner here
      exact hbehind.literalBefore hbefore (by simp [Segment.isLiteral])

end Parted

/-- Reading a template fails exactly if it reaches an opening mark that is not closed, and tells its
place; the template is then not filled, whatever its variables hold. Otherwise the template is its
segments, each cut where it can be, with the place of every placeholder. A template without opening
marks is kept as it is. -/
theorem segments_lossless (template : String) :
    (∀ failure, segments template = .error failure ↔
      ∃ here, Unclosed template.toList here ∧
        failure = .pattern (.unterminatedPlaceholder template here)) ∧
    (∀ parts, segments template = .ok parts →
      rawChars parts = template.toList ∧ Parted parts ∧
        ∀ front inner here back, parts = front ++ .placeholder inner here :: back →
          here = (rawChars front).length) ∧
    (∀ here, Unclosed template.toList here → ∀ escape strict vars,
      interpolateWith escape strict template vars =
        .error (.pattern (.unterminatedPlaceholder template here))) ∧
    (¬openMark <:+: template.toList → ∀ escape strict vars,
      interpolateWith escape strict template vars = .ok template) := by
  refine ⟨fun failure => ⟨fun h => ?_, ?_⟩, fun parts h => ⟨?_, ?_, ?_⟩, ?_, ?_⟩
  · exact unclosed_of_segmentsFrom .start rfl h
  · rintro ⟨here, hunclosed, rfl⟩
    exact segments_of_unclosed hunclosed
  · exact segments_written h
  · exact parted_of_segmentsFrom h
  · rintro front inner here back rfl
    rw [(segmentsFrom_written h).2.here_eq, Nat.zero_add]
  · intro here hunclosed escape strict vars
    rw [interpolateWith, segments_of_unclosed hunclosed]
    rfl
  · intro hnone escape strict vars
    exact interpolateWith_of_none (Text.cutChars_eq_none_iff.2 hnone)

/-- In a run of braces the first two open and close, and a name without a value does not matter in
front of a mark that is not closed. -/
theorem segments_lossless_braces :
    (segments "\x7b\x7b\x7ba\x7d\x7d\x7d" =
        .ok [.placeholder "\x7ba" 0, .literal "\x7d"] ∧
      Parted [.placeholder "\x7ba" 0, .literal "\x7d"]) ∧
    Unclosed "\x7b\x7ba\x7d\x7d \x7b\x7bb".toList 6 ∧
      interpolate "\x7b\x7ba\x7d\x7d \x7b\x7bb" [] =
        .error (.pattern (.unterminatedPlaceholder "\x7b\x7ba\x7d\x7d \x7b\x7bb" 6)) := by
  have hbraces : segments "\x7b\x7b\x7ba\x7d\x7d\x7d" =
      .ok [.placeholder "\x7ba" 0, .literal "\x7d"] := by cbv
  have hopen : segments "\x7b\x7ba\x7d\x7d \x7b\x7bb" =
      .error (.pattern (.unterminatedPlaceholder "\x7b\x7ba\x7d\x7d \x7b\x7bb" 6)) := by cbv
  obtain ⟨hfails, -, hunfilled, -⟩ := segments_lossless "\x7b\x7ba\x7d\x7d \x7b\x7bb"
  obtain ⟨here, hunclosed, hplace⟩ := (hfails _).1 hopen
  obtain rfl : here = 6 := by simpa using hplace.symm
  exact ⟨⟨hbraces, ((segments_lossless _).2.1 _ hbraces).2.1⟩, hunclosed,
    hunfilled 6 hunclosed id true []⟩

end BulletScript.Template
