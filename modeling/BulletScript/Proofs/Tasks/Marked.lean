import BulletScript.Proofs.Outline.Block
import BulletScript.Proofs.Outline.Line
import BulletScript.Proofs.Outline.Parents
import BulletScript.Tasks.Edit

/-! Dropping marked lines with all that is below them: of the lines with text, those stay that
neither carry a mark nor lie below a line that does, and a blank line stays with the last line with
text before it. -/
namespace BulletScript.Tasks

open Text Outline

variable {markers : List Char} {before : List String} {above : Option Nat} {line : String}

def isMarked (markers : List Char) (line : String) : Bool :=
  (ListLine.ofText line).bullet.any markers.contains

/-- Whether a line lies below a marked one before it: the lines between the two, and the line
itself, are blank or indented further than the marked one. -/
def liesBelowMarked (markers : List Char) (line : String) : List String → Bool
  | [] => false
  | top :: near =>
    (isMarked markers top && (near ++ [line]).all (staysBelow (indentWidth top))) ||
      liesBelowMarked markers line near

/-- The lines with text that are not marked and not below a marked one, after some lines. -/
def humanLinesAfter (markers : List Char) (before : List String) : List String → List String
  | [] => []
  | line :: rest =>
    if isBlankText line || isMarked markers line || liesBelowMarked markers line before then
      humanLinesAfter markers (before ++ [line]) rest
    else line :: humanLinesAfter markers (before ++ [line]) rest

def humanLines (markers : List Char) (ls : List String) : List String :=
  humanLinesAfter markers [] ls

theorem not_isBlankText_of_isMarked (h : isMarked markers line = true) :
    isBlankText line = false := by
  cases hb : (ListLine.ofText line).bullet with
  | none => simp [isMarked, hb] at h
  | some b => exact not_isBlankText_of_bullet hb

theorem staysBelow_mono {v w : Nat} (hvw : v ≤ w) (h : staysBelow w line = true) :
    staysBelow v line = true := by
  simp only [staysBelow, Bool.or_eq_true, decide_eq_true_eq] at h ⊢
  rcases h with h | h
  · exact .inl h
  · exact .inr (Nat.lt_of_le_of_lt hvw h)

/-- A marked line of this width is still open after some lines: all lines since then stay below
it. -/
def Open (markers : List Char) (before : List String) (width : Nat) : Prop :=
  ∃ far top near, before = far ++ top :: near ∧ isMarked markers top = true ∧
    indentWidth top = width ∧ ∀ l ∈ near, staysBelow width l = true

theorem open_concat {width : Nat} : Open markers (before ++ [line]) width ↔
    Open markers before width ∧ staysBelow width line = true ∨
      isMarked markers line = true ∧ indentWidth line = width := by
  constructor
  · rintro ⟨far, top, near, heq, hmark, hwidth, hnear⟩
    rcases List.eq_nil_or_concat near with rfl | ⟨near, last, rfl⟩
    · obtain ⟨-, rfl⟩ := List.append_inj' heq rfl |>.imp id List.singleton_inj.1
      exact .inr ⟨hmark, hwidth⟩
    · rw [List.concat_eq_append, ← List.cons_append, ← List.append_assoc] at heq
      obtain ⟨rfl, hlast⟩ := List.append_inj' heq rfl
      cases hlast
      refine .inl ⟨⟨far, top, near, rfl, hmark, hwidth, fun l hl => hnear l (by simp [hl])⟩, ?_⟩
      exact hnear line (by simp)
  · rintro (⟨⟨far, top, near, rfl, hmark, hwidth, hnear⟩, hline⟩ | ⟨hmark, hwidth⟩)
    · refine ⟨far, top, near ++ [line], by simp, hmark, hwidth, fun l hl => ?_⟩
      rcases List.mem_append.1 hl with hl | hl
      · exact hnear l hl
      · rwa [List.mem_singleton.1 hl]
    · exact ⟨before, line, [], rfl, hmark, hwidth, by simp⟩

theorem liesBelowMarked_iff : liesBelowMarked markers line before = true ↔
    ∃ width, Open markers before width ∧ staysBelow width line = true := by
  induction before with
  | nil => simp [liesBelowMarked, Open]
  | cons top near ih =>
    rw [liesBelowMarked, Bool.or_eq_true, Bool.and_eq_true, ih, List.all_append, Bool.and_eq_true,
      List.all_eq_true]
    constructor
    · rintro (⟨hmark, hnear, hline⟩ | ⟨width, ⟨far, top', near', rfl, hmark⟩, hline⟩)
      · exact ⟨_, ⟨[], top, near, rfl, hmark, rfl, hnear⟩, by simpa using hline⟩
      · exact ⟨width, ⟨top :: far, top', near', rfl, hmark⟩, hline⟩
    · rintro ⟨width, ⟨far, top', near', heq, hmark, rfl, hnear⟩, hline⟩
      cases far with
      | nil =>
        cases heq
        exact .inl ⟨hmark, hnear, by simpa using hline⟩
      | cons _ far =>
        cases heq
        exact .inr ⟨_, ⟨far, top', near', rfl, hmark, rfl, hnear⟩, hline⟩

/-- The width that a walk over the lines carries is the least one that is open. -/
structure Tracks (markers : List Char) (before : List String) (above : Option Nat) : Prop where
  isOpen : ∀ width, above = some width → Open markers before width
  least : ∀ width, Open markers before width → ∃ w, above = some w ∧ w ≤ width

namespace Tracks

theorem start : Tracks markers [] none where
  isOpen _ h := nomatch h
  least := by
    rintro width ⟨far, top, near, heq, -⟩
    simp at heq

theorem liesBelow (h : Tracks markers before above) :
    liesBelowMarked markers line before = above.any (staysBelow · line) := by
  rw [Bool.eq_iff_iff, liesBelowMarked_iff, Option.any_eq_true]
  constructor
  · rintro ⟨width, hopen, hline⟩
    obtain ⟨w, rfl, hle⟩ := h.least width hopen
    exact ⟨w, rfl, staysBelow_mono hle hline⟩
  · rintro ⟨w, rfl, hline⟩
    exact ⟨w, h.isOpen w rfl, hline⟩

theorem skip {w : Nat} (h : Tracks markers before (some w)) (hline : staysBelow w line = true) :
    Tracks markers (before ++ [line]) (some w) where
  isOpen := by
    rintro _ ⟨⟩
    exact open_concat.2 (.inl ⟨h.isOpen w rfl, hline⟩)
  least width hopen := by
    rcases open_concat.1 hopen with ⟨hopen, -⟩ | ⟨hmark, rfl⟩
    · exact h.least width hopen
    · exact ⟨w, rfl, Nat.le_of_lt (lt_of_staysBelow hline (not_isBlankText_of_isMarked hmark))⟩

theorem not_open (h : Tracks markers before above)
    (hline : above.any (staysBelow · line) = false) {width : Nat}
    (hopen : Open markers before width) : ¬ staysBelow width line = true := by
  intro hbelow
  have := liesBelowMarked_iff.2 ⟨width, hopen, hbelow⟩
  rw [h.liesBelow, hline] at this
  cases this

theorem mark (h : Tracks markers before above) (hline : above.any (staysBelow · line) = false)
    (hmark : isMarked markers line = true) :
    Tracks markers (before ++ [line]) (some (indentWidth line)) where
  isOpen := by
    rintro _ ⟨⟩
    exact open_concat.2 (.inr ⟨hmark, rfl⟩)
  least width hopen := by
    rcases open_concat.1 hopen with ⟨hopen, hbelow⟩ | ⟨-, rfl⟩
    · exact absurd hbelow (h.not_open hline hopen)
    · exact ⟨_, rfl, Nat.le_refl _⟩

theorem keep (h : Tracks markers before above) (hline : above.any (staysBelow · line) = false)
    (hmark : isMarked markers line = false) : Tracks markers (before ++ [line]) none where
  isOpen _ h := nomatch h
  least width hopen := by
    rcases open_concat.1 hopen with ⟨hopen, hbelow⟩ | ⟨hline, -⟩
    · exact absurd hbelow (h.not_open hline hopen)
    · rw [hmark] at hline
      cases hline

end Tracks

/-- Whatever has text and stays is a line that is not marked and not below a marked one. -/
theorem filter_dropMarkedBelow (h : Tracks markers before above) (ls : List String) :
    (dropMarkedBelow markers above ls).filter (!isBlankText ·) =
      humanLinesAfter markers before ls := by
  induction ls generalizing before above with
  | nil => rfl
  | cons line rest ih =>
    rw [humanLinesAfter, h.liesBelow]
    change List.filter _ (if above.any (staysBelow · line) then _
      else if isMarked markers line then _ else _) = _
    cases hbelow : above.any (staysBelow · line) with
    | true =>
      obtain ⟨w, rfl, hline⟩ := (Option.any_eq_true _ _).1 hbelow
      rw [if_pos rfl, ih (h.skip hline), if_pos (by simp)]
    | false =>
      rw [if_neg Bool.false_ne_true]
      cases hmark : isMarked markers line with
      | true => rw [if_pos rfl, ih (h.mark hbelow hmark), if_pos (by simp)]
      | false =>
        rw [if_neg Bool.false_ne_true, List.filter_cons, ih (h.keep hbelow hmark)]
        cases isBlankText line <;> rfl

theorem filter_dropMarked (ls : List String) (markers : String) :
    (dropMarked markers ls).filter (!isBlankText ·) = humanLines markers.toList ls :=
  filter_dropMarkedBelow .start ls

/-- What lies below an open line goes, up to the first line that does not. -/
theorem dropMarkedBelow_some (width : Nat) (ls : List String) :
    dropMarkedBelow markers (some width) ls =
      dropMarkedBelow markers none (ls.dropWhile (staysBelow width)) := by
  induction ls with
  | nil => rfl
  | cons line rest ih =>
    cases hline : staysBelow width line with
    | true =>
      rw [List.dropWhile_cons_of_pos hline, ← ih]
      exact if_pos hline
    | false =>
      rw [List.dropWhile_cons_of_neg (by simp [hline])]
      exact if_neg (ne_true_of_eq_false hline)

theorem dropMarkedBelow_sublist (markers : List Char) (above : Option Nat) (ls : List String) :
    (dropMarkedBelow markers above ls).Sublist ls := by
  fun_induction dropMarkedBelow markers above ls with
  | case1 => exact .slnil
  | case2 above line rest hbelow ih => exact ih.cons line
  | case3 above line rest hbelow hmark ih => exact ih.cons line
  | case4 above line rest hbelow hmark ih => exact ih.cons_cons line

theorem dropMarked_cons {markers : String} (h : isMarked markers.toList line = true)
    (ls : List String) :
    dropMarked markers (line :: ls) =
      dropMarked markers (ls.dropWhile (staysBelow (indentWidth line))) := by
  rw [dropMarked, dropMarked, ← dropMarkedBelow_some]
  exact if_pos h

/-- Lines that are all deeper than the one after them do not decide what stays from there on. -/
theorem dropMarkedBelow_append {width : Nat} {xs ys : List String}
    (habove : ∀ w, above = some w → width < w) (hxs : ∀ l ∈ xs, staysBelow width l = true)
    (hys : ∀ y, ys.head? = some y → staysBelow width y = false) :
    dropMarkedBelow markers above (xs ++ ys) =
      dropMarkedBelow markers above xs ++ dropMarkedBelow markers none ys := by
  induction xs generalizing above with
  | nil =>
    cases above with
    | none => rfl
    | some w =>
      cases ys with
      | nil => rfl
      | cons y rest =>
        have hy : staysBelow w y = false := by
          rw [Bool.eq_false_iff]
          intro h
          have hle := Nat.le_of_lt (habove w rfl)
          exact absurd (staysBelow_mono hle h) (by simp [hys y rfl])
        exact if_neg (ne_true_of_eq_false hy)
  | cons line rest ih =>
    have hrest : ∀ l ∈ rest, staysBelow width l = true := fun l hl => hxs l (by simp [hl])
    change (if above.any (staysBelow · line) then _ else if isMarked markers line then _ else _) =
      (if above.any (staysBelow · line) then _ else if isMarked markers line then _ else _) ++ _
    split
    · exact ih habove hrest
    · split
      · rename_i hmark
        refine ih ?_ hrest
        rintro _ ⟨⟩
        exact lt_of_staysBelow (hxs line (by simp)) (not_isBlankText_of_isMarked hmark)
      · exact congrArg (line :: ·) (ih (by simp) hrest)

theorem humanLines_append {width : Nat} {xs ys : List String}
    (hxs : ∀ l ∈ xs, staysBelow width l = true)
    (hys : ∀ y, ys.head? = some y → staysBelow width y = false) :
    humanLines markers (xs ++ ys) = humanLines markers xs ++ humanLines markers ys := by
  simp only [humanLines, ← filter_dropMarkedBelow .start]
  rw [dropMarkedBelow_append (by simp) hxs hys, List.filter_append]

theorem not_isBlankText_of_mem_humanLines {ls : List String} (h : line ∈ humanLines markers ls) :
    isBlankText line = false := by
  rw [humanLines, ← filter_dropMarkedBelow .start] at h
  simpa using (List.mem_filter.1 h).2

/-- Once a marked line stands before them, lines lose none that should stay exactly if none of
those is deeper than the marked line, up to the first line that is not. -/
theorem humanLines_sublist_iff {markers : String} (h : isMarked markers.toList line = true)
    (ls : List String) :
    List.Sublist (humanLines markers.toList ls) (dropMarked markers (line :: ls)) ↔
      humanLines markers.toList (ls.takeWhile (staysBelow (indentWidth line))) = [] := by
  let below := ls.takeWhile (staysBelow (indentWidth line))
  let rest := ls.dropWhile (staysBelow (indentWidth line))
  have hsplit : humanLines markers.toList ls =
      humanLines markers.toList below ++ humanLines markers.toList rest := by
    rw [← humanLines_append (fun l => List.all_eq_true.1 List.all_takeWhile l) ?_,
      List.takeWhile_append_dropWhile]
    intro y hy
    have := List.head?_dropWhile_not (staysBelow (indentWidth line)) ls
    rw [hy] at this
    simpa using this
  have hfilter : (dropMarked markers rest).filter (!isBlankText ·) =
      humanLines markers.toList rest := filter_dropMarked rest markers
  rw [dropMarked_cons h, hsplit]
  constructor
  · intro hsub
    have hfiltered := hsub.filter (!isBlankText ·)
    rw [hfilter, ← hsplit, List.filter_eq_self.2, hsplit] at hfiltered
    · have hlength := hfiltered.length_le
      rw [List.length_append] at hlength
      have hnone : (humanLines markers.toList below).length = 0 := by omega
      exact List.eq_nil_of_length_eq_zero hnone
    · intro l hl
      rw [not_isBlankText_of_mem_humanLines hl]
      rfl
  · intro hbelow
    rw [show humanLines markers.toList below = [] from hbelow, List.nil_append, ← hfilter]
    exact List.filter_sublist

section Subtrees

variable {ls : List String} {i : Nat}

/-- Whether the line at an index goes: it carries a mark, or lies below a line that does. -/
def isGone (markers : List Char) (ls : List String) (i : Nat) : Bool :=
  liesBelowMarked markers (ls.getD i "") (ls.take i) || isMarked markers (ls.getD i "")

/-- Of the lines that a walk comes to, those stay that do not go with a marked line. -/
theorem dropMarkedBelow_eq_map (h : Tracks markers before above) (ls : List String) :
    dropMarkedBelow markers above ls =
      ((List.range' before.length ls.length).filter (!isGone markers (before ++ ls) ·)).map
        ((before ++ ls).getD · "") := by
  induction ls generalizing before above with
  | nil => rfl
  | cons line rest ih =>
    have hrest {above' : Option Nat} (h' : Tracks markers (before ++ [line]) above') :
        dropMarkedBelow markers above' rest =
          ((List.range' (before.length + 1) rest.length).filter
            (!isGone markers (before ++ line :: rest) ·)).map
              ((before ++ line :: rest).getD · "") := by
      have := ih h'
      rwa [List.append_assoc, List.singleton_append, List.length_append] at this
    have hgone : isGone markers (before ++ line :: rest) before.length =
        (above.any (staysBelow · line) || isMarked markers line) := by
      rw [isGone, getD_length_append, List.take_left, h.liesBelow]
    rw [List.length_cons, List.range'_succ, List.filter_cons, hgone]
    change (if above.any (staysBelow · line) then _ else if isMarked markers line then _ else _) = _
    cases hbelow : above.any (staysBelow · line) with
    | true =>
      obtain ⟨w, rfl, hline⟩ := (Option.any_eq_true _ _).1 hbelow
      rw [if_pos rfl, hrest (h.skip hline)]
      rfl
    | false =>
      rw [if_neg Bool.false_ne_true]
      cases hmark : isMarked markers line with
      | true =>
        rw [if_pos rfl, hrest (h.mark hbelow hmark)]
        rfl
      | false =>
        rw [if_neg Bool.false_ne_true, hrest (h.keep hbelow hmark), Bool.or_false, Bool.not_false,
          if_pos rfl, List.map_cons, getD_length_append]

theorem isGone_iff (hi : i < ls.length) : isGone markers ls i = true ↔
    isMarked markers (ls.getD i "") = true ∨ ∃ j < i, isMarked markers (ls.getD j "") = true ∧
      ∀ k, j < k → k ≤ i → staysBelow (indentWidth (ls.getD j "")) (ls.getD k "") = true := by
  have hbefore {k : Nat} (hk : k < i) : (ls.take i)[k]? = some (ls.getD k "") := by
    rw [List.getElem?_take_of_lt hk, List.getElem?_eq_getElem (by omega),
      List.getD_eq_getElem _ _ (by omega)]
  rw [isGone, Bool.or_eq_true, or_comm, liesBelowMarked_iff]
  refine or_congr_right ?_
  constructor
  · rintro ⟨_, ⟨far, top, near, hsplit, hmark, rfl, hnear⟩, hline⟩
    have hlength := congrArg List.length hsplit
    rw [List.length_take_of_le (by omega), List.length_append, List.length_cons] at hlength
    have htop : ls.getD far.length "" = top := by
      have hget := hbefore (k := far.length) (by omega)
      simpa [hsplit] using hget.symm
    refine ⟨far.length, by omega, htop ▸ hmark, fun k hjk hki => ?_⟩
    rw [htop]
    rcases Nat.lt_or_eq_of_le hki with hki | rfl
    · have hget := hbefore hki
      rw [hsplit, List.getElem?_append_right (by omega), List.getElem?_cons,
        if_neg (by omega)] at hget
      exact hnear _ (List.mem_of_getElem? hget)
    · exact hline
  · rintro ⟨j, hji, hmark, hbelow⟩
    obtain ⟨far, near, hsplit, rfl⟩ := exists_split (hbefore hji)
    refine ⟨_, ⟨far, _, near, hsplit, hmark, rfl, fun l hl => ?_⟩, hbelow i hji (Nat.le_refl i)⟩
    obtain ⟨n, hn⟩ := List.mem_iff_getElem?.1 hl
    have hlength := congrArg List.length hsplit
    have hlt := (List.getElem?_eq_some_iff.1 hn).1
    rw [List.length_take_of_le (by omega), List.length_append, List.length_cons] at hlength
    have hget := hbefore (k := far.length + (n + 1)) (by omega)
    rw [hsplit, List.getElem?_append_right (by omega), Nat.add_sub_cancel_left,
      List.getElem?_cons_succ, hn, Option.some.injEq] at hget
    rw [hget]
    exact hbelow _ (by omega) (by omega)

/-- A line with text goes if it or a line above it in the outline carries a mark. -/
theorem isGone_iff_of_text (hi : i < ls.length) (htext : isBlankText (ls.getD i "") = false) :
    isGone markers ls i = true ↔ isMarked markers (ls.getD i "") = true ∨
      ∃ j, IsAbove ls j i ∧ isMarked markers (ls.getD j "") = true := by
  rw [isGone_iff hi]
  refine or_congr_right (exists_congr fun j => ?_)
  rw [isAbove_iff]
  constructor
  · rintro ⟨hji, hmark, hbelow⟩
    exact ⟨⟨hji, not_isBlankText_of_isMarked hmark,
      lt_of_staysBelow (hbelow i hji (Nat.le_refl i)) htext,
      fun k hjk hki hk => lt_of_staysBelow (hbelow k hjk hki.le) hk⟩, hmark⟩
  · rintro ⟨⟨hji, -, hless, hdeeper⟩, hmark⟩
    refine ⟨hji, hmark, fun k hjk hki => ?_⟩
    rcases Nat.lt_or_eq_of_le hki with hki | rfl
    · cases hblank : isBlankText (ls.getD k "") with
      | true => exact staysBelow_of_blank hblank
      | false => exact staysBelow_of_lt (hdeeper k hjk hki hblank)
    · exact staysBelow_of_lt hless

/-- A blank line goes with the last line with text before it. -/
theorem isGone_iff_of_blank (hi : i < ls.length) (hblank : isBlankText (ls.getD i "") = true) :
    isGone markers ls i = true ↔ ∃ j, lastText? ls i = some j ∧ isGone markers ls j = true := by
  have hunmarked : isMarked markers (ls.getD i "") ≠ true := by
    intro hmark
    rw [not_isBlankText_of_isMarked hmark] at hblank
    cases hblank
  rw [isGone_iff hi, or_iff_right hunmarked]
  constructor
  · rintro ⟨top, hti, hmark, hbelow⟩
    obtain ⟨j, hj⟩ : ∃ j, lastText? ls i = some j :=
      exists_getLast?_filter_range hti (by simp only [not_isBlankText_of_isMarked hmark]; rfl)
    obtain ⟨hji, -, hlast⟩ := lastText?_eq_some.1 hj
    refine ⟨j, hj, (isGone_iff (hji.trans hi)).2 ?_⟩
    rcases Nat.lt_trichotomy top j with htj | rfl | hjt
    · exact .inr ⟨top, htj, hmark, fun k htk hkj => hbelow k htk (hkj.trans hji.le)⟩
    · exact .inl hmark
    · exact absurd (hlast top hjt hti) (ne_true_of_eq_false (not_isBlankText_of_isMarked hmark))
  · rintro ⟨j, hj, hgone⟩
    obtain ⟨hji, -, hlast⟩ := lastText?_eq_some.1 hj
    have hbehind (width k : Nat) (hjk : j < k) (hki : k ≤ i) :
        staysBelow width (ls.getD k "") = true := by
      rcases Nat.lt_or_eq_of_le hki with hki | rfl
      · exact staysBelow_of_blank (hlast k hjk hki)
      · exact staysBelow_of_blank hblank
    rcases (isGone_iff (hji.trans hi)).1 hgone with hmark | ⟨top, htj, hmark, hbelow⟩
    · exact ⟨j, hji, hmark, hbehind _⟩
    · refine ⟨top, htj.trans hji, hmark, fun k htk hki => ?_⟩
      rcases Nat.lt_or_ge j k with hjk | hkj
      · exact hbehind _ k hjk hki
      · exact hbelow k htk hkj

theorem isMarked_of_mem_dropMarkedBelow (h : line ∈ dropMarkedBelow markers above ls) :
    isMarked markers line = false := by
  induction ls generalizing above with
  | nil => cases h
  | cons first rest ih =>
    change line ∈ (if above.any (staysBelow · first) then _
      else if isMarked markers first then _ else _) at h
    split at h
    · exact ih h
    · split at h
      · exact ih h
      · next hmark =>
        rcases List.mem_cons.1 h with rfl | h
        · exact eq_false_of_ne_true hmark
        · exact ih h

theorem dropMarkedBelow_of_unmarked (h : ∀ l ∈ ls, isMarked markers l = false) :
    dropMarkedBelow markers none ls = ls := by
  induction ls with
  | nil => rfl
  | cons line rest ih =>
    obtain ⟨hline, hrest⟩ := List.forall_mem_cons.1 h
    change (if isMarked markers line then _ else _) = _
    rw [hline, if_neg Bool.false_ne_true, ih hrest]

/-- Dropping marked lines takes away whole subtrees of the outline. The lines that stay are unchanged
and in order; a line with text goes exactly if it or a line above it in the outline carries one of
the marks, and a blank line exactly if the last line with text before it goes. Nothing is left to
drop after that. -/
theorem dropMarked_drops_subtrees (markers : String) (ls : List String) :
    (∃ kept : List Nat, kept.Sublist (List.range ls.length) ∧
      dropMarked markers ls = kept.map (ls.getD · "") ∧
      ∀ i < ls.length,
        (isBlankText (ls.getD i "") = false →
          (i ∉ kept ↔ isMarked markers.toList (ls.getD i "") = true ∨
            ∃ j, IsAbove ls j i ∧ isMarked markers.toList (ls.getD j "") = true)) ∧
        (isBlankText (ls.getD i "") = true →
          (i ∉ kept ↔ ∃ j, lastText? ls i = some j ∧ j ∉ kept))) ∧
    dropMarked markers (dropMarked markers ls) = dropMarked markers ls := by
  constructor
  · let kept := (List.range ls.length).filter (!isGone markers.toList ls ·)
    have hdrop : dropMarked markers ls = kept.map (ls.getD · "") := by
      rw [dropMarked, dropMarkedBelow_eq_map .start, List.length_nil, ← List.range_eq_range']
      rfl
    have hkept {i : Nat} (hi : i < ls.length) : i ∉ kept ↔ isGone markers.toList ls i = true := by
      simp [kept, hi]
    refine ⟨kept, List.filter_sublist, hdrop, fun i hi => ⟨fun htext => ?_, fun hblank => ?_⟩⟩
    · rw [hkept hi, isGone_iff_of_text hi htext]
    · rw [hkept hi, isGone_iff_of_blank hi hblank]
      refine exists_congr fun j => and_congr_right fun hj => ?_
      rw [hkept ((lastText?_eq_some.1 hj).1.trans hi)]
  · exact dropMarkedBelow_of_unmarked fun _ hl => isMarked_of_mem_dropMarkedBelow hl

end Subtrees

end BulletScript.Tasks
