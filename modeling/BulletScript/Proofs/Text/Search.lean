import BulletScript.Text.Blank
import BulletScript.Text.Search
import Mathlib.Data.List.DropRight
import Mathlib.Data.List.TakeDrop
import Mathlib.Data.List.TakeWhile

/-! First occurrences, and texts without blanks at their ends. What is found where two texts meet
may be in neither of them, also where they meet because what was between them is taken out. -/
namespace BulletScript.Text

/-- Before the first occurrence of a text there is none. -/
theorem cutChars_first {needle cs before after : List Char}
    (h : cutChars needle cs = some (before, after)) {p : Nat} (hp : p < before.length) :
    needle.isPrefixOf (cs.drop p) = false := by
  induction cs generalizing before p with
  | nil =>
    simp only [cutChars] at h
    split at h
    · cases h
      cases hp
    · cases h
  | cons c rest ih =>
    simp only [cutChars] at h
    split at h
    · cases h
      cases hp
    · rename_i hhere
      obtain ⟨⟨before', after'⟩, hrest, heq⟩ := Option.map_eq_some_iff.1 h
      cases heq
      cases p with
      | zero => exact Bool.eq_false_iff.2 hhere
      | succ p => exact ih hrest (Nat.lt_of_succ_lt_succ hp)

/-- What follows a text that holds another one does not matter to where that is found. -/
theorem cutChars_append_of_some {needle cs before after : List Char}
    (h : cutChars needle cs = some (before, after)) (rest : List Char) :
    cutChars needle (cs ++ rest) = some (before, after ++ rest) := by
  induction cs generalizing before with
  | nil =>
    simp only [cutChars] at h
    split at h
    · rename_i hnil
      cases h
      cases rest <;> simp [cutChars, hnil]
    · cases h
  | cons c cs ih =>
    simp only [cutChars] at h
    rw [List.cons_append, cutChars]
    split at h
    · rename_i hhere
      cases h
      have hstart := List.isPrefixOf_iff_prefix.1 hhere
      have hlonger : needle.isPrefixOf (c :: (cs ++ rest)) :=
        List.isPrefixOf_iff_prefix.2 (hstart.trans (List.prefix_append (c :: cs) rest))
      rw [if_pos hlonger, ← List.cons_append, List.drop_append_of_le_length hstart.length_le]
    · rename_i hhere
      obtain ⟨⟨before', after'⟩, hrest, heq⟩ := Option.map_eq_some_iff.1 h
      cases heq
      have hlonger : needle.isPrefixOf (c :: (cs ++ rest)) = false := by
        rw [Bool.eq_false_iff, Ne, List.isPrefixOf_iff_prefix]
        intro hstart
        apply hhere
        have hfits : needle.length ≤ (c :: cs).length := by
          rw [cutChars_eq hrest]
          simp only [List.length_cons, List.length_append]
          omega
        exact List.isPrefixOf_iff_prefix.2
          (List.prefix_of_prefix_length_le hstart (List.prefix_append (c :: cs) rest) hfits)
      rw [if_neg (Bool.eq_false_iff.1 hlonger), ih hrest]
      rfl

/-- A text lies across the place where two others meet. -/
def Straddles (needle front back : List Char) : Prop :=
  ∃ u v, u ≠ [] ∧ v ≠ [] ∧ needle = u ++ v ∧ u <:+ front ∧ v <+: back

section Cut

variable {needle front back : List Char}

theorem Straddles.of_cons {c : Char} (h : Straddles needle front back) :
    Straddles needle (c :: front) back := by
  obtain ⟨u, v, hu, hv, hneedle, hfront, hback⟩ := h
  exact ⟨u, v, hu, hv, hneedle, hfront.trans (List.suffix_cons c front), hback⟩

/-- A text does not lie across the place in front of a character that it does not hold. -/
theorem not_straddles_cons {c : Char} (hc : c ∉ needle) (front back : List Char) :
    ¬ Straddles needle front (c :: back) := by
  rintro ⟨u, v, -, hv, rfl, -, hback⟩
  obtain ⟨d, v, rfl⟩ := List.exists_cons_of_ne_nil hv
  obtain ⟨rfl, -⟩ := List.cons_prefix_cons.1 hback
  exact hc (by simp)

/-- A text that neither occurs in the first of two texts nor lies across the place where they meet
is looked for in the second. -/
theorem cutChars_append (hnone : cutChars needle front = none)
    (h : ¬ Straddles needle front back) :
    cutChars needle (front ++ back) =
      (cutChars needle back).map fun (before, after) => (front ++ before, after) := by
  induction front with
  | nil => cases hback : cutChars needle back <;> simp [hback]
  | cons c front ih =>
    simp only [cutChars] at hnone
    split at hnone
    · cases hnone
    · rename_i hhere
      have hnot : needle.isPrefixOf (c :: (front ++ back)) = false := by
        rw [Bool.eq_false_iff, Ne, List.isPrefixOf_iff_prefix]
        intro hstart
        rcases List.prefix_or_prefix_of_prefix hstart (List.prefix_append (c :: front) back) with
          hinside | ⟨v, rfl⟩
        · exact hhere (List.isPrefixOf_iff_prefix.2 hinside)
        · refine h ⟨c :: front, v, by simp, ?_, rfl, List.suffix_rfl, ?_⟩
          · rintro rfl
            exact hhere (List.isPrefixOf_iff_prefix.2 (by simp))
          · exact (List.prefix_append_right_inj (c :: front)).1 hstart
      rw [List.cons_append, cutChars, if_neg (Bool.eq_false_iff.1 hnot),
        ih (Option.map_eq_none_iff.1 hnone) fun hrest => h hrest.of_cons, Option.map_map]
      rfl

/-- Two characters that do not occur in a text next to each other, nor where it meets what follows,
are looked for in what follows. -/
theorem cutChars_append_of_none {x y : Char} (h : cutChars [x, y] front = none)
    (hmeet : front.getLast? ≠ some x ∨ back.head? ≠ some y) :
    cutChars [x, y] (front ++ back) =
      (cutChars [x, y] back).map fun (before, after) => (front ++ before, after) := by
  refine cutChars_append h ?_
  rintro ⟨u, v, hu, hv, huv, ⟨front, rfl⟩, back, rfl⟩
  obtain ⟨c, u, rfl⟩ := List.exists_cons_of_ne_nil hu
  obtain ⟨d, v, rfl⟩ := List.exists_cons_of_ne_nil hv
  cases u <;> simp_all

/-- A text that does not hold a character is looked for on each side of it. -/
theorem cutChars_append_cons {c : Char} (hc : c ∉ needle) (h : cutChars needle front = none)
    (back : List Char) :
    cutChars needle (front ++ c :: back) =
      (cutChars needle back).map fun (before, after) => (front ++ c :: before, after) := by
  have hhere : needle.isPrefixOf (c :: back) = false := by
    cases needle with
    | nil => cases front <;> simp [cutChars] at h
    | cons d needle => simp [List.isPrefixOf, Ne.symm (List.ne_of_not_mem_cons hc)]
  rw [cutChars_append h (not_straddles_cons hc front back), cutChars,
    if_neg (Bool.eq_false_iff.1 hhere), Option.map_map]
  rfl

/-- A text does not occur in what is before its first occurrence. -/
theorem cutChars_before {cs before after : List Char} (hne : needle ≠ [])
    (h : cutChars needle cs = some (before, after)) : cutChars needle before = none := by
  cases hbefore : cutChars needle before with
  | none => rfl
  | some found =>
    obtain ⟨a, b⟩ := found
    have hcut := cutChars_append_of_some hbefore (needle ++ after)
    rw [← List.append_assoc, ← cutChars_eq h, h, Option.some.injEq, Prod.mk.injEq] at hcut
    have hlength := congrArg List.length (cutChars_eq hbefore)
    rw [← hcut.1, List.length_append, List.length_append] at hlength
    have hpos := List.length_pos_iff.2 hne
    omega

theorem cutChars_of_length_lt {cs : List Char} (h : cs.length < needle.length) :
    cutChars needle cs = none := by
  cases hcut : cutChars needle cs with
  | none => rfl
  | some found =>
    have hlength := congrArg List.length (cutChars_eq hcut)
    rw [List.length_append, List.length_append] at hlength
    omega

theorem cutChars_self_append (hne : needle ≠ []) (rest : List Char) :
    cutChars needle (needle ++ rest) = some ([], rest) := by
  obtain ⟨c, cs, rfl⟩ := List.exists_cons_of_ne_nil hne
  have hhere : (c :: cs).isPrefixOf (c :: (cs ++ rest)) :=
    List.isPrefixOf_iff_prefix.2 (List.prefix_append (c :: cs) rest)
  rw [List.cons_append, cutChars, if_pos hhere]
  simp

end Cut

theorem splitChars_of_cutChars_none {needle cs : List Char} (h : cutChars needle cs = none) :
    splitChars needle cs = [cs] := by
  rw [splitChars]
  split
  · rfl
  · split <;> simp_all

theorem splitChars_of_cutChars_some {needle cs before after : List Char} (hne : needle ≠ [])
    (h : cutChars needle cs = some (before, after)) :
    splitChars needle cs = before :: splitChars needle after := by
  rw [splitChars, dif_neg hne]
  split <;> simp_all

section Replace

variable {needle front back image : List Char}

theorem replaceChars_of_cutChars_none {cs : List Char} (h : cutChars needle cs = none) :
    replaceChars needle image cs = cs := by
  rw [replaceChars, splitChars_of_cutChars_none h]
  simp [joinChars]

theorem replaceChars_of_cutChars_some {cs before after : List Char} (hne : needle ≠ [])
    (h : cutChars needle cs = some (before, after)) :
    replaceChars needle image cs = before ++ image ++ replaceChars needle image after := by
  rw [replaceChars, replaceChars, splitChars_of_cutChars_some hne h]
  have hsome : splitChars needle after ≠ [] := by
    rw [splitChars]
    split
    · simp
    · split <;> simp
  simp [joinChars, List.intercalate_cons_of_ne_nil hsome]

/-- The first of two texts stays as it is if nothing is found in it, nor where they meet. -/
theorem replaceChars_append (hne : needle ≠ []) (hnone : cutChars needle front = none)
    (h : ¬ Straddles needle front back) :
    replaceChars needle image (front ++ back) = front ++ replaceChars needle image back := by
  have hcut := cutChars_append hnone h
  cases hback : cutChars needle back with
  | none =>
    rw [hback] at hcut
    rw [replaceChars_of_cutChars_none hback, replaceChars_of_cutChars_none hcut]
  | some found =>
    rw [hback] at hcut
    rw [replaceChars_of_cutChars_some hne hback, replaceChars_of_cutChars_some hne hcut]
    simp only [List.append_assoc]

/-- What is in front of a character that the needle does not hold stays as it is. -/
theorem replaceChars_append_cons {c : Char} (hc : c ∉ needle) (h : cutChars needle front = none)
    (image back : List Char) :
    replaceChars needle image (front ++ c :: back) =
      front ++ c :: replaceChars needle image back := by
  have hne : needle ≠ [] := by
    rintro rfl
    cases front <;> simp [cutChars] at h
  have hafter : ¬ Straddles needle [c] back := by
    rintro ⟨u, v, hu, -, rfl, hfront, -⟩
    obtain ⟨d, u, rfl⟩ := List.exists_cons_of_ne_nil hu
    obtain rfl := List.mem_singleton.1 (hfront.subset (List.mem_cons_self))
    exact hc (by simp)
  have hnone : cutChars needle [c] = none := by
    cases needle with
    | nil => exact absurd rfl hne
    | cons d needle => simp [cutChars, List.isPrefixOf, Ne.symm (List.ne_of_not_mem_cons hc)]
  rw [replaceChars_append hne h (not_straddles_cons hc front back)]
  exact congrArg (front ++ ·) (replaceChars_append hne hnone hafter)

end Replace

/-- Only all of a text is both at its start and at its end, so that it does not overlap itself. -/
def Unbordered (needle : List Char) : Prop :=
  ∀ w, w ≠ [] → w <+: needle → w <:+ needle → w = needle

namespace Unbordered

variable {needle : List Char}

/-- An unbordered text does not lie across the place in front of itself. -/
theorem not_straddles_self (h : Unbordered needle) (front rest : List Char) :
    ¬ Straddles needle front (needle ++ rest) := by
  rintro ⟨u, v, hu, hv, hneedle, -, hback⟩
  have hlength := congrArg List.length hneedle
  rw [List.length_append] at hlength
  have hpos := List.length_pos_iff.2 hu
  have hstart : v <+: needle :=
    List.prefix_of_prefix_length_le hback (List.prefix_append needle rest) (by omega)
  have hwhole := h v hv hstart ⟨u, hneedle.symm⟩
  rw [hwhole] at hlength
  omega

/-- Nor does it across the place behind one of its ends. -/
theorem not_straddles_end (h : Unbordered needle) {u v : List Char} (hneedle : needle = u ++ v)
    (rest : List Char) : ¬ Straddles needle v rest := by
  rintro ⟨u', v', hu', hv', heq, hfront, -⟩
  have hwhole := h u' hu' ⟨v', heq.symm⟩ (hfront.trans ⟨u, hneedle.symm⟩)
  have hlength := congrArg List.length heq
  rw [List.length_append, hwhole] at hlength
  have hpos := List.length_pos_iff.2 hv'
  omega

/-- A text with the first occurrence taken out alone, and then the others, is the same as with all
taken out at once exactly if none comes about where the first one was. -/
theorem replaceChars_joined_iff (h : Unbordered needle) (hne : needle ≠ [])
    {cs before after : List Char} (hcut : cutChars needle cs = some (before, after)) :
    replaceChars needle [] (before ++ after) = replaceChars needle [] cs ↔
      ¬ Straddles needle before after := by
  have hbefore := cutChars_before hne hcut
  rw [replaceChars_of_cutChars_some hne hcut, List.append_nil]
  refine ⟨?_, fun hmeet => replaceChars_append hne hbefore hmeet⟩
  rintro heq ⟨u, v, hu, hv, hneedle, ⟨front, rfl⟩, rest, rfl⟩
  have hfront : cutChars needle front = none := by
    cases hfound : cutChars needle front with
    | none => rfl
    | some found =>
      rw [cutChars_append_of_some hfound u] at hbefore
      cases hbefore
  have hv' : cutChars needle v = none := by
    refine cutChars_of_length_lt ?_
    rw [hneedle, List.length_append]
    exact Nat.lt_add_of_pos_left (List.length_pos_iff.2 hu)
  -- the needle that comes about is taken out, too
  have hjoined : replaceChars needle [] (front ++ u ++ (v ++ rest)) =
      front ++ replaceChars needle [] rest := by
    have hparts : front ++ u ++ (v ++ rest) = front ++ (needle ++ rest) := by
      simp only [hneedle, List.append_assoc]
    rw [hparts, replaceChars_append hne hfront (h.not_straddles_self front rest),
      replaceChars_of_cutChars_some hne (cutChars_self_append hne rest)]
    rfl
  -- and its parts stay where they are not put together
  rw [hjoined, replaceChars_append hne hv' (h.not_straddles_end hneedle rest)] at heq
  have hlength := congrArg List.length heq
  simp only [List.length_append] at hlength
  have hpos := List.length_pos_iff.2 hu
  omega

end Unbordered

/-- What is in front of the first occurrence of a doubled character does not end with it. -/
theorem getLast?_of_cutChars_double {x : Char} {cs before after : List Char}
    (h : cutChars [x, x] cs = some (before, after)) : before.getLast? ≠ some x := by
  intro hlast
  obtain ⟨init, rfl⟩ := List.getLast?_eq_some_iff.1 hlast
  have hfirst := cutChars_first h (p := init.length) (by simp)
  rw [cutChars_eq h] at hfirst
  simp [List.isPrefixOf] at hfirst

theorem cutChars_double_of_not_mem {x : Char} {cs : List Char} (h : x ∉ cs) :
    cutChars [x, x] cs = none := by
  cases hcut : cutChars [x, x] cs with
  | none => rfl
  | some found =>
    rw [cutChars_eq hcut] at h
    simp at h

/-- A doubled character put behind a text is found there if it is not found earlier: the text
neither holds it nor ends with the character. -/
theorem cutChars_double_iff {x : Char} {cs : List Char} :
    cutChars [x, x] (cs ++ [x, x]) = some (cs, []) ↔
      cutChars [x, x] cs = none ∧ cs.getLast? ≠ some x := by
  constructor
  · intro h
    constructor
    · cases hcut : cutChars [x, x] cs with
      | none => rfl
      | some found =>
        rw [cutChars_append_of_some hcut] at h
        simp at h
    · exact getLast?_of_cutChars_double h
  · rintro ⟨hnone, hlast⟩
    rw [cutChars_append_of_none hnone (.inl hlast)]
    simp [cutChars]

/-- A text that first occurs at the end of another, where that is put, is not found earlier there,
whatever follows. -/
theorem isPrefixOf_drop_eq_false {needle cs after : List Char} {p : Nat}
    (h : cutChars needle (cs ++ needle) = some (cs, [])) (hp : p < cs.length) :
    needle.isPrefixOf ((cs ++ needle ++ after).drop p) = false := by
  have hlonger : needle.length ≤ ((cs ++ needle).drop p).length := by
    rw [List.length_drop, List.length_append]
    omega
  rw [List.drop_append_of_le_length (by rw [List.length_append]; omega)]
  rw [Bool.eq_false_iff, Ne, List.isPrefixOf_iff_prefix]
  intro hprefix
  have := List.prefix_of_prefix_length_le hprefix (List.prefix_append _ after) hlonger
  rw [← List.isPrefixOf_iff_prefix, cutChars_first h hp] at this
  cases this

theorem cutChars_of_indexOf? {needle s : String}
    (h : indexOf? needle (s ++ needle) = some s.length) :
    cutChars needle.toList (s.toList ++ needle.toList) = some (s.toList, []) := by
  rw [indexOf?, String.toList_append] at h
  obtain ⟨⟨before, after⟩, hcut, hlength⟩ := Option.map_eq_some_iff.1 h
  have heq := cutChars_eq hcut
  rw [List.append_assoc] at heq
  obtain ⟨rfl, htail⟩ := List.append_inj heq (s.length_toList.trans hlength.symm)
  have hafter : after = [] := List.append_cancel_left ((List.append_nil _).trans htail).symm
  rw [hcut, hafter]

/-- A text is its own trimmed form if it neither starts nor ends with a blank. -/
theorem trimChars_eq_self_iff {cs : List Char} : trimChars cs = cs ↔
    (∀ c ∈ cs.head?, isBlank c = false) ∧ ∀ c ∈ cs.getLast?, isBlank c = false := by
  have hself (cs : List Char) : cs.dropWhile isBlank = cs ↔ ∀ c ∈ cs.head?, isBlank c = false := by
    rw [List.dropWhile_eq_self_iff]
    cases cs <;> simp
  rw [trimChars, trimRightChars, trimLeftChars]
  constructor
  · intro h
    have hlength := congrArg List.length h
    have hright := (cs.dropWhile isBlank).reverse.length_dropWhile_le isBlank
    rw [List.length_reverse] at hlength hright
    have hleft : cs.dropWhile isBlank = cs :=
      (List.dropWhile_sublist isBlank).eq_of_length_le (hlength ▸ hright)
    refine ⟨(hself cs).1 hleft, ?_⟩
    rw [hleft, ← List.reverse_inj, List.reverse_reverse] at h
    simpa using (hself cs.reverse).1 h
  · rintro ⟨hfirst, hlast⟩
    rw [(hself cs).2 hfirst, (hself cs.reverse).2 (by simpa using hlast), List.reverse_reverse]

theorem not_isBlank_of_head?_dropWhile {cs : List Char} {c : Char}
    (h : (cs.dropWhile isBlank).head? = some c) : isBlank c = false := by
  have hnot := List.head?_dropWhile_not isBlank cs
  rwa [h] at hnot

/-- A text is what is left of it when the blanks at its end are cut, and blanks. -/
theorem exists_eq_trimRightChars_append (cs : List Char) :
    ∃ blanks, cs = trimRightChars cs ++ blanks ∧ ∀ c ∈ blanks, isBlank c := by
  refine ⟨(cs.reverse.takeWhile isBlank).reverse, ?_, fun c hc => ?_⟩
  · rw [trimRightChars, ← List.reverse_append, List.takeWhile_append_dropWhile, List.reverse_reverse]
  · exact List.all_eq_true.1 (List.all_takeWhile (p := isBlank)) c (List.mem_reverse.1 hc)

theorem not_isBlank_of_getLast?_trimRightChars {cs : List Char} {c : Char}
    (h : (trimRightChars cs).getLast? = some c) : isBlank c = false := by
  rw [trimRightChars, List.getLast?_reverse] at h
  exact not_isBlank_of_head?_dropWhile h

/-- Trimming a text once more changes nothing. -/
theorem trimChars_trimChars (cs : List Char) : trimChars (trimChars cs) = trimChars cs := by
  rw [trimChars_eq_self_iff]
  constructor
  · intro c hc
    obtain ⟨blanks, hleft, -⟩ := exists_eq_trimRightChars_append (trimLeftChars cs)
    have hhead : (trimLeftChars cs).head? = some c := by
      rw [hleft, List.head?_append, ← trimChars, Option.mem_def.1 hc]
      rfl
    exact not_isBlank_of_head?_dropWhile hhead
  · exact fun c hc => not_isBlank_of_getLast?_trimRightChars hc

/-- A text is what is left of it when it is trimmed, with blanks around it. -/
theorem exists_eq_trimChars (cs : List Char) : ∃ front back, cs = front ++ trimChars cs ++ back ∧
    (∀ c ∈ front, isBlank c) ∧ ∀ c ∈ back, isBlank c := by
  obtain ⟨back, hback, hblanks⟩ := exists_eq_trimRightChars_append (trimLeftChars cs)
  refine ⟨cs.takeWhile isBlank, back, ?_, List.all_eq_true.1 List.all_takeWhile, hblanks⟩
  rw [List.append_assoc, trimChars, ← hback, trimLeftChars, List.takeWhile_append_dropWhile]

theorem length_trimChars_le (cs : List Char) : (trimChars cs).length ≤ cs.length := by
  obtain ⟨front, back, hcs, -⟩ := exists_eq_trimChars cs
  have hlength := congrArg List.length hcs
  simp only [List.length_append] at hlength
  omega

theorem trimRightChars_append_blanks {cs blanks : List Char} (h : ∀ c ∈ blanks, isBlank c) :
    trimRightChars (cs ++ blanks) = trimRightChars cs := by
  rw [trimRightChars, List.reverse_append, List.dropWhile_append_of_pos (by simpa using h),
    ← trimRightChars]

/-- Blanks around a trimmed text are cut. -/
theorem trimChars_around {front core back : List Char} (hcore : trimChars core = core)
    (hfront : ∀ c ∈ front, isBlank c) (hback : ∀ c ∈ back, isBlank c) :
    trimChars (front ++ core ++ back) = core := by
  have hright : trimRightChars (core ++ back) = trimRightChars core :=
    trimRightChars_append_blanks hback
  rw [trimChars, trimLeftChars, List.append_assoc, List.dropWhile_append_of_pos hfront]
  cases core with
  | nil => rw [List.nil_append, List.dropWhile_eq_nil_iff.2 hback, trimRightChars]; rfl
  | cons c core =>
    have hc : isBlank c = false := (trimChars_eq_self_iff.1 hcore).1 c rfl
    rw [List.cons_append, List.dropWhile_cons_of_neg (by simp [hc]), ← List.cons_append, hright]
    rwa [trimChars, trimLeftChars, List.dropWhile_cons_of_neg (by simp [hc])] at hcore

/-- Blanks are cut behind a text that ends with something else. -/
theorem trimRightChars_append {front : List Char} (h : ∀ c ∈ front.getLast?, isBlank c = false)
    (cs : List Char) : trimRightChars (front ++ cs) = front ++ trimRightChars cs := by
  have hfront : front.reverse.dropWhile isBlank = front.reverse := by
    rw [List.dropWhile_eq_self_iff]
    intro hlength
    have hhead : front.getLast? = some front.reverse[0] := by
      rw [← List.head?_reverse, List.head?_eq_getElem?, List.getElem?_eq_getElem hlength]
    exact Bool.eq_false_iff.1 (h _ hhead)
  rw [trimRightChars, List.reverse_append, List.dropWhile_append]
  split
  · next hnil => rw [hfront, List.reverse_reverse, trimRightChars, List.isEmpty_iff.1 hnil]; simp
  · rw [List.reverse_append, List.reverse_reverse, trimRightChars]

theorem dropWhile_append_of_ne_nil {p : Char → Bool} {cs ds : List Char} (h : cs.dropWhile p ≠ []) :
    (cs ++ ds).dropWhile p = cs.dropWhile p ++ ds := by
  rw [List.dropWhile_append, if_neg (by simpa using h)]

/-- Blanks are only cut before what ends with no blank. -/
theorem dropWhile_isBlank_append {cs : List Char} (hne : cs ≠ [])
    (hlast : ∀ c ∈ cs.getLast?, isBlank c = false) (tail : List Char) :
    (cs ++ tail).dropWhile isBlank = cs.dropWhile isBlank ++ tail ∧ cs.dropWhile isBlank ≠ [] ∧
      (cs.dropWhile isBlank).getLast? = cs.getLast? := by
  have hfound : cs.dropWhile isBlank ≠ [] := by
    intro hnil
    have hblank := List.dropWhile_eq_nil_iff.1 hnil _ (List.getLast_mem hne)
    rw [hlast _ (List.getLast?_eq_some_getLast hne)] at hblank
    cases hblank
  refine ⟨?_, hfound, ?_⟩
  · exact dropWhile_append_of_ne_nil hfound
  · conv => rhs; rw [← List.takeWhile_append_dropWhile (p := isBlank) (l := cs)]
    rw [List.getLast?_append, List.getLast?_eq_some_getLast hfound]
    rfl

theorem trimChars_trimLeftChars (cs : List Char) : trimChars (trimLeftChars cs) = trimChars cs := by
  rw [trimChars, trimLeftChars, trimLeftChars, List.dropWhile_idempotent isBlank, trimChars,
    trimLeftChars]

theorem trimChars_append_blanks (cs : List Char) {blanks : List Char} (h : ∀ c ∈ blanks, isBlank c) :
    trimChars (cs ++ blanks) = trimChars cs := by
  obtain ⟨front, back, heq, hfront, hback⟩ := exists_eq_trimChars cs
  conv => lhs; rw [heq, List.append_assoc]
  exact trimChars_around (trimChars_trimChars cs) hfront (List.forall_mem_append.2 ⟨hback, h⟩)

theorem trimChars_trimRightChars (cs : List Char) :
    trimChars (trimRightChars cs) = trimChars cs := by
  obtain ⟨blanks, heq, hblanks⟩ := exists_eq_trimRightChars_append cs
  conv => rhs; rw [heq]
  exact (trimChars_append_blanks _ hblanks).symm

theorem dropWhile_trim (s : String) :
    (trim s).toList.dropWhile isBlank = (trim s).toList := by
  have hstart := (trimChars_eq_self_iff.1 (trimChars_trimChars s.toList)).1
  rw [trim, String.toList_ofList]
  cases htrim : trimChars s.toList with
  | nil => rfl
  | cons c cs =>
    rw [htrim] at hstart
    exact List.dropWhile_cons_of_neg (by simp [hstart c rfl])

theorem trim_trim (s : String) : trim (trim s) = trim s := by
  simp [trim, trimChars_trimChars]

/-- Nothing is left exactly of a text of blanks. -/
theorem trimChars_eq_nil_iff {cs : List Char} : trimChars cs = [] ↔ ∀ c ∈ cs, isBlank c := by
  constructor
  · intro h
    obtain ⟨front, back, heq, hfront, hback⟩ := exists_eq_trimChars cs
    rw [h, List.append_nil] at heq
    rw [heq]
    exact List.forall_mem_append.2 ⟨hfront, hback⟩
  · intro h
    rw [trimChars, trimLeftChars, List.dropWhile_eq_nil_iff.2 h]
    rfl

/-- What is no blank is as often in a text when it is trimmed. -/
theorem countP_trimChars {p : Char → Bool} (hp : ∀ c, isBlank c → p c = false) (cs : List Char) :
    (trimChars cs).countP p = cs.countP p := by
  obtain ⟨front, back, heq, hfront, hback⟩ := exists_eq_trimChars cs
  have hfront' : front.countP p = 0 :=
    List.countP_eq_zero.2 fun c hc => by simp [hp c (hfront c hc)]
  have hback' : back.countP p = 0 := List.countP_eq_zero.2 fun c hc => by simp [hp c (hback c hc)]
  conv => rhs; rw [heq]
  rw [List.countP_append, List.countP_append, hfront', hback', Nat.zero_add, Nat.add_zero]

theorem trim_eq_empty_iff_isBlankText {s : String} : trim s = "" ↔ isBlankText s = true := by
  rw [trim, String.ofList_eq_empty_iff, trimChars_eq_nil_iff, isBlankText, List.all_eq_true]

/-- Where a text does not occur, there is nothing to replace. -/
theorem replace_of_cut?_none {needle s : String} (image : String) (h : cut? needle s = none) :
    replace needle image s = s := by
  have hnone : cutChars needle.toList s.toList = none := Option.map_eq_none_iff.1 h
  rw [replace, replaceChars_of_cutChars_none hnone, String.ofList_toList]

theorem span_append {α : Type} {p : α → Bool} {xs ys : List α} (hxs : ∀ x ∈ xs, p x)
    (hys : ∀ y ∈ ys.head?, p y = false) : (xs ++ ys).span p = (xs, ys) := by
  rw [List.span_eq_takeWhile_dropWhile, List.takeWhile_append_of_pos hxs,
    List.dropWhile_append_of_pos hxs]
  cases ys with
  | nil => simp
  | cons y ys => simp [hys y (by simp)]

end BulletScript.Text
