import BulletScript.Text.Lines
import Mathlib.Data.List.DropRight

/-! Cutting a text into its lines and putting lines together undo each other, as long as no line
holds a newline. -/
namespace BulletScript.Text

theorem cutChars_singleton_none {c : Char} {cs : List Char} (h : cutChars [c] cs = none) :
    c ∉ cs := by
  induction cs with
  | nil => simp
  | cons d rest ih =>
    simp only [cutChars] at h
    split at h
    · cases h
    · rename_i hd
      simp only [List.isPrefixOf, Bool.and_true, beq_iff_eq] at hd
      simp only [Option.map_eq_none_iff] at h
      simp [hd, ih h]

theorem cutChars_singleton_some {c : Char} {cs before after : List Char}
    (h : cutChars [c] cs = some (before, after)) : c ∉ before := by
  induction cs generalizing before with
  | nil => simp [cutChars] at h
  | cons d rest ih =>
    simp only [cutChars] at h
    split at h
    · cases h
      simp
    · rename_i hd
      simp only [List.isPrefixOf, Bool.and_true, beq_iff_eq] at hd
      obtain ⟨⟨before', after'⟩, hrest, heq⟩ := Option.map_eq_some_iff.1 h
      cases heq
      simp [hd, ih hrest]

theorem splitChars_singleton (c : Char) (cs : List Char) : splitChars [c] cs = cs.splitOn c := by
  fun_induction splitChars [c] cs with
  | case1 cs h => cases h
  | case2 cs _ h => exact (List.splitOn_eq_singleton (cutChars_singleton_none h)).symm
  | case3 cs _ before after h _ ih =>
    rw [ih, cutChars_eq h]
    simp [List.splitOn_append_cons_self_of_not_mem (cutChars_singleton_some h)]

theorem lines_eq (s : String) : lines s = (s.toList.splitOn '\n').map .ofList :=
  congrArg (List.map String.ofList) (splitChars_singleton '\n' s.toList)

@[simp] theorem lines_ne_nil (s : String) : lines s ≠ [] := by
  simp [lines_eq]

/-- A text without newlines is one line. -/
theorem lines_of_no_newline {s : String} (h : '\n' ∉ s.toList) : lines s = [s] := by
  simp [lines_eq, List.splitOn_eq_singleton h]

theorem unlines_lines (s : String) : unlines (lines s) = s := by
  simp [unlines, join, joinChars, lines_eq, List.map_map, Function.comp_def]

theorem toList_unlines (ls : List String) :
    (unlines ls).toList = ['\n'].intercalate (ls.map (·.toList)) := by
  simp [unlines, join, joinChars]

theorem lines_append (s t : String) : lines (s ++ "\n" ++ t) = lines s ++ lines t := by
  simp [lines_eq, List.splitOn_append_cons_self]

theorem unlines_cons (l : String) {ls : List String} (h : ls ≠ []) :
    unlines (l :: ls) = l ++ "\n" ++ unlines ls := by
  obtain ⟨m, ms, rfl⟩ := List.exists_cons_of_ne_nil h
  apply String.toList_injective
  simp [toList_unlines]

/-- The lines of joined pieces are those of the pieces. -/
theorem lines_unlines {pieces : List String} (h : pieces ≠ []) :
    lines (unlines pieces) = pieces.flatMap lines := by
  induction pieces with
  | nil => exact absurd rfl h
  | cons piece rest ih =>
    by_cases hrest : rest = []
    · subst hrest
      simp [unlines, join, joinChars]
    · rw [unlines_cons piece hrest, lines_append, ih hrest, List.flatMap_cons]

theorem not_mem_of_mem_splitOn {c : Char} {cs l : List Char} (h : l ∈ cs.splitOn c) : c ∉ l := by
  induction cs generalizing l with
  | nil => simp_all
  | cons d rest ih =>
    rw [List.splitOn_cons_eq_if_modifyHead] at h
    split at h
    · rcases List.mem_cons.1 h with rfl | h
      · simp
      · exact ih h
    · rename_i hd
      obtain ⟨first, others, hrest⟩ := List.exists_cons_of_ne_nil (List.splitOn_ne_nil c rest)
      rw [hrest, List.modifyHead_cons] at h
      rcases List.mem_cons.1 h with rfl | h
      · have hfirst := ih (l := first) (by simp [hrest])
        have hdc : c ≠ d := fun heq => hd (by simp [heq])
        simp [hdc, hfirst]
      · exact ih (by simp [hrest, h])

/-- The first piece of a text has nothing in front of it, and every other a separator. -/
theorem splitOn_eq_cons {c : Char} {cs first : List Char} {others : List (List Char)}
    (h : cs.splitOn c = first :: others) :
    (∃ back, cs = first ++ back ∧ ∀ d ∈ back.head?, d = c) ∧
      ∀ piece ∈ others, ∃ front back, cs = front ++ c :: piece ++ back ∧
        ∀ d ∈ back.head?, d = c := by
  induction cs generalizing first others with
  | nil =>
    rw [List.splitOn_nil] at h
    obtain ⟨rfl, rfl⟩ := List.cons.inj h
    exact ⟨⟨[], by simp⟩, List.forall_mem_nil _⟩
  | cons d cs ih =>
    obtain ⟨first', others', hrest⟩ := List.exists_cons_of_ne_nil (List.splitOn_ne_nil c cs)
    obtain ⟨⟨back, hback, hhead⟩, hothers⟩ := ih hrest
    have hfurther : ∀ piece ∈ others', ∃ front back, d :: cs = front ++ c :: piece ++ back ∧
        ∀ e ∈ back.head?, e = c := by
      intro piece hpiece
      obtain ⟨front, after, hcs, hafter⟩ := hothers piece hpiece
      exact ⟨d :: front, after, by simp [hcs], hafter⟩
    rw [List.splitOn_cons_eq_if_modifyHead, hrest] at h
    by_cases hd : d = c
    · rw [if_pos (beq_iff_eq.2 hd)] at h
      obtain ⟨rfl, rfl⟩ := List.cons.inj h
      refine ⟨⟨d :: cs, by simp [hd]⟩, List.forall_mem_cons.2 ⟨?_, hfurther⟩⟩
      exact ⟨[], back, by simp [hd, hback], hhead⟩
    · rw [if_neg (by simpa using hd), List.modifyHead_cons] at h
      obtain ⟨rfl, rfl⟩ := List.cons.inj h
      exact ⟨⟨back, by simp [hback], hhead⟩, hfurther⟩

/-- A piece is at the start of a text or behind a separator, and at its end or in front of one. -/
theorem exists_around_of_mem_splitOn {c : Char} {cs piece : List Char} (h : piece ∈ cs.splitOn c) :
    ∃ front back, cs = front ++ piece ++ back ∧ (∀ d ∈ front.getLast?, d = c) ∧
      ∀ d ∈ back.head?, d = c := by
  obtain ⟨first, others, hsplit⟩ := List.exists_cons_of_ne_nil (List.splitOn_ne_nil c cs)
  obtain ⟨⟨back, hback, hhead⟩, hothers⟩ := splitOn_eq_cons hsplit
  rw [hsplit, List.mem_cons] at h
  rcases h with rfl | h
  · exact ⟨[], back, by simpa using hback, by simp, hhead⟩
  · obtain ⟨front, after, hcs, hafter⟩ := hothers piece h
    exact ⟨front ++ [c], after, by simp [hcs], by simp, hafter⟩

theorem no_newline_of_mem_lines {s l : String} (h : l ∈ lines s) : '\n' ∉ l.toList := by
  rw [lines_eq] at h
  obtain ⟨cs, hcs, rfl⟩ := List.mem_map.1 h
  rw [String.toList_ofList]
  exact not_mem_of_mem_splitOn hcs

/-- Lines without newlines are found again in the text they make. -/
theorem lines_unlines_of_no_newline {ls : List String} (hne : ls ≠ [])
    (h : ∀ l ∈ ls, '\n' ∉ l.toList) : lines (unlines ls) = ls := by
  rw [lines_unlines hne]
  clear hne
  induction ls with
  | nil => rfl
  | cons l rest ih =>
    rw [List.flatMap_cons, lines_of_no_newline (h l (by simp)), ih fun m hm => h m (by simp [hm])]
    rfl

theorem unlines_append {xs ys : List String} (hxs : xs ≠ []) (hys : ys ≠ []) :
    unlines (xs ++ ys) = unlines xs ++ "\n" ++ unlines ys := by
  induction xs with
  | nil => exact absurd rfl hxs
  | cons x rest ih =>
    by_cases hrest : rest = []
    · subst hrest
      rw [List.singleton_append, unlines_cons x hys]
      simp [unlines, join, joinChars]
    · rw [List.cons_append, unlines_cons x (by simp [hrest]), ih hrest, unlines_cons x hrest]
      simp only [String.append_assoc]

/-- A document is the lines before a part of it, each with its newline, the part, and the lines
after it, each behind a newline. -/
theorem unlines_around (before after : List String) {part : List String} (hpart : part ≠ []) :
    unlines (before ++ part ++ after) =
      String.join (before.map (· ++ "\n")) ++ unlines part ++
        String.join (after.map ("\n" ++ ·)) := by
  have hafter (ls : List String) (hls : ls ≠ []) :
      "\n" ++ unlines ls = String.join (ls.map ("\n" ++ ·)) := by
    induction ls with
    | nil => exact absurd rfl hls
    | cons l rest ih =>
      by_cases hrest : rest = []
      · subst hrest
        simp [unlines, join, joinChars]
      · rw [unlines_cons l hrest, List.map_cons, String.join_cons, ← ih hrest]
        simp only [String.append_assoc]
  induction before with
  | nil =>
    by_cases hnil : after = []
    · simp [hnil]
    · rw [List.nil_append, unlines_append hpart hnil, ← hafter after hnil]
      simp [String.append_assoc]
  | cons l rest ih =>
    rw [List.cons_append, List.cons_append, unlines_cons l (by simp [hpart]), ih, List.map_cons,
      String.join_cons]
    simp only [String.append_assoc]

/-- A text that ends with a newline has an empty last line, after others. -/
theorem lines_of_endsWith {s : String} (h : endsWith "\n" s = true) :
    ∃ first, first ≠ [] ∧ lines s = first ++ [""] := by
  obtain ⟨cs, hcs⟩ := List.isSuffixOf_iff_suffix.1 h
  have hs : s = .ofList cs ++ "\n" ++ "" := by
    apply String.toList_injective
    simp [← hcs]
  refine ⟨lines (.ofList cs), lines_ne_nil _, ?_⟩
  rw [hs, lines_append, show lines "" = [""] from lines_of_no_newline (by simp)]

theorem endsWith_unlines {first : List String} (h : first ≠ []) :
    endsWith "\n" (unlines (first ++ [""])) = true := by
  rw [unlines_append h (by simp), endsWith, List.isSuffixOf_iff_suffix]
  exact ⟨(unlines first).toList, by simp [unlines, join, joinChars]⟩

/-- A text has one line more than newlines. -/
theorem length_lines (s : String) : (lines s).length = s.toList.count '\n' + 1 := by
  rw [lines_eq, List.length_map]
  induction s.toList with
  | nil => simp
  | cons c cs ih =>
    rw [List.splitOn_cons_eq_if_modifyHead]
    split
    · rename_i hc
      rw [List.length_cons, ih, eq_of_beq hc, List.count_cons_self]
    · rename_i hc
      rw [List.length_modifyHead, ih, List.count_cons_of_ne (by simpa using hc)]

/-- The beginning of a text has no more lines than all of it. -/
theorem length_lines_take (n : Nat) (s : String) : (lines (take n s)).length ≤ (lines s).length := by
  rw [length_lines, length_lines, take, String.toList_ofList]
  exact Nat.succ_le_succ ((List.take_sublist n s.toList).count_le '\n')

theorem exists_splitOn_append (c : Char) (xs ys : List Char) :
    ∃ front tail first rest, xs.splitOn c = front ++ [tail] ∧ ys.splitOn c = first :: rest ∧
      (xs ++ ys).splitOn c = front ++ (tail ++ first) :: rest := by
  obtain ⟨first, rest, hys⟩ := List.exists_cons_of_ne_nil (List.splitOn_ne_nil c ys)
  induction xs with
  | nil => exact ⟨[], [], first, rest, by simp, hys, by simp [hys]⟩
  | cons d xs ih =>
    obtain ⟨front, tail, first', rest', hxs, hys', happend⟩ := ih
    rw [List.cons_append, List.splitOn_cons_eq_if_modifyHead, List.splitOn_cons_eq_if_modifyHead,
      hxs, happend]
    by_cases hd : d = c
    · exact ⟨[] :: front, tail, first', rest', by simp [hd], hys', by simp [hd]⟩
    · rw [if_neg (by simpa using hd), if_neg (by simpa using hd)]
      cases front with
      | nil => exact ⟨[], d :: tail, first', rest', rfl, hys', rfl⟩
      | cons f front => exact ⟨(d :: f) :: front, tail, first', rest', rfl, hys', rfl⟩

/-- Where two texts meet, the last line of the first and the first line of the second are one. -/
theorem exists_lines_append (s t : String) :
    ∃ front tail first rest, lines s = front ++ [tail] ∧ lines t = first :: rest ∧
      lines (s ++ t) = front ++ (tail ++ first) :: rest := by
  obtain ⟨front, tail, first, rest, hs, ht, happend⟩ :=
    exists_splitOn_append '\n' s.toList t.toList
  refine ⟨front.map .ofList, .ofList tail, .ofList first, rest.map .ofList, ?_, ?_, ?_⟩
  · simp [lines_eq, hs]
  · simp [lines_eq, ht]
  · simp [lines_eq, happend, String.ofList_append]

/-- The last line of a text is what follows its last newline. -/
theorem rtakeWhile_of_lines {s tail : String} {front : List String}
    (h : lines s = front ++ [tail]) :
    s.toList.rtakeWhile (· ≠ '\n') = tail.toList := by
  have hplain : '\n' ∉ tail.toList := no_newline_of_mem_lines (s := s) (by simp [h])
  have htail : ∀ c ∈ tail.toList.reverse, decide (c ≠ '\n') = true := by
    intro c hc
    rw [List.mem_reverse] at hc
    exact decide_eq_true fun heq => hplain (heq ▸ hc)
  rw [← unlines_lines s, h]
  by_cases hfront : front = []
  · subst hfront
    have hone : unlines ([] ++ [tail]) = tail := by simp [unlines, join, joinChars]
    rw [hone, List.rtakeWhile_eq_self_iff]
    exact fun c hc => htail c (List.mem_reverse.2 hc)
  · have hlast : unlines [tail] = tail := by simp [unlines, join, joinChars]
    have hcut : (unlines (front ++ [tail])).toList.reverse =
        tail.toList.reverse ++ '\n' :: (unlines front).toList.reverse := by
      rw [unlines_append hfront (by simp), hlast]
      simp
    rw [List.rtakeWhile, hcut, List.takeWhile_append_of_pos htail]
    simp

theorem length_lines_eq_one {s : String} : (lines s).length = 1 ↔ '\n' ∉ s.toList := by
  constructor
  · intro h
    obtain ⟨l, hl⟩ := List.length_eq_one_iff.1 h
    have hs : s = l := by
      rw [← unlines_lines s, hl]
      simp [unlines, join, joinChars]
    rw [hs]
    exact no_newline_of_mem_lines (hl ▸ List.mem_singleton.2 rfl)
  · intro h
    rw [lines_of_no_newline h]
    rfl

theorem length_le_length_flatMap_lines (pieces : List String) :
    pieces.length ≤ (pieces.flatMap lines).length := by
  induction pieces with
  | nil => simp
  | cons piece rest ih =>
    have hpiece := List.length_pos_iff.2 (lines_ne_nil piece)
    rw [List.flatMap_cons, List.length_append, List.length_cons]
    omega

/-- There are as many lines as pieces exactly if no piece holds a newline. -/
theorem length_flatMap_lines {pieces : List String} :
    (pieces.flatMap lines).length = pieces.length ↔ ∀ piece ∈ pieces, '\n' ∉ piece.toList := by
  induction pieces with
  | nil => simp
  | cons piece rest ih =>
    have hpiece := List.length_pos_iff.2 (lines_ne_nil piece)
    have hrest := length_le_length_flatMap_lines rest
    rw [List.forall_mem_cons, ← ih, ← length_lines_eq_one, List.flatMap_cons, List.length_append,
      List.length_cons]
    omega

/-- A text that neither ends a line nor would be read as if it did. -/
def SingleLine (s : String) : Prop := '\n' ∉ s.toList ∧ '\r' ∉ s.toList

theorem singleLine_append {s t : String} :
    SingleLine (s ++ t) ↔ SingleLine s ∧ SingleLine t := by
  simp only [SingleLine, String.toList_append, List.mem_append, not_or]
  constructor
  · rintro ⟨⟨hns, hnt⟩, hrs, hrt⟩
    exact ⟨⟨hns, hrs⟩, hnt, hrt⟩
  · rintro ⟨⟨hns, hrs⟩, hnt, hrt⟩
    exact ⟨⟨hns, hnt⟩, hrs, hrt⟩

theorem SingleLine.of_subset {s t : String} (ht : SingleLine t) (h : s.toList ⊆ t.toList) :
    SingleLine s :=
  ⟨fun hn => ht.1 (h hn), fun hr => ht.2 (h hr)⟩

theorem no_return_plainNewlines (s : String) : '\r' ∉ (plainNewlines s).toList := by
  rw [plainNewlines, String.toList_ofList]
  fun_induction plainNewlinesChars s.toList with
  | case1 => simp
  | case2 rest ih => simp [ih]
  | case3 c rest _ ih =>
    split
    · simp [ih]
    · rename_i hc
      simp [ih, Ne.symm hc]

theorem plainNewlines_append {s : String} (h : '\r' ∉ s.toList) (t : String) :
    plainNewlines (s ++ t) = s ++ plainNewlines t := by
  have hchars (cs ds : List Char) (hcs : '\r' ∉ cs) :
      plainNewlinesChars (cs ++ ds) = cs ++ plainNewlinesChars ds := by
    induction cs with
    | nil => rfl
    | cons c rest ih =>
      rw [List.mem_cons, not_or] at hcs
      have hc := Ne.symm hcs.1
      rw [List.cons_append, plainNewlinesChars, if_neg hc, ih hcs.2, List.cons_append]
      exact fun _ heq _ => hc heq
  apply String.toList_injective
  simp [plainNewlines, hchars _ _ h]

theorem plainNewlines_of_no_return {s : String} (h : '\r' ∉ s.toList) : plainNewlines s = s := by
  have happend := plainNewlines_append h ""
  rwa [String.append_empty, show plainNewlines "" = "" from rfl, String.append_empty] at happend

theorem exists_of_mem_unlines {ls : List String} {c : Char} (hc : c ∈ (unlines ls).toList)
    (hne : c ≠ '\n') : ∃ l ∈ ls, c ∈ l.toList := by
  induction ls with
  | nil => simp [unlines, join, joinChars] at hc
  | cons l rest ih =>
    by_cases hrest : rest = []
    · subst hrest
      exact ⟨l, List.mem_singleton_self l, by simpa [unlines, join, joinChars] using hc⟩
    · have hparts : c ∈ l.toList ∨ c ∈ (unlines rest).toList := by
        simpa [unlines_cons l hrest, hne] using hc
      rcases hparts with hl | hmore
      · exact ⟨l, List.mem_cons_self, hl⟩
      · obtain ⟨m, hm, hcm⟩ := ih hmore
        exact ⟨m, List.mem_cons_of_mem l hm, hcm⟩

theorem no_return_unlines {ls : List String} (h : ∀ l ∈ ls, '\r' ∉ l.toList) :
    '\r' ∉ (unlines ls).toList := by
  intro hc
  obtain ⟨l, hl, hcl⟩ := exists_of_mem_unlines hc (by decide)
  exact h l hl hcl

theorem mem_intercalate {α : Type} {sep l : List α} {ls : List (List α)} {a : α} (hl : l ∈ ls)
    (ha : a ∈ l) : a ∈ sep.intercalate ls := by
  induction ls with
  | nil => cases hl
  | cons m rest ih =>
    by_cases hrest : rest = []
    · subst hrest
      rwa [List.intercalate_singleton, ← List.mem_singleton.1 hl]
    · rw [List.intercalate_cons_of_ne_nil hrest]
      rcases List.mem_cons.1 hl with rfl | hl
      · simp [ha]
      · simp [ih hl]

theorem mem_unlines {ls : List String} {l : String} {c : Char} (hl : l ∈ ls) (hc : c ∈ l.toList) :
    c ∈ (unlines ls).toList := by
  rw [toList_unlines]
  exact mem_intercalate (List.mem_map_of_mem hl) hc

theorem singleLine_of_mem_lines {s l : String} (hs : '\r' ∉ s.toList) (hl : l ∈ lines s) :
    SingleLine l := by
  refine ⟨no_newline_of_mem_lines hl, fun hr => hs ?_⟩
  rw [← unlines_lines s]
  exact mem_unlines hl hr

/-- Lines at the start of a document are read as they are, whatever is below them. -/
theorem lines_plainNewlines_append {front : List String} (hne : front ≠ [])
    (hfront : ∀ l ∈ front, SingleLine l) (rest : List String) :
    ∃ back, lines (plainNewlines (unlines (front ++ rest))) = front ++ back := by
  have hreturn := no_return_unlines fun l hl => (hfront l hl).2
  have hlines := lines_unlines_of_no_newline hne fun l hl => (hfront l hl).1
  by_cases hrest : rest = []
  · refine ⟨[], ?_⟩
    rw [hrest, List.append_nil, plainNewlines_of_no_return hreturn, hlines]
  · refine ⟨lines (plainNewlines (unlines rest)), ?_⟩
    have hnewline : '\r' ∉ (unlines front ++ "\n").toList := by simp [hreturn]
    rw [unlines_append hne hrest, plainNewlines_append hnewline, lines_append, hlines]

theorem boundaryLinesFrom_append {cs : List Char} (h : ∀ c ∈ cs, isLineBoundary c = false)
    (line rest : List Char) :
    boundaryLinesFrom line (cs ++ rest) = boundaryLinesFrom (cs.reverse ++ line) rest := by
  induction cs generalizing line with
  | nil => rfl
  | cons c cs ih =>
    have hc := h c (by simp)
    have hreturn : c ≠ '\r' := by
      rintro rfl
      exact absurd hc (by decide)
    rw [List.cons_append, boundaryLinesFrom, if_neg (by simp [hc]), ih fun d hd => h d (by simp [hd])]
    · simp
    · exact fun _ heq _ => hreturn heq

/-- Lines with text, none of them cut by a line boundary, are found again in the text they make. -/
theorem boundaryLines_unlines {ls : List String}
    (h : ∀ l ∈ ls, l ≠ "" ∧ ∀ c ∈ l.toList, isLineBoundary c = false) :
    boundaryLines (unlines ls) = ls := by
  induction ls with
  | nil => rfl
  | cons l rest ih =>
    obtain ⟨hne, hl⟩ := h l (by simp)
    have hrest := ih fun m hm => h m (by simp [hm])
    by_cases hnil : rest = []
    · subst hnil
      have hone := boundaryLinesFrom_append hl [] []
      rw [List.append_nil, List.append_nil, boundaryLinesFrom, if_neg (by simpa using hne),
        List.reverse_reverse] at hone
      simp [boundaryLines, unlines, join, joinChars, hone]
    · have hcut : (unlines (l :: rest)).toList = l.toList ++ '\n' :: (unlines rest).toList := by
        simp [unlines_cons l hnil]
      rw [boundaryLines, hcut, boundaryLinesFrom_append hl, boundaryLinesFrom,
        if_pos (by decide), List.map_cons]
      · rw [← boundaryLines, hrest]
        simp
      · simp

end BulletScript.Text
