import Mathlib.Data.List.DropRight
import BulletScript.Proofs.Outline.Line

/-! The block below a line, as part of the lines below it. -/
namespace BulletScript.Outline

open Text

/-- The lines of the block at an index, without the first. -/
def blockBelow (ls : List String) (index : Nat) : List String :=
  (ls.drop (index + 1)).take
    (bodyLength (indentWidth (ls.getD index "")) (ls.drop (index + 1)))

variable {base : Nat} {line : String} {below : List String}

theorem staysBelow_of_blank (h : isBlankText line = true) : staysBelow base line = true := by
  simp [staysBelow, h]

theorem staysBelow_of_lt (h : base < indentWidth line) : staysBelow base line = true := by
  simp [staysBelow, h]

theorem lt_of_staysBelow (h : staysBelow base line = true) (hline : isBlankText line = false) :
    base < indentWidth line := by
  simpa [staysBelow, hline] using h

/-- The block reaches at least to every line with text that only lines of the block precede. -/
theorem lt_bodyLength {rest : List String} (hbelow : ∀ l ∈ below, staysBelow base l = true)
    (hline : isBlankText line = false) (hbase : base < indentWidth line) :
    below.length < bodyLength base (below ++ line :: rest) := by
  rw [bodyLength, List.takeWhile_append_of_pos hbelow,
    List.takeWhile_cons_of_pos (staysBelow_of_lt hbase), List.reverse_append, List.reverse_cons,
    List.append_assoc, List.singleton_append, List.dropWhile_append]
  split
  · rw [List.dropWhile_cons_of_neg (by simp [hline])]
    simp
  · simp only [List.length_append, List.length_cons, List.length_reverse]
    omega

theorem bodyLength_cons (hline : isBlankText line = false) (hbase : base < indentWidth line)
    (below : List String) : bodyLength base (line :: below) = bodyLength base below + 1 := by
  rw [bodyLength, List.takeWhile_cons_of_pos (staysBelow_of_lt hbase), List.reverse_cons,
    List.dropWhile_append]
  split
  · rename_i hnil
    rw [List.dropWhile_cons_of_neg (by simp [hline]), bodyLength, List.isEmpty_iff.1 hnil]
    rfl
  · rw [List.length_append, bodyLength]
    rfl

theorem bodyLength_le_takeWhile (base : Nat) (below : List String) :
    bodyLength base below ≤ (below.takeWhile (staysBelow base)).length := by
  rw [bodyLength]
  exact Nat.le_trans (List.dropWhile_sublist _).length_le (by simp)

theorem bodyLength_le (base : Nat) (below : List String) : bodyLength base below ≤ below.length :=
  Nat.le_trans (bodyLength_le_takeWhile base below) (List.takeWhile_sublist _).length_le

/-- A blank line at the end is in no block. -/
theorem bodyLength_concat_blank (hline : isBlankText line = true) (below : List String) :
    bodyLength base (below ++ [line]) = bodyLength base below := by
  rw [bodyLength, bodyLength, List.takeWhile_append]
  split
  · rw [List.takeWhile_cons_of_pos (staysBelow_of_blank hline), List.takeWhile_nil,
      List.reverse_append, List.reverse_singleton, List.singleton_append,
      List.dropWhile_cons_of_pos hline]
    rename_i hall
    rw [(List.takeWhile_prefix _).eq_of_length hall]
  · rfl

theorem staysBelow_of_mem_block {l : String} (h : l ∈ below.take (bodyLength base below)) :
    staysBelow base l = true := by
  have hle : below.take (bodyLength base below) <+: below.takeWhile (staysBelow base) := by
    refine List.prefix_of_prefix_length_le (List.take_prefix _ _) (List.takeWhile_prefix _) ?_
    rw [List.length_take]
    exact Nat.le_trans (Nat.min_le_left _ _) (bodyLength_le_takeWhile base below)
  exact List.all_eq_true.1 List.all_takeWhile l (hle.subset h)

/-- A line with text is in the block exactly if it and all lines before it stay below. -/
theorem lt_bodyLength_iff {rest : List String} (hline : isBlankText line = false) :
    below.length < bodyLength base (below ++ line :: rest) ↔
      (∀ l ∈ below, staysBelow base l = true) ∧ base < indentWidth line := by
  constructor
  · intro h
    have hblock {l : String} (hl : l ∈ below ++ [line]) : staysBelow base l = true := by
      have hmem : l ∈ (below ++ line :: rest).take (bodyLength base (below ++ line :: rest)) := by
        obtain ⟨n, hn⟩ := Nat.exists_eq_add_of_lt h
        rw [hn, Nat.add_assoc, List.take_length_add_append, List.take_succ_cons]
        rcases List.mem_append.1 hl with hl | hl
        · exact List.mem_append_left _ hl
        · exact List.mem_append_right _ (by simp [List.mem_singleton.1 hl])
      exact staysBelow_of_mem_block hmem
    exact ⟨fun l hl => hblock (by simp [hl]), lt_of_staysBelow (hblock (by simp)) hline⟩
  · rintro ⟨hbelow, hbase⟩
    exact lt_bodyLength hbelow hline hbase

theorem take_bodyLength (base : Nat) (below : List String) :
    below.take (bodyLength base below) =
      ((below.takeWhile (staysBelow base)).reverse.dropWhile isBlankText).reverse := by
  have hstays : ((below.takeWhile (staysBelow base)).reverse.dropWhile isBlankText).reverse <+:
      below.takeWhile (staysBelow base) := by
    rw [← List.reverse_suffix, List.reverse_reverse]
    exact List.dropWhile_suffix _
  have hprefix := hstays.trans (List.takeWhile_prefix _)
  rw [List.prefix_iff_eq_take, List.length_reverse] at hprefix
  exact hprefix.symm

/-- A block has no line that does not belong to it. -/
theorem bodyLength_take (base : Nat) (below : List String) :
    bodyLength base (below.take (bodyLength base below)) = bodyLength base below := by
  have hstays : (below.take (bodyLength base below)).takeWhile (staysBelow base) =
      below.take (bodyLength base below) :=
    List.takeWhile_eq_self_iff.2 fun l hl => staysBelow_of_mem_block hl
  rw [bodyLength, hstays, take_bodyLength, List.reverse_reverse, List.dropWhile_idempotent,
    bodyLength]

/-- A line with text that is not in the block ends it, whatever comes after. -/
theorem bodyLength_append_of_le {rest : List String} (hline : isBlankText line = false)
    (h : bodyLength base (below ++ line :: rest) ≤ below.length) (others : List String) :
    bodyLength base (below ++ line :: others) = bodyLength base below := by
  have hends : ¬((∀ l ∈ below, staysBelow base l = true) ∧ base < indentWidth line) :=
    fun hstays => Nat.not_lt.2 h ((lt_bodyLength_iff hline).2 hstays)
  rw [bodyLength, bodyLength, List.takeWhile_append]
  split
  · rename_i hall
    have hbelow := (List.takeWhile_prefix (staysBelow base)).eq_of_length hall
    have hline : staysBelow base line = false := by
      rw [Bool.eq_false_iff]
      exact fun hstays => hends ⟨fun l hl => List.all_eq_true.1 List.all_takeWhile l (hbelow ▸ hl),
        lt_of_staysBelow hstays hline⟩
    rw [List.takeWhile_cons_of_neg (by simp [hline]), List.append_nil, hbelow]
  · rfl

theorem bodyLength_append_of_pos {rest : List String}
    (hbelow : ∀ l ∈ below, staysBelow base l = true) (hrest : 0 < bodyLength base rest) :
    bodyLength base (below ++ rest) = below.length + bodyLength base rest := by
  rw [bodyLength] at hrest
  rw [bodyLength, List.takeWhile_append_of_pos hbelow, List.reverse_append, List.dropWhile_append,
    if_neg (by simpa [List.isEmpty_iff] using List.length_pos_iff.1 hrest), List.length_append,
    List.length_reverse, bodyLength, Nat.add_comm]

/-- What follows a block has no line that belongs to it. -/
theorem bodyLength_drop (base : Nat) (below : List String) :
    bodyLength base (below.drop (bodyLength base below)) = 0 := by
  rcases Nat.eq_zero_or_pos (bodyLength base (below.drop (bodyLength base below))) with h | hpos
  · exact h
  · have hblock : ∀ l ∈ below.take (bodyLength base below), staysBelow base l = true :=
      fun l hl => staysBelow_of_mem_block hl
    have happend := bodyLength_append_of_pos hblock hpos
    rw [List.take_append_drop, List.length_take, Nat.min_eq_left (bodyLength_le base below)]
      at happend
    omega

theorem exists_split {α : Type} {xs : List α} {x : α} {index : Nat} (h : xs[index]? = some x) :
    ∃ before after, xs = before ++ x :: after ∧ before.length = index := by
  obtain ⟨hlt, rfl⟩ := List.getElem?_eq_some_iff.1 h
  refine ⟨xs.take index, xs.drop (index + 1), ?_, ?_⟩
  · rw [List.getElem_cons_drop, List.take_append_drop]
  · rw [List.length_take]
    omega

theorem getD_length_append (before after : List String) (line : String) :
    (before ++ line :: after).getD before.length "" = line := by
  simp

theorem drop_length_append (before after : List String) (line : String) :
    (before ++ line :: after).drop (before.length + 1) = after := by
  rw [← List.drop_drop, List.drop_left]
  rfl

end BulletScript.Outline
