import BulletScript.Text.Lines
import BulletScript.Text.Word

/-! The characters of words and numbers are not blank. -/
namespace BulletScript.Text

variable {rows : Array Row} {row : Row} {n lo hi : Nat} {c : Char}

section Tables

theorem mem_of_coveringBetween (h : coveringBetween rows n lo hi = some row) :
    row ∈ rows.toList ∧ row.first ≤ n ∧ n ≤ row.last := by
  fun_induction coveringBetween rows n lo hi with
  | case1 => cases h
  | case2 lo hi _ mid found hfound hlt ih => exact ih h
  | case3 lo hi _ mid found hfound hge hgt ih => exact ih h
  | case4 lo hi _ mid found hfound hge hle =>
    cases h
    exact ⟨Array.mem_toList_iff.2 (Array.mem_of_getElem? hfound), Nat.le_of_not_lt hge,
      Nat.le_of_not_lt hle⟩
  | case5 => cases h

/-- The rows that a line of a table holds. -/
def rowsOf (line : List Char) : List Row :=
  ((fields ' ' line).filter (· ≠ [])).map fun row => (fields ',' row).map hexNumber

/-- Runs of code points without letters and digits; the blanks beyond ASCII are in them. -/
def gaps : List (Nat × Nat) :=
  [(0x80, 0xA0), (0x1680, 0x1680), (0x2000, 0x205F), (0x3000, 0x3000)]

/-- Whether a row meets none of the gaps. -/
def Row.avoidsGaps (row : Row) : Bool :=
  gaps.all fun (first, last) => last < row.first || row.last < first

def AvoidsGaps (rows : Array Row) : Prop := ∀ row ∈ rows.toList, row.avoidsGaps = true

theorem AvoidsGaps.covering_eq_none (h : AvoidsGaps rows) {gap : Nat × Nat} (hgap : gap ∈ gaps)
    (hfirst : gap.1 ≤ n) (hlast : n ≤ gap.2) : covering rows n = none := by
  cases hcovering : covering rows n with
  | none => rfl
  | some row =>
    obtain ⟨hmem, hle, hge⟩ := mem_of_coveringBetween hcovering
    have haway := List.all_eq_true.1 (h row hmem) gap hgap
    rw [Bool.or_eq_true, decide_eq_true_eq, decide_eq_true_eq] at haway
    omega

/-- The lines of a table as characters, so that they can be computed with. -/
theorem cons_spelled {s : String} {cs : List Char} {lines : List String}
    {spelled : List (List Char)} (hs : s = String.ofList cs)
    (h : lines = spelled.map String.ofList) :
    s :: lines = (cs :: spelled).map String.ofList := by
  rw [hs, h, List.map_cons]

theorem avoidsGaps_of_spelled {lines : List String} {spelled : List (List Char)}
    (hlines : lines = spelled.map String.ofList)
    (h : (spelled.flatMap rowsOf).all Row.avoidsGaps = true) : AvoidsGaps (table lines) := by
  have hrows : (table lines).toList = spelled.flatMap rowsOf := by
    rw [hlines, table, List.flatMap_map]
    simp only [String.toList_ofList]
    rfl
  rw [AvoidsGaps, hrows]
  exact List.all_eq_true.1 h

theorem avoidsGaps_wordTable : AvoidsGaps wordTable := by
  apply avoidsGaps_of_spelled
  · repeat apply cons_spelled rfl
    exact List.map_nil.symm
  · decide +kernel

theorem avoidsGaps_decimalTable : AvoidsGaps decimalTable := by
  apply avoidsGaps_of_spelled
  · repeat apply cons_spelled rfl
    exact List.map_nil.symm
  · decide +kernel

end Tables

section Characters

/-- A blank is ASCII or in one of the gaps. -/
theorem gap_of_isBlank (h : isBlank c = true) (hascii : ¬c.toNat < 128) :
    ∃ gap ∈ gaps, gap.1 ≤ c.toNat ∧ c.toNat ≤ gap.2 := by
  simp only [isBlank, Bool.or_eq_true, Bool.and_eq_true, decide_eq_true_eq, beq_iff_eq] at h
  simp only [gaps, List.mem_cons, List.not_mem_nil, or_false, exists_eq_or_imp, exists_eq_left]
  omega

theorem code_of_isAlpha (h : c.isAlpha = true) :
    (65 ≤ c.toNat ∧ c.toNat ≤ 90) ∨ (97 ≤ c.toNat ∧ c.toNat ≤ 122) := by
  rcases Bool.or_eq_true_iff.1 (show (c.isUpper || c.isLower) = true from h) with h | h
  · have h : 65 ≤ c.val ∧ c.val ≤ 90 := of_decide_eq_true h
    exact .inl h
  · have h : (decide (97 ≤ c.val) && decide (c.val ≤ 122)) = true := h
    rw [Bool.and_eq_true, decide_eq_true_eq, decide_eq_true_eq] at h
    exact .inr h

theorem code_of_isAlphanum (h : c.isAlphanum = true) :
    (48 ≤ c.toNat ∧ c.toNat ≤ 57) ∨ (65 ≤ c.toNat ∧ c.toNat ≤ 90) ∨
      (97 ≤ c.toNat ∧ c.toNat ≤ 122) := by
  rcases Bool.or_eq_true_iff.1 (show (c.isAlpha || c.isDigit) = true from h) with h | h
  · exact .inr (code_of_isAlpha h)
  · have h : (decide (48 ≤ c.val) && decide (c.val ≤ 57)) = true := h
    rw [Bool.and_eq_true, decide_eq_true_eq, decide_eq_true_eq] at h
    exact .inl h

theorem isBlank_of_isAlphanum (h : c.isAlphanum = true ∨ c = '_') : isBlank c = false := by
  rcases h with h | rfl
  · have hcode := code_of_isAlphanum h
    simp only [isBlank, Bool.or_eq_false_iff, Bool.and_eq_false_iff, decide_eq_false_iff_not,
      beq_eq_false_iff_ne]
    omega
  · decide

theorem isBlank_of_isWord (h : isWord c = true) : isBlank c = false := by
  by_cases hascii : c.toNat < 128
  · rw [isWord, if_pos hascii, Bool.or_eq_true, beq_iff_eq] at h
    exact isBlank_of_isAlphanum h
  · refine Bool.eq_false_iff.2 fun hblank => ?_
    obtain ⟨gap, hgap, hfirst, hlast⟩ := gap_of_isBlank hblank hascii
    have hnone := avoidsGaps_wordTable.covering_eq_none hgap hfirst hlast
    rw [isWord, if_neg hascii, covers, hnone] at h
    cases h

theorem isBlank_of_isDecimal (h : isDecimal c = true) : isBlank c = false := by
  by_cases hascii : c.toNat < 128
  · have hdigit : c.isDigit = true := by
      rw [isDecimal, decimalValue?, if_pos hascii] at h
      by_cases hdigit : c.isDigit = true
      · exact hdigit
      · simp [hdigit] at h
    exact isBlank_of_isAlphanum (.inl (by simp [Char.isAlphanum, hdigit]))
  · refine Bool.eq_false_iff.2 fun hblank => ?_
    obtain ⟨gap, hgap, hfirst, hlast⟩ := gap_of_isBlank hblank hascii
    have hnone := avoidsGaps_decimalTable.covering_eq_none hgap hfirst hlast
    rw [isDecimal, decimalValue?, if_neg hascii, hnone] at h
    cases h

/-- Line boundaries are blanks. -/
theorem isLineBoundary_of_not_isBlank (h : isBlank c = false) : isLineBoundary c = false := by
  simp only [isLineBoundary, isBlank, Bool.or_eq_false_iff, Bool.and_eq_false_iff,
    decide_eq_false_iff_not, beq_eq_false_iff_ne] at h ⊢
  omega

end Characters

end BulletScript.Text
