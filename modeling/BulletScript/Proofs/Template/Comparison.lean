import BulletScript.Proofs.Json.Consumed
import BulletScript.Proofs.Text.Search
import BulletScript.Template.Interpolate

/-! Texts read as literals. Nothing that is read is too long to be written, so that literals can
always be compared; and a text that begins or ends with the mark of a comparison is itself. -/
namespace BulletScript

open Json (isMarkChar)

/-- What a text is read as can be written. -/
theorem isWritable_parseLiteral (s : String) : (parseLiteral s).isWritable := by
  unfold parseLiteral
  dsimp only
  split
  · next v hword =>
    unfold literalWord? at hword
    split at hword
    · cases hword
      rfl
    · split at hword
      · cases hword
        rfl
      · split at hword <;> cases hword
        rfl
  · split
    · split
      · unfold Json.read?
        cases hread : Json.readChars (Text.trim s).toList with
        | error misread => rfl
        | ok v => exact (Json.readChars_consumed hread).1
      · rfl
    · rfl

/-- Two literals can be compared by every operator. -/
theorem compareValues_parseLiteral (s t : String) (op : CompareOp) :
    compareValues (parseLiteral s) op.text (parseLiteral t) =
      .ok (op.holds (parseLiteral s) (parseLiteral t)) := by
  have hop : CompareOp.ofText? op.text = some op := by cases op <;> decide
  rw [compareValues, hop]
  simp only [CompareOp.test, Value.checkWritable, isWritable_parseLiteral]
  split <;> rfl

section Marked

variable {s : String} {c : Char}

theorem literalWord?_of_mark (hmem : c ∈ s.toList) (hc : isMarkChar c) : literalWord? s = none := by
  have hne (word : String) (hword : word.toList.all (fun d => !isMarkChar d) = true) :
      s ≠ word := by
    rintro rfl
    simpa [hc] using List.all_eq_true.1 hword c hmem
  rw [literalWord?, if_neg (hne _ (by decide)), if_neg (hne _ (by decide)),
    if_neg (hne _ (by decide))]

/-- A trimmed text that begins with the mark of a comparison is a literal of its own. -/
theorem parseLiteral_of_head (htrim : Text.trim s = s) (hhead : s.toList.head? = some c)
    (hc : isMarkChar c) : parseLiteral s = .str s := by
  obtain ⟨rest, hrest⟩ : ∃ rest, s.toList = c :: rest := by
    cases hs : s.toList with
    | nil => simp [hs] at hhead
    | cons d rest => exact ⟨rest, by simp_all⟩
  have hstart : startsLiteral c = false := by
    simp only [isMarkChar, Bool.or_eq_true, beq_iff_eq] at hc
    rcases hc with ((rfl | rfl) | rfl) | rfl <;> decide
  rw [parseLiteral, htrim, literalWord?_of_mark (by simp [hrest]) hc, hrest]
  simp [hstart]

/-- A trimmed text that ends with the mark of a comparison is a literal of its own. -/
theorem parseLiteral_of_last (htrim : Text.trim s = s) (hlast : s.toList.getLast? = some c)
    (hc : isMarkChar c) : parseLiteral s = .str s := by
  have hread : Json.read? s = none := by
    unfold Json.read?
    cases hread : Json.readChars s.toList with
    | error misread => rfl
    | ok v =>
      rw [(Json.readChars_consumed hread).2 c hlast] at hc
      cases hc
  rw [parseLiteral, htrim, literalWord?_of_mark (List.mem_of_getLast? hlast) hc]
  dsimp only
  split
  · rw [hread]
    split <;> rfl
  · rfl

theorem lowerChar_mark (hc : isMarkChar c) :
    c ≠ 'Σ' ∧ c.toNat ≠ 0x130 ∧ Text.lowerChar c = c := by
  simp only [isMarkChar, Bool.or_eq_true, beq_iff_eq] at hc
  rcases hc with ((rfl | rfl) | rfl) | rfl <;> decide

theorem mem_lowerFrom (hc : isMarkChar c) {cs : List Char} (hmem : c ∈ cs) (before : List Char) :
    c ∈ Text.lowerFrom before cs := by
  induction cs generalizing before with
  | nil => cases hmem
  | cons d cs ih =>
    rw [Text.lowerFrom, List.mem_append]
    rcases List.mem_cons.1 hmem with rfl | hmem
    · obtain ⟨hsigma, hdotted, hself⟩ := lowerChar_mark hc
      rw [if_neg hsigma, if_neg hdotted, hself]
      exact .inl (List.mem_singleton_self c)
    · exact .inr (ih hmem _)

/-- A trimmed text with the mark of a comparison counts as true. -/
theorem truthy_of_mark (htrim : Text.trim s = s) (hmem : c ∈ s.toList) (hc : isMarkChar c) :
    (Value.str s).truthy := by
  have hlower : c ∈ (Text.lower s).toList := by
    rw [Text.lower, String.toList_ofList]
    exact mem_lowerFrom hc hmem []
  have hfalsy : ∀ word ∈ Value.falsyWords, word.toList.all (fun d => !isMarkChar d) = true := by
    decide
  rw [Value.truthy, htrim, Bool.not_eq_true', Bool.eq_false_iff, Ne, List.contains_iff_mem]
  intro hword
  simpa [hc] using List.all_eq_true.1 (hfalsy _ hword) c hlower

end Marked

end BulletScript

/-! Where a text is cut into the sides of a comparison: at the first operator that has something in
front of it and something behind it. -/
namespace BulletScript.Template

open Json (isMarkChar)

/-- An operator with something behind it, somewhere in a text. -/
def HasComparison (cs : List Char) : Prop :=
  ∃ (front right : List Char) (op : CompareOp), cs = front ++ (op.text.toList ++ right) ∧ right ≠ []

/-- A text without operators. -/
def OperatorFree (cs : List Char) : Prop := ∀ op : CompareOp, ¬ op.text.toList <:+: cs

variable {cs left front right gap : List Char} {op : CompareOp} {c : Char}

/-- Operators begin with the characters of marks. -/
theorem exists_operator_cons (op : CompareOp) :
    ∃ c mark, op.text.toList = c :: mark ∧ isMarkChar c ∧ Text.isBlank c = false := by
  cases op <;> exact ⟨_, _, rfl, by decide, by decide⟩

theorem not_isBlank_of_operator (op : CompareOp) (h : c ∈ op.text.toList) :
    Text.isBlank c = false := by
  have hall : op.text.toList.all (fun c => !Text.isBlank c) = true := by cases op <;> decide
  simpa using List.all_eq_true.1 hall c h

theorem not_isMarkChar_of_isBlank (h : Text.isBlank c) : isMarkChar c = false := by
  rw [Bool.eq_false_iff]
  intro hc
  simp only [isMarkChar, Bool.or_eq_true, beq_iff_eq] at hc
  rcases hc with ((rfl | rfl) | rfl) | rfl <;> exact absurd h (by decide)

theorem lastBlank_of_cons (h : ∀ d ∈ (c :: left).getLast?, Text.isBlank d = false) :
    ∀ d ∈ left.getLast?, Text.isBlank d = false := by
  cases left with
  | nil => simp
  | cons d left => simpa [List.getLast?_cons_cons] using h

theorem operatorFree_of_marks (h : ∀ c ∈ cs, isMarkChar c = false) : OperatorFree cs := by
  intro op hinfix
  obtain ⟨c, mark, hmark, hc, -⟩ := exists_operator_cons op
  have hmem : c ∈ cs := hinfix.subset (hmark ▸ List.mem_cons_self ..)
  rw [h c hmem] at hc
  cases hc

theorem OperatorFree.of_suffix (h : OperatorFree cs) (hright : right <:+ cs) :
    OperatorFree right := fun op hinfix => h op (List.IsInfix.trans hinfix hright.isInfix)

theorem cutCompareOp_eq_none_iff : cutCompareOp cs = none ↔
    ∀ (op : CompareOp) (right : List Char), cs = op.text.toList ++ right → right = [] := by
  rw [cutCompareOp, List.findSome?_eq_none_iff]
  constructor
  · rintro h op right rfl
    have hop := h op (by cases op <;> decide)
    simpa using hop
  · intro h op _
    rw [if_neg]
    rw [Bool.and_eq_true, decide_eq_true_eq, List.isPrefixOf_iff_prefix]
    rintro ⟨⟨right, rfl⟩, hlength⟩
    simp [h op right rfl] at hlength

/-- An operator is found where it stands, with what is behind it. -/
theorem cutCompareOp_text (hright : right ≠ []) (hnext : right.head? ≠ some '=') :
    cutCompareOp (op.text.toList ++ right) = some (op, right) := by
  obtain ⟨c, right, rfl⟩ := List.exists_cons_of_ne_nil hright
  have hc : ¬ '=' = c := fun h => hnext (h ▸ rfl)
  cases op <;> simp [cutCompareOp, CompareOp.text, hc]

/-- An operator that is found is in the text. -/
theorem eq_of_cutCompareOp (h : cutCompareOp cs = some (op, right)) :
    cs = op.text.toList ++ right ∧ right ≠ [] := by
  obtain ⟨op', -, hop⟩ := List.exists_of_findSome?_eq_some h
  dsimp only at hop
  split at hop
  · next hfound =>
    rw [Bool.and_eq_true, decide_eq_true_eq, List.isPrefixOf_iff_prefix] at hfound
    obtain ⟨⟨behind, rfl⟩, hlength⟩ := hfound
    simp only [List.drop_left, Option.some.injEq, Prod.mk.injEq] at hop
    obtain ⟨rfl, rfl⟩ := hop
    exact ⟨rfl, by rintro rfl; simp at hlength⟩
  · cases hop

theorem dropWhile_operator (op : CompareOp) (right : List Char) :
    (op.text.toList ++ right).dropWhile Text.isBlank = op.text.toList ++ right := by
  obtain ⟨c, mark, hmark, -, hblank⟩ := exists_operator_cons op
  rw [hmark, List.cons_append, List.dropWhile_cons_of_neg (by simp [hblank])]

/-- A text is cut no later than at an operator that it holds. -/
theorem splitComparisonFrom_of_operator (left front : List Char) (op : CompareOp)
    (hright : right ≠ []) :
    ∃ before found, splitComparisonFrom left (front ++ (op.text.toList ++ right)) =
      some (left.reverse ++ before, found) ∧ before.length ≤ front.length := by
  induction front generalizing left with
  | nil =>
    rw [List.nil_append, splitComparisonFrom.eq_def, dropWhile_operator]
    cases hcut : cutCompareOp (op.text.toList ++ right) with
    | none => exact absurd (cutCompareOp_eq_none_iff.1 hcut op right rfl) hright
    | some found => exact ⟨[], found, by simp, Nat.le_refl _⟩
  | cons c front ih =>
    rw [splitComparisonFrom.eq_def]
    cases cutCompareOp ((c :: front ++ (op.text.toList ++ right)).dropWhile Text.isBlank) with
    | some found => exact ⟨[], found, by simp, Nat.zero_le _⟩
    | none =>
      obtain ⟨before, found, hfound, hlength⟩ := ih (c :: left)
      refine ⟨c :: before, found, ?_, Nat.succ_le_succ hlength⟩
      dsimp only [List.cons_append]
      rw [hfound, List.reverse_cons, List.append_assoc, List.singleton_append]

/-- A text is not cut if and only if no operator in it has something behind it. -/
theorem splitComparisonFrom_eq_none_iff (left : List Char) :
    splitComparisonFrom left cs = none ↔ ¬ HasComparison cs := by
  constructor
  · rintro hnone ⟨front, right, op, rfl, hright⟩
    obtain ⟨before, found, hfound, -⟩ :=
      splitComparisonFrom_of_operator left front op hright
    rw [hnone] at hfound
    cases hfound
  · intro hfree
    induction cs generalizing left with
    | nil => rfl
    | cons c cs ih =>
      rw [splitComparisonFrom.eq_def]
      cases hcut : cutCompareOp ((c :: cs).dropWhile Text.isBlank) with
      | some found =>
        obtain ⟨op, right⟩ := found
        obtain ⟨htext, hright⟩ := eq_of_cutCompareOp hcut
        refine absurd ⟨(c :: cs).takeWhile Text.isBlank, right, op, ?_, hright⟩ hfree
        rw [← htext, List.takeWhile_append_dropWhile]
      | none =>
        refine ih (c :: left) fun ⟨front, right, op, htext, hright⟩ => hfree ?_
        exact ⟨c :: front, right, op, by rw [htext, List.cons_append], hright⟩

/-- An operator does not begin in a text without operators and end in the blanks behind it. -/
theorem cutCompareOp_before_gap (hfree : OperatorFree left) (hgap : gap ≠ [])
    (hblank : ∀ c ∈ gap, Text.isBlank c) (right : List Char) :
    cutCompareOp (left ++ (gap ++ right)) = none := by
  rw [cutCompareOp_eq_none_iff]
  intro op behind htext
  exfalso
  obtain ⟨d, gap, rfl⟩ := List.exists_cons_of_ne_nil hgap
  rcases List.append_eq_append_iff.1 htext with ⟨tail, hop, hbehind⟩ | ⟨tail, hleft, -⟩
  · cases tail with
    | nil =>
      rw [List.append_nil] at hop
      exact hfree op (hop ▸ List.infix_refl _)
    | cons e tail =>
      obtain rfl : d = e := (List.cons.inj hbehind).1
      have hnot : Text.isBlank d = false := not_isBlank_of_operator op (by simp [hop])
      rw [hblank d (List.mem_cons_self ..)] at hnot
      cases hnot
  · exact hfree op ⟨[], tail, by rw [hleft, List.nil_append]⟩

/-- Behind a text without operators, and blanks, the operator is found. -/
theorem splitComparisonFrom_append (before : List Char) (hfree : OperatorFree left)
    (hlast : ∀ c ∈ left.getLast?, Text.isBlank c = false) (hgap : gap ≠ [])
    (hblank : ∀ c ∈ gap, Text.isBlank c)
    (hright : cutCompareOp (op.text.toList ++ right) = some (op, right)) :
    splitComparisonFrom before (left ++ (gap ++ (op.text.toList ++ right))) =
      some (before.reverse ++ left, op, right) := by
  induction left generalizing before with
  | nil =>
    rw [List.nil_append, splitComparisonFrom.eq_def, List.dropWhile_append_of_pos hblank,
      dropWhile_operator, hright, List.append_nil]
  | cons c left ih =>
    have hcut : cutCompareOp ((c :: left ++ (gap ++ (op.text.toList ++ right))).dropWhile
        Text.isBlank) = none := by
      have hrest : (c :: left).dropWhile Text.isBlank ≠ [] := by
        intro hnil
        obtain ⟨d, hd⟩ :=
          Option.isSome_iff_exists.1 (List.getLast?_isSome.2 (List.cons_ne_nil c left))
        have hd' := List.dropWhile_eq_nil_iff.1 hnil d (List.mem_of_getLast? hd)
        rw [hlast d hd] at hd'
        cases hd'
      rw [Text.dropWhile_append_of_ne_nil hrest]
      exact cutCompareOp_before_gap (hfree.of_suffix (List.dropWhile_suffix _)) hgap hblank _
    rw [splitComparisonFrom.eq_def, hcut]
    dsimp only [List.cons_append]
    rw [ih (c :: before) (hfree.of_suffix (List.suffix_cons c left)) (lastBlank_of_cons hlast),
      List.reverse_cons, List.append_assoc, List.singleton_append]

/-- A text that begins with a side, blanks and an operator is cut there if no operator is in the
side behind its first character. -/
theorem splitComparison_append (hfree : OperatorFree left)
    (hlast : ∀ d ∈ (c :: left).getLast?, Text.isBlank d = false) (hgap : gap ≠ [])
    (hblank : ∀ c ∈ gap, Text.isBlank c)
    (hright : cutCompareOp (op.text.toList ++ right) = some (op, right)) :
    splitComparison (c :: left ++ (gap ++ (op.text.toList ++ right))) =
      some (c :: left, op, right) := by
  rw [List.cons_append, splitComparison]
  exact splitComparisonFrom_append [c] hfree (lastBlank_of_cons hlast) hgap hblank hright

/-- If there is an operator in the side behind its first character, the text is cut earlier. -/
theorem splitComparison_early (hfree : ¬ OperatorFree left) (hright : right ≠ []) :
    ∃ before found, splitComparison (c :: left ++ right) = some (before, found) ∧
      before.length < (c :: left).length := by
  obtain ⟨op, hop⟩ := not_forall.1 hfree
  obtain ⟨front, behind, rfl⟩ := not_not.1 hop
  have hbehind : behind ++ right ≠ [] := by simp [hright]
  obtain ⟨before, found, hfound, hlength⟩ :=
    splitComparisonFrom_of_operator [c] front op hbehind
  obtain ⟨d, mark, hmark, -⟩ := exists_operator_cons op
  refine ⟨c :: before, found, ?_, ?_⟩
  · rw [List.cons_append, splitComparison]
    simpa only [List.append_assoc, List.reverse_singleton, List.singleton_append] using hfound
  · simp only [hmark, List.length_cons, List.length_append]
    omega

/-- One sign of equality in front of a text without characters of operators begins none. -/
theorem not_hasComparison_of_marks (h : ∀ c ∈ cs, isMarkChar c = false) :
    ¬ HasComparison cs ∧ ¬ HasComparison ('=' :: cs) := by
  have hnone : ¬ HasComparison cs := fun ⟨front, right, op, htext, _⟩ =>
    operatorFree_of_marks h op ⟨front, right, by rw [htext, List.append_assoc]⟩
  refine ⟨hnone, fun ⟨front, right, op, htext, hright⟩ => ?_⟩
  cases front with
  | cons d front => exact hnone ⟨front, right, op, (List.cons.inj htext).2, hright⟩
  | nil =>
    cases op <;> simp [CompareOp.text] at htext
    simp [htext, isMarkChar] at h

/-- An operator that ends a text, without any in front of it, is none; of `>=` and `<=` the first
character is one. -/
theorem not_hasComparison_append_operator (h : ∀ c ∈ cs, isMarkChar c = false)
    (hop : op ≠ .ge ∧ op ≠ .le) : ¬ HasComparison (cs ++ op.text.toList) := by
  rintro ⟨front, right, found, htext, hright⟩
  have hone (hfound : op.text.toList = found.text.toList ++ right) : False := by
    cases op <;> cases found <;> simp_all [CompareOp.text]
  obtain ⟨c, mark, hmark, hc, -⟩ := exists_operator_cons found
  rcases List.append_eq_append_iff.1 htext with ⟨tail, -, hfound⟩ | ⟨tail, hcs, hfound⟩
  · have hlength : op.text.toList.length ≤ 2 := by cases op <;> decide
    have hbehind := List.length_pos_iff.2 hright
    have htail : tail = [] := by
      rw [hfound, hmark] at hlength
      simp only [List.length_append, List.length_cons] at hlength
      exact List.length_eq_zero_iff.1 (by omega)
    exact hone (by rw [hfound, htail, List.nil_append])
  · cases tail with
    | nil => exact hone hfound.symm
    | cons d tail =>
      rw [hmark, List.cons_append, List.cons_append] at hfound
      obtain rfl := (List.cons.inj hfound).1
      rw [h c (by simp [hcs])] at hc
      cases hc

end BulletScript.Template
