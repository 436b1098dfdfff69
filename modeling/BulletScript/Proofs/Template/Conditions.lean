import BulletScript.Proofs.Template.Comparison
import BulletScript.Proofs.Template.Segments

/-! Conditions as they are written and as they are read. The values are put in first, and the
operator is looked for in the text that results, so that what is compared depends on them. -/
namespace BulletScript.Template

open Json (isMarkChar)

/-- One side of a comparison: literal text in which no placeholder opens, or a placeholder. -/
inductive IsOperand : String → Prop
  | literal {text : String} : Text.cutChars openMark text.toList = none → IsOperand text
  | placeholder {inner : String} : IsInner inner → IsOperand (rawText inner)

/-- The text of a comparison. -/
def comparisonText (left : String) (op : CompareOp) (right : String) : String :=
  left ++ (" " ++ op.text ++ " ") ++ right

section Filling

variable {vars : Record} {left right l r : String} {op : CompareOp}

theorem IsOperand.segments (h : IsOperand left) : ∃ parts, segments left = .ok parts := by
  cases h with
  | literal hopen => exact ⟨_, segments_of_none hopen⟩
  | placeholder hinner => exact ⟨_, segments_rawText hinner⟩

theorem interpolateLenient_literal {text : String}
    (h : Text.cutChars openMark text.toList = none) (vars : Record) :
    interpolateLenient text vars = .ok text := interpolateWith_of_none h

/-- A comparison is filled side by side. -/
theorem interpolateLenient_comparison (hleft : IsOperand left) (hright : IsOperand right)
    (hl : interpolateLenient left vars = .ok l) (hr : interpolateLenient right vars = .ok r) :
    interpolateLenient (comparisonText left op right) vars = .ok (comparisonText l op r) := by
  have hopen : Text.cutChars openMark (" " ++ op.text ++ " ").toList = none := by
    cases op <;> decide
  obtain ⟨parts, hparts⟩ := hleft.segments
  obtain ⟨more, hmore⟩ := hright.segments
  have hgap := segments_of_none hopen
  have hbefore : Apart left.toList (" " ++ op.text ++ " ").toList :=
    .inr (by cases op <;> decide)
  have hbehind : Apart (left ++ (" " ++ op.text ++ " ")).toList right.toList :=
    .inl (by cases op <;> simp [CompareOp.text])
  have hfront := segments_append hparts hgap hbefore
  unfold interpolateLenient at hl hr ⊢
  rw [comparisonText, interpolateWith_append hfront hmore hbehind,
    interpolateWith_append hparts hgap hbefore, hl, hr]
  have hself := interpolateLenient_literal hopen vars
  unfold interpolateLenient at hself
  rw [hself]
  rfl

end Filling

section Cutting

variable {l left : List Char} {c : Char}

/-- What stays of a blank and a text behind it when the blanks at the end are cut. -/
theorem trimRightChars_gap (r : List Char) :
    Text.trimChars r = [] ∧ Text.trimRightChars (' ' :: r) = [] ∨
      Text.trimChars r ≠ [] ∧ ∃ front, (∀ c ∈ front, Text.isBlank c) ∧
        Text.trimRightChars (' ' :: r) = ' ' :: (front ++ Text.trimChars r) := by
  obtain ⟨front, back, hr, hfront, hback⟩ := Text.exists_eq_trimChars r
  have hblanks (blanks : List Char) (h : ∀ c ∈ blanks, Text.isBlank c) :
      Text.trimRightChars blanks = [] := by
    rw [Text.trimRightChars, List.dropWhile_eq_nil_iff.2 (by simpa using h), List.reverse_nil]
  by_cases hnil : Text.trimChars r = []
  · refine .inl ⟨hnil, hblanks _ fun c hc => ?_⟩
    rw [hnil, List.append_nil] at hr
    simp only [hr, List.mem_cons, List.mem_append] at hc
    rcases hc with rfl | hc | hc
    · decide
    · exact hfront c hc
    · exact hback c hc
  · refine .inr ⟨hnil, front, hfront, ?_⟩
    have hlast : ∀ c ∈ (' ' :: (front ++ Text.trimChars r)).getLast?, Text.isBlank c = false := by
      intro c hc
      refine (Text.trimChars_eq_self_iff.1 (Text.trimChars_trimChars r)).2 c ?_
      rw [← List.cons_append, List.getLast?_append, List.getLast?_eq_some_getLast hnil,
        Option.some_or] at hc
      rwa [List.getLast?_eq_some_getLast hnil]
    have htext : ' ' :: r = ' ' :: (front ++ Text.trimChars r) ++ back := by
      rw [List.cons_append, ← hr]
    rw [htext, Text.trimRightChars_append hlast, hblanks back hback, List.append_nil]

/-- A comparison without a left side begins with its operator. -/
theorem trimChars_comparison_of_nil (hl : Text.trimChars l = []) (op : CompareOp) (r : List Char) :
    Text.trimChars (l ++ (' ' :: (op.text.toList ++ ' ' :: r))) =
      op.text.toList ++ Text.trimRightChars (' ' :: r) := by
  obtain ⟨front, back, hfront, hblank, hblank'⟩ := Text.exists_eq_trimChars l
  have hblanks : ∀ c ∈ l ++ [' '], Text.isBlank c := by
    intro c hc
    rw [hfront, hl, List.append_nil, List.mem_append, List.mem_append, List.mem_singleton] at hc
    rcases hc with (hc | hc) | rfl
    · exact hblank c hc
    · exact hblank' c hc
    · decide
  rw [Text.trimChars, Text.trimLeftChars, ← List.singleton_append, ← List.append_assoc,
    List.dropWhile_append_of_pos hblanks, dropWhile_operator, Text.trimRightChars_append]
  exact fun c hc => not_isBlank_of_operator op (List.mem_of_getLast? hc)

/-- A comparison with a left side begins with this side, blanks and its operator. -/
theorem trimChars_comparison (hl : Text.trimChars l = c :: left) (op : CompareOp)
    (r : List Char) : ∃ gap, gap ≠ [] ∧ (∀ c ∈ gap, Text.isBlank c) ∧
      Text.trimChars (l ++ (' ' :: (op.text.toList ++ ' ' :: r))) =
        c :: left ++ (gap ++ (op.text.toList ++ Text.trimRightChars (' ' :: r))) := by
  obtain ⟨front, back, hfront, hblank, hblank'⟩ := Text.exists_eq_trimChars l
  have hc : Text.isBlank c = false :=
    (Text.trimChars_eq_self_iff.1 (Text.trimChars_trimChars l)).1 c (by simp [hl])
  refine ⟨back ++ [' '], by simp, ?_, ?_⟩
  · intro d hd
    rw [List.mem_append, List.mem_singleton] at hd
    rcases hd with hd | rfl
    · exact hblank' d hd
    · decide
  · obtain ⟨d, mark, hmark, -⟩ := exists_operator_cons op
    have hlast : ∀ e ∈ (c :: left ++ (back ++ [' '] ++ op.text.toList)).getLast?,
        Text.isBlank e = false := by
      intro e he
      rw [← List.append_assoc, List.getLast?_append,
        List.getLast?_eq_some_getLast (by simp [hmark]), Option.some_or] at he
      exact not_isBlank_of_operator op (by cases he; exact List.getLast_mem _)
    have htext : l ++ (' ' :: (op.text.toList ++ ' ' :: r)) =
        front ++ (c :: left ++ (back ++ [' '] ++ op.text.toList) ++ ' ' :: r) := by
      rw [hfront, hl]
      simp only [List.append_assoc, List.cons_append, List.nil_append]
    rw [htext, Text.trimChars, Text.trimLeftChars, List.dropWhile_append_of_pos hblank,
      List.cons_append, List.cons_append, List.dropWhile_cons_of_neg (by simp [hc]),
      ← List.cons_append, ← List.cons_append, Text.trimRightChars_append hlast]
    simp only [List.append_assoc]

end Cutting

/-- What a condition says when its values are put in: a comparison of two texts, or one that is
tested. -/
inductive Filled where
  | comparison (left : String) (op : CompareOp) (right : String)
  | test (text : String)
  deriving DecidableEq

namespace Filled

/-- What a text is read as. -/
def read (text : String) : Filled :=
  match splitComparison text.toList with
  | some (left, op, right) =>
    .comparison (.ofList (Text.trimChars left)) op (.ofList (Text.trimChars right))
  | none => .test text

/-- Whether it holds. -/
def value : Filled → Result Bool
  | .comparison left op right => compareValues (parseLiteral left) op.text (parseLiteral right)
  | .test text => .ok (parseLiteral text).truthy

/-- There is something to compare or to test. -/
def HasOperands : Filled → Prop
  | .comparison left _ right => left ≠ "" ∧ right ≠ ""
  | .test text => text ≠ ""

/-- Behind its first character the left side holds no operator, and a text that is tested holds none
with something behind it. -/
def Stands : Filled → Prop
  | .comparison left _ _ => OperatorFree left.toList.tail
  | .test text => ¬ HasComparison text.toList.tail

end Filled

/-- What a condition is read as. -/
def readCondition (expression : String) (vars : Record) : Result Filled := do
  return Filled.read (Text.trim (← interpolateLenient expression vars))

theorem conditionText_eq (text : String) :
    (.ok (conditionText text) : Result Bool) = (Filled.read text).value := by
  unfold conditionText Filled.read
  cases splitComparison text.toList with
  | none => rfl
  | some found => exact (compareValues_parseLiteral _ _ _).symm

/-- A condition has the value of what it is read as. -/
theorem condition_eq_value (expression : String) (vars : Record) :
    condition expression vars = (do (← readCondition expression vars).value) := by
  unfold condition readCondition
  cases interpolateLenient expression vars with
  | error failure => rfl
  | ok text =>
    simp only [bind, Except.bind, pure, Except.pure]
    exact conditionText_eq (Text.trim text)

theorem condition_of_read {expression : String} {vars : Record} {filled : Filled}
    (h : readCondition expression vars = .ok filled) :
    condition expression vars = filled.value := by
  rw [condition_eq_value, h]
  simp only [bind, Except.bind]

section Reading

variable {vars : Record} {left right l r : String} {op : CompareOp}

theorem toList_trim_comparison (l : String) (op : CompareOp) (r : String) :
    (Text.trim (comparisonText l op r)).toList =
      Text.trimChars (l.toList ++ (' ' :: (op.text.toList ++ ' ' :: r.toList))) := by
  simp [Text.trim, comparisonText]

theorem readCondition_comparison (hleft : IsOperand left) (hright : IsOperand right)
    (hl : interpolateLenient left vars = .ok l) (hr : interpolateLenient right vars = .ok r) :
    readCondition (comparisonText left op right) vars =
      .ok (Filled.read (Text.trim (comparisonText l op r))) := by
  rw [readCondition, interpolateLenient_comparison hleft hright hl hr]
  simp only [bind, Except.bind, pure, Except.pure]

theorem trim_eq_empty_iff {s : String} : Text.trim s = "" ↔ Text.trimChars s.toList = [] := by
  rw [← String.toList_eq_nil_iff, Text.trim, String.toList_ofList]

theorem exists_trim_eq_ofList {s : String} (h : Text.trim s ≠ "") :
    ∃ c cs, Text.trimChars s.toList = c :: cs ∧ Text.trim s = .ofList (c :: cs) ∧
      ∀ d ∈ (c :: cs).getLast?, Text.isBlank d = false := by
  obtain ⟨c, cs, hs⟩ := List.exists_cons_of_ne_nil (mt trim_eq_empty_iff.2 h)
  refine ⟨c, cs, hs, by rw [Text.trim, hs], ?_⟩
  rw [← hs]
  exact (Text.trimChars_eq_self_iff.1 (Text.trimChars_trimChars _)).2

/-- What the right side of a comparison leaves behind the operator. -/
theorem trimRightChars_right (h : Text.trim r ≠ "") :
    (Text.trimRightChars (' ' :: r.toList) ≠ [] ∧
      (Text.trimRightChars (' ' :: r.toList)).head? ≠ some '=') ∧
        String.ofList (Text.trimChars (Text.trimRightChars (' ' :: r.toList))) = Text.trim r := by
  rcases trimRightChars_gap r.toList with ⟨hnil, -⟩ | ⟨-, front, hfront, htext⟩
  · exact absurd (trim_eq_empty_iff.2 hnil) h
  · have hblanks : ∀ c ∈ ' ' :: front, Text.isBlank c := by
      intro c hc
      rcases List.mem_cons.1 hc with rfl | hc
      · decide
      · exact hfront c hc
    have hnone : ∀ c ∈ ([] : List Char), Text.isBlank c := nofun
    have hsides := Text.trimChars_around (Text.trimChars_trimChars r.toList) hblanks hnone
    rw [List.append_nil, List.cons_append] at hsides
    rw [htext, hsides]
    exact ⟨by simp, rfl⟩

/-- With two sides, and no operator in the left one behind its first character, a comparison is read
as it is written. -/
theorem read_comparison (hl : Text.trim l ≠ "") (hr : Text.trim r ≠ "")
    (hfree : OperatorFree (Text.trim l).toList.tail) :
    Filled.read (Text.trim (comparisonText l op r)) =
      .comparison (Text.trim l) op (Text.trim r) := by
  obtain ⟨c, cs, hchars, htrim, hlast⟩ := exists_trim_eq_ofList hl
  obtain ⟨gap, hgap, hblank, htext⟩ := trimChars_comparison hchars op r.toList
  obtain ⟨⟨hright, hnext⟩, hr'⟩ := trimRightChars_right hr
  rw [htrim, String.toList_ofList, List.tail_cons] at hfree
  have hself : Text.trimChars (c :: cs) = c :: cs := hchars ▸ Text.trimChars_trimChars _
  rw [Filled.read, toList_trim_comparison, htext, splitComparison_append hfree hlast hgap hblank
    (cutCompareOp_text hright hnext)]
  simp only [hr', hself, htrim]

/-- An operator in the left side decides, if there is one behind its first character. -/
theorem read_comparison_early (hl : Text.trim l ≠ "")
    (hfree : ¬ OperatorFree (Text.trim l).toList.tail) (op : CompareOp) (r : String) :
    ∃ left op' right, Filled.read (Text.trim (comparisonText l op r)) =
      .comparison left op' right ∧ left.length < (Text.trim l).length := by
  obtain ⟨c, cs, hchars, htrim, -⟩ := exists_trim_eq_ofList hl
  obtain ⟨gap, hgap, -, htext⟩ := trimChars_comparison hchars op r.toList
  rw [htrim, String.toList_ofList, List.tail_cons] at hfree
  have hbehind : gap ++ (op.text.toList ++ Text.trimRightChars (' ' :: r.toList)) ≠ [] := by
    simp [hgap]
  obtain ⟨before, ⟨op', right⟩, hsplit, hlength⟩ := splitComparison_early (c := c) hfree hbehind
  refine ⟨.ofList (Text.trimChars before), op', .ofList (Text.trimChars right), ?_, ?_⟩
  · rw [Filled.read, toList_trim_comparison, htext, hsplit]
  · rw [htrim, String.length_ofList, String.length_ofList]
    exact (Text.length_trimChars_le before).trans_lt hlength

/-- A text that is tested is read as a comparison if there is an operator in it, with something in
front of it and behind it. -/
theorem read_eq_test_iff {text : String} (h : text ≠ "") :
    Filled.read text = .test text ↔ ¬ HasComparison text.toList.tail := by
  obtain ⟨c, cs, hchars⟩ := List.exists_cons_of_ne_nil (mt String.toList_eq_nil_iff.1 h)
  rw [Filled.read, hchars, List.tail_cons, splitComparison, ← splitComparisonFrom_eq_none_iff [c]]
  cases splitComparisonFrom [c] cs <;> simp

theorem trim_comparison_ne_empty : Text.trim (comparisonText l op r) ≠ "" := by
  rw [Ne, ← String.toList_eq_nil_iff, toList_trim_comparison]
  obtain ⟨c, mark, hmark, -⟩ := exists_operator_cons op
  cases hl : Text.trimChars l.toList with
  | nil =>
    rw [trimChars_comparison_of_nil hl, hmark]
    simp
  | cons d left =>
    obtain ⟨gap, -, -, htext⟩ := trimChars_comparison hl op r.toList
    rw [htext]
    simp

/-- Without a left side a comparison is tested as a text, which counts as true. -/
theorem value_read_of_left_empty (hl : Text.trim l = "")
    (hr : ∀ c ∈ r.toList, isMarkChar c = false) :
    (Filled.read (Text.trim (comparisonText l op r))).value = .ok true := by
  obtain ⟨c, mark, hmark, hc, -⟩ := exists_operator_cons op
  have htext := toList_trim_comparison l op r
  rw [trimChars_comparison_of_nil (trim_eq_empty_iff.1 hl), hmark, List.cons_append] at htext
  have hright : ∀ d ∈ Text.trimRightChars (' ' :: r.toList), isMarkChar d = false := by
    obtain ⟨blanks, hblanks, -⟩ := Text.exists_eq_trimRightChars_append (' ' :: r.toList)
    intro d hd
    have hmem : d ∈ ' ' :: r.toList := hblanks ▸ List.mem_append_left blanks hd
    rcases List.mem_cons.1 hmem with rfl | hmem
    · decide
    · exact hr d hmem
  have hnone : ¬ HasComparison (Text.trim (comparisonText l op r)).toList.tail := by
    rw [htext, List.tail_cons]
    have hboth := not_hasComparison_of_marks hright
    cases op <;> cases hmark
    all_goals first | exact hboth.1 | exact hboth.2
  have hself : Text.trim (Text.trim (comparisonText l op r)) = Text.trim (comparisonText l op r) :=
    Text.trim_trim _
  rw [(read_eq_test_iff trim_comparison_ne_empty).2 hnone, Filled.value,
    parseLiteral_of_head hself (by rw [htext]; rfl) hc, truthy_of_mark hself (by simp [htext]) hc]

/-- An order does not hold if there is no number on the right. -/
theorem holds_of_no_number {a b : Value} (hb : b.toNumber? = none) (hop : op ≠ .eq ∧ op ≠ .ne) :
    op.holds a b = false := by
  unfold CompareOp.holds
  rw [hb]
  cases op <;> simp_all

theorem toNumber?_str_of_mark {s : String} {c : Char} (htrim : Text.trim s = s)
    (hhead : s.toList.head? = some c) (hc : isMarkChar c) : (Value.str s).toNumber? = none := by
  rw [Value.toNumber?, parseLiteral_of_head htrim hhead hc]

theorem toNumber?_parseLiteral_empty : (parseLiteral "").toNumber? = none := by
  have htrim : Text.trim "" = "" := by decide
  have hempty : parseLiteral "" = .str "" := by
    rw [parseLiteral, htrim, literalWord?, if_neg (by decide), if_neg (by decide),
      if_neg (by decide)]
    simp
  rw [hempty, Value.toNumber?, hempty]

/-- Without a right side it is too, except that `>=` and `<=` are then read as `>` and `<` with a
sign of equality behind them. -/
theorem value_read_of_right_empty (hl : Text.trim l ≠ "")
    (hfree : ∀ c ∈ l.toList, isMarkChar c = false) (hr : Text.trim r = "") :
    (Filled.read (Text.trim (comparisonText l op r))).value = .ok (op ≠ .ge ∧ op ≠ .le) := by
  obtain ⟨c, cs, hchars, htrim, hlast⟩ := exists_trim_eq_ofList hl
  obtain ⟨gap, hgap, hblank, hcut⟩ := trimChars_comparison hchars op r.toList
  have hright : Text.trimRightChars (' ' :: r.toList) = [] :=
    (trimRightChars_gap r.toList).elim And.right fun h => absurd (trim_eq_empty_iff.1 hr) h.1
  rw [hright] at hcut
  have htext := (toList_trim_comparison l op r).trans hcut
  have hside : ∀ d ∈ cs, isMarkChar d = false := by
    obtain ⟨front, back, hl', -⟩ := Text.exists_eq_trimChars l.toList
    intro d hd
    exact hfree d (by rw [hl', hchars]; simp [hd])
  have hself : Text.trim (Text.trim (comparisonText l op r)) = Text.trim (comparisonText l op r) :=
    Text.trim_trim _
  -- `>=` and `<=` begin with an operator that then has the rest behind it
  have horder (found : CompareOp) (hop : op.text.toList = found.text.toList ++ ['='])
      (hfound : cutCompareOp (found.text.toList ++ ['=']) = some (found, ['=']))
      (hordered : found ≠ .eq ∧ found ≠ .ne) :
      (Filled.read (Text.trim (comparisonText l op r))).value = .ok false := by
    have hsign : String.ofList (Text.trimChars ['=']) = "=" := by decide
    have hequals : Text.trim "=" = "=" := hsign
    rw [Filled.read, htext, List.append_nil, hop, splitComparison_append
      (operatorFree_of_marks hside) hlast hgap hblank hfound]
    refine (compareValues_parseLiteral _ _ _).trans (congrArg Except.ok ?_)
    refine holds_of_no_number ?_ hordered
    rw [hsign, parseLiteral_of_head hequals rfl (by decide)]
    exact toNumber?_str_of_mark hequals rfl (by decide)
  by_cases hop : op ≠ .ge ∧ op ≠ .le
  · have hnone : ¬ HasComparison (Text.trim (comparisonText l op r)).toList.tail := by
      have hgapside : ∀ d ∈ cs ++ gap, isMarkChar d = false := by
        intro d hd
        rcases List.mem_append.1 hd with hd | hd
        · exact hside d hd
        · exact not_isMarkChar_of_isBlank (hblank d hd)
      rw [htext, List.append_nil, List.cons_append, List.tail_cons, ← List.append_assoc]
      exact not_hasComparison_append_operator hgapside hop
    obtain ⟨d, hd, hlastmark⟩ : ∃ d, op.text.toList.getLast? = some d ∧ isMarkChar d := by
      cases op <;> exact ⟨_, rfl, by decide⟩
    have hlast' : (Text.trim (comparisonText l op r)).toList.getLast? = some d := by
      rw [htext, List.append_nil, ← List.append_assoc, List.getLast?_append, hd, Option.some_or]
    rw [(read_eq_test_iff trim_comparison_ne_empty).2 hnone, Filled.value,
      parseLiteral_of_last hself hlast' hlastmark,
      truthy_of_mark hself (List.mem_of_getLast? hlast') hlastmark, decide_eq_true hop]
  · rw [decide_eq_false hop]
    cases op with
    | ge => exact horder .gt rfl (by decide) (by decide)
    | le => exact horder .lt rfl (by decide) (by decide)
    | eq | ne | gt | lt => exact absurd (by decide) hop

/-- Where no value holds a character of an operator, a comparison is that of its two sides if there
is something on both. Without a left side it is true, and without a right side it is true unless the
operator is `>=` or `<=`. -/
theorem condition_eq_compare_iff (hleft : IsOperand left) (hright : IsOperand right)
    (hl : interpolateLenient left vars = .ok l) (hr : interpolateLenient right vars = .ok r)
    (hlfree : ∀ c ∈ l.toList, isMarkChar c = false)
    (hrfree : ∀ c ∈ r.toList, isMarkChar c = false) :
    condition (comparisonText left op right) vars =
        compareValues (parseLiteral (Text.trim l)) op.text (parseLiteral (Text.trim r)) ↔
      (Text.trim l ≠ "" ∧ Text.trim r ≠ "") ∨
        compareValues (parseLiteral (Text.trim l)) op.text (parseLiteral (Text.trim r)) = .ok true ∨
          (Text.trim l ≠ "" ∧ (op = .ge ∨ op = .le)) := by
  have hvalue : condition (comparisonText left op right) vars =
      (Filled.read (Text.trim (comparisonText l op r))).value :=
    condition_of_read (readCondition_comparison hleft hright hl hr)
  have horder : Text.trim r = "" → op = .ge ∨ op = .le →
      op.holds (parseLiteral (Text.trim l)) (parseLiteral (Text.trim r)) = false := by
    intro hrtrim hop
    rw [hrtrim]
    exact holds_of_no_number toNumber?_parseLiteral_empty (by rcases hop with rfl | rfl <;> decide)
  have hfree : OperatorFree (Text.trim l).toList.tail := by
    obtain ⟨front, back, hl', -⟩ := Text.exists_eq_trimChars l.toList
    refine operatorFree_of_marks fun c hc => hlfree c ?_
    have hmem : c ∈ Text.trimChars l.toList := by
      simpa [Text.trim] using List.mem_of_mem_tail hc
    rw [hl']
    simp [hmem]
  rw [hvalue, compareValues_parseLiteral]
  by_cases hltrim : Text.trim l = ""
  · rw [value_read_of_left_empty hltrim hrfree]
    generalize op.holds _ _ = holds
    simp only [Except.ok.injEq, ne_eq, hltrim, not_true_eq_false, false_and, or_false, false_or]
    exact eq_comm
  by_cases hrtrim : Text.trim r = ""
  · rw [value_read_of_right_empty hltrim hlfree hrtrim]
    by_cases hop : op = .ge ∨ op = .le
    · refine iff_of_true ?_ (.inr (.inr ⟨hltrim, hop⟩))
      rw [horder hrtrim hop, decide_eq_false fun h => hop.elim h.1 h.2]
    · rw [decide_eq_true (not_or.1 hop)]
      generalize op.holds _ _ = holds
      simp only [Except.ok.injEq, ne_eq, hrtrim, not_true_eq_false, and_false, hop, or_false,
        false_or]
      exact eq_comm
  · rw [read_comparison hltrim hrtrim hfree]
    exact iff_of_true (compareValues_parseLiteral _ _ _) (.inl ⟨hltrim, hrtrim⟩)

theorem condition_eq_compare_iff_count :
    IsOperand (rawText "count") ∧ IsOperand "3" ∧
      interpolateLenient (rawText "count") [(.str "count", .int 5)] = .ok "5" ∧
        condition (comparisonText (rawText "count") .gt "3") [(.str "count", .int 5)] =
          compareValues (parseLiteral (Text.trim "5")) CompareOp.gt.text
            (parseLiteral (Text.trim "3")) := by
  have hcount : IsOperand (rawText "count") := .placeholder (by unfold IsInner; decide)
  have hthree : IsOperand "3" := .literal (by decide)
  have hfive : interpolateLenient (rawText "count") [(.str "count", .int 5)] = .ok "5" := by
    decide +kernel
  have hself : interpolateLenient "3" [(.str "count", .int 5)] = .ok "3" := by decide +kernel
  have hleft : ∀ c ∈ "5".toList, isMarkChar c = false := by simp [isMarkChar]
  have hright : ∀ c ∈ "3".toList, isMarkChar c = false := by simp [isMarkChar]
  exact ⟨hcount, hthree, hfive,
    (condition_eq_compare_iff hcount hthree hfive hself hleft hright).2 (.inl (by decide +kernel))⟩

/-- A missing value makes a comparison true that its two sides do not pass. -/
theorem condition_missing_left : IsOperand (rawText "missing") ∧ IsOperand "5" ∧
    interpolateLenient (rawText "missing") [] = .ok "" ∧
      condition (comparisonText (rawText "missing") .eq "5") [] = .ok true ∧
        compareValues (parseLiteral "") "==" (parseLiteral "5") = .ok false := by
  have hmissing : IsOperand (rawText "missing") := .placeholder (by unfold IsInner; decide)
  exact ⟨hmissing, .literal (by decide), by decide +kernel,
    by decide +kernel, by decide +kernel⟩

end Reading

/-- A condition as it is written: a comparison of two operands, or a placeholder that is tested. -/
inductive Condition where
  | comparison (left : String) (op : CompareOp) (right : String)
  | test (inner : String)

namespace Condition

def text : Condition → String
  | .comparison left op right => comparisonText left op right
  | .test inner => rawText inner

/-- The values of its operands are put in, each by itself. -/
def filled (vars : Record) : Condition → Result Filled
  | .comparison left op right => do
    let l ← interpolateLenient left vars
    let r ← interpolateLenient right vars
    return .comparison (Text.trim l) op (Text.trim r)
  | .test inner => do return .test (Text.trim (← interpolateLenient (rawText inner) vars))

def Proper : Condition → Prop
  | .comparison left _ right => IsOperand left ∧ IsOperand right
  | .test inner => IsInner inner

end Condition

/-- A condition with something in its operands is read as it is written, and has the value of what
is written, if and only if no operator comes in front of the written one: the left side holds none
behind its first character, and a value that is tested holds none there with something behind it.
What the right side holds does not matter. -/
theorem readCondition_eq_written_iff {written : Condition} {vars : Record} {filled : Filled}
    (hproper : written.Proper) (hfilled : written.filled vars = .ok filled)
    (hoperands : filled.HasOperands) :
    (readCondition written.text vars = .ok filled ↔ filled.Stands) ∧
      (filled.Stands → condition written.text vars = filled.value) := by
  have hread : readCondition written.text vars = .ok filled ↔ filled.Stands := by
    cases written with
    | comparison left op right =>
      obtain ⟨hleft, hright⟩ := hproper
      cases hl : interpolateLenient left vars with
      | error failure => simp [Condition.filled, hl, bind, Except.bind] at hfilled
      | ok l =>
        cases hr : interpolateLenient right vars with
        | error failure => simp [Condition.filled, hl, hr, bind, Except.bind] at hfilled
        | ok r =>
          simp only [Condition.filled, hl, hr, bind, Except.bind, pure, Except.pure,
            Except.ok.injEq] at hfilled
          subst hfilled
          obtain ⟨hltrim, hrtrim⟩ := hoperands
          rw [Condition.text, readCondition_comparison hleft hright hl hr]
          refine ⟨fun h => ?_, fun h => congrArg Except.ok (read_comparison hltrim hrtrim h)⟩
          by_contra hstands
          obtain ⟨left', op', right', hearly, hlength⟩ :=
            read_comparison_early hltrim hstands op r
          have hsame : Filled.read (Text.trim (comparisonText l op r)) =
              .comparison (Text.trim l) op (Text.trim r) := Except.ok.inj h
          rw [hearly] at hsame
          cases hsame
          exact Nat.lt_irrefl _ hlength
    | test inner =>
      cases htext : interpolateLenient (rawText inner) vars with
      | error failure => simp [Condition.filled, htext, bind, Except.bind] at hfilled
      | ok text =>
        simp only [Condition.filled, htext, bind, Except.bind, pure, Except.pure,
          Except.ok.injEq] at hfilled
        subst hfilled
        rw [Condition.text, readCondition, htext]
        exact (Except.ok.injEq _ _).to_iff.trans (read_eq_test_iff hoperands)
  exact ⟨hread, fun hstands => condition_of_read (hread.2 hstands)⟩

theorem readCondition_eq_written_iff_name :
    (Condition.comparison (rawText "name") .eq (rawText "other")).Proper ∧
      readCondition "\x7b\x7bname\x7d\x7d == \x7b\x7bother\x7d\x7d"
          [(.str "name", .str "a"), (.str "other", .str "b != c")] =
        .ok (.comparison "a" .eq "b != c") := by
  have hproper : (Condition.comparison (rawText "name") .eq (rawText "other")).Proper :=
    ⟨.placeholder (by unfold IsInner; decide), .placeholder (by unfold IsInner; decide)⟩
  have hfilled : (Condition.comparison (rawText "name") .eq (rawText "other")).filled
      [(.str "name", .str "a"), (.str "other", .str "b != c")] =
        .ok (.comparison "a" .eq "b != c") := by decide +kernel
  refine ⟨hproper, (readCondition_eq_written_iff hproper hfilled ⟨by decide, by decide⟩).1.2 ?_⟩
  intro op
  cases op <;> decide

/-- A value on the left chooses the operator. -/
theorem readCondition_value_decides :
    (Condition.comparison (rawText "a") .eq "z").Proper ∧
      (Condition.comparison (rawText "a") .eq "z").filled [(.str "a", .str "x != y")] =
        .ok (.comparison "x != y" .eq "z") ∧
      condition "\x7b\x7ba\x7d\x7d == z" [(.str "a", .str "x != y")] = .ok true ∧
      compareValues (parseLiteral "x != y") "==" (parseLiteral "z") = .ok false :=
  ⟨⟨.placeholder (by unfold IsInner; decide), .literal (by decide)⟩,
    by decide +kernel, by decide +kernel, by decide +kernel⟩

end BulletScript.Template
