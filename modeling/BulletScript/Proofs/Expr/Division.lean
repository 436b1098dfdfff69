import BulletScript.Proofs.Expr.Paths
import BulletScript.Proofs.Number.Quotient

/-! Division of whole numbers in expressions, as they are written with digits or held by variables.
A quotient without remainder comes back as a whole number, but by way of a float: it is the quotient
itself only if a float holds it. -/
namespace BulletScript.Expr

section Operands

/-- The number of a run of digits, however long. -/
def Digits.value (d : Digits) : Nat :=
  (d.text.toList.filterMap Text.decimalValue?).foldl (fun n c => 10 * n + c) 0

def Digits.IsShort (d : Digits) : Prop := d.text.toList.length ≤ Number.digitLimit

/-- A whole number as it stands in an expression. -/
inductive Operand where
  | literal (d : Digits)
  | negated (d : Digits)
  | var (x : Variable)

namespace Operand

def tree : Operand → Tree
  | .literal d => .number d.word
  | .negated d => .negate (.number d.word)
  | .var x => .var x

def IsInt (vars : Record) : Operand → Int → Prop
  | .literal d, n => n = d.value
  | .negated d, n => n = -d.value
  | .var x, n => vars.get? (.str x.text) = some (.int n)

/-- Digits that are not more than are read. -/
def IsShort : Operand → Prop
  | .literal d | .negated d => d.IsShort
  | .var _ => True

end Operand

/-- One whole number over another. -/
def division (l r : Operand) : Tree := .binary (.arith .div) l.tree r.tree

variable {vars : Record}

theorem filterMap_of_mapM {α β : Type} {f : α → Option β} {as : List α} {bs : List β}
    (h : as.mapM f = some bs) : as.filterMap f = bs := by
  induction as generalizing bs with
  | nil => exact Option.some.inj h
  | cons a as ih =>
    rw [List.mapM_cons] at h
    obtain ⟨b, hb, h⟩ := Option.bind_eq_some_iff.1 h
    obtain ⟨rest, hrest, h⟩ := Option.bind_eq_some_iff.1 h
    obtain rfl := Option.some.inj h
    rw [List.filterMap_cons_some hb, ih hrest]

namespace Digits

variable {d : Digits}

theorem numberValue_eq (d : Digits) :
    numberValue d.text = (do return .int (← digitsNumber d.text.toList)) := by
  have hpoint : ¬d.text.toList.contains '.' = true := by
    rw [List.contains_iff_mem]
    exact fun hmem => absurd (d.isDecimal '.' hmem) (by decide)
  rw [numberValue, if_neg hpoint]

theorem numberValue_short (h : d.IsShort) : numberValue d.text = .ok (.int d.value) := by
  rcases mapM_decimalValue? d.text.toList with ⟨⟨ds, hds, hlength⟩, -⟩ | ⟨-, c, hc, hnot⟩
  · have hlimit : ¬Number.digitLimit < ds.length := by
      rw [hlength]
      exact Nat.not_lt.2 h
    rw [numberValue_eq, digitsNumber, hds, Digits.value, filterMap_of_mapM hds]
    dsimp only
    rw [if_neg hlimit]
    rfl
  · rw [d.isDecimal c hc] at hnot
    cases hnot

theorem numberValue_long (h : ¬d.IsShort) : ∃ f, numberValue d.text = .error f := by
  rcases digitsNumber_cases d.text.toList with ⟨hread, -⟩ | ⟨-, f, hf, -⟩
  · exact absurd hread.2 h
  · exact ⟨f, by rw [numberValue_eq, hf]; rfl⟩

end Digits

namespace Operand

variable {o : Operand} {n : Int}

theorem eval_short (hint : o.IsInt vars n) (h : o.IsShort) : o.tree.eval vars = .ok (.int n) := by
  cases o with
  | literal d =>
    obtain rfl := hint
    rw [tree, Tree.eval]
    exact congrArg classed (Digits.numberValue_short h)
  | negated d =>
    obtain rfl := hint
    have hzero : (0 : Int) - d.value = -d.value := Int.zero_sub _
    rw [tree, Tree.eval, Tree.eval, ← hzero]
    have hvalue : numberValue d.word.text = .ok (.int d.value) := Digits.numberValue_short h
    rw [hvalue]
    rfl
  | var x =>
    rw [tree, Tree.eval, show vars.get? (.str x.text) = some (.int n) from hint]
    rfl

theorem eval_long (vars : Record) (h : ¬o.IsShort) : ∃ c, o.tree.eval vars = .error c := by
  cases o with
  | literal d =>
    obtain ⟨f, hf⟩ := Digits.numberValue_long h
    exact ⟨f.name, by rw [tree, Tree.eval]; exact congrArg classed hf⟩
  | negated d =>
    obtain ⟨f, hf⟩ := Digits.numberValue_long h
    have hvalue : numberValue d.word.text = .error f := hf
    exact ⟨f.name, by rw [tree, Tree.eval, Tree.eval, hvalue]; rfl⟩
  | var x => exact absurd trivial h

end Operand

end Operands

section Division

variable {source : String} {vars : Record} {l r : Operand} {a b : Int}

theorem evaluate_division (htokens : Expr.tokens source = .ok (division l r).tokens) :
    classed (evaluate source vars) = (do
      let x ← l.tree.eval vars
      let y ← r.tree.eval vars
      classed (combine "" .div x y)) :=
  evaluate_sentence htokens ((derives_tokens (division l r)).of_rank_le (Nat.zero_le _))

theorem classed_eq_ok {α : Type} {r : Result α} {x : α} : classed r = .ok x ↔ r = .ok x := by
  cases r <;> simp [classed, Except.mapError]

theorem combine_div_eq_iff {q : Int} (hb : b ≠ 0) :
    combine "" .div (.int a) (.int b) = .ok (.int q) ↔
      Number.div (.int a) (.int b) = .ok (.int q) := by
  have hzero : (Number.int b).isZero = false := by
    simp [Number.isZero, Number.same, Number.order, hb]
  have hdiv : combine "" .div (.int a) (.int b) =
      Number.toValue <$> Result.ofNumber (Number.div (.int a) (.int b)) := by
    simp [combine, arithmetic, Value.toNumber?, Value.number?, hzero]
  rw [hdiv]
  cases Number.div (.int a) (.int b) with
  | error fault => simp [Result.ofNumber]
  | ok n => cases n <;> simp [Result.ofNumber, Number.toValue]

theorem evaluate_eq_iff {q : Int} (htokens : Expr.tokens source = .ok (division l r).tokens)
    (hl : l.IsInt vars a) (hr : r.IsInt vars b) (hleft : l.IsShort) (hright : r.IsShort)
    (hb : b ≠ 0) :
    evaluate source vars = .ok (.int q) ↔ Number.div (.int a) (.int b) = .ok (.int q) := by
  rw [← classed_eq_ok, evaluate_division htokens, Operand.eval_short hl hleft,
    Operand.eval_short hr hright]
  exact classed_eq_ok.trans (combine_div_eq_iff hb)

/-- Of whole numbers of which the one divides the other, the quotient is exact if and only if a float
holds it, and no digits are more than are read. -/
theorem division_exact_iff (htokens : Expr.tokens source = .ok (division l r).tokens)
    (hl : l.IsInt vars a) (hr : r.IsInt vars b) (hb : b ≠ 0) (hdvd : b ∣ a) :
    evaluate source vars = .ok (.int (a / b)) ↔
      l.IsShort ∧ r.IsShort ∧ Number.Fits (a / b).natAbs := by
  obtain ⟨q, rfl⟩ := exists_eq_mul_left_of_dvd hdvd
  rw [Int.mul_ediv_cancel _ hb]
  by_cases hleft : l.IsShort
  · by_cases hright : r.IsShort
    · rw [evaluate_eq_iff htokens hl hr hleft hright hb, Number.div_mul_eq_iff hb]
      simp only [hleft, hright, true_and]
    · obtain ⟨c, hc⟩ := Operand.eval_long vars hright
      rw [← classed_eq_ok, evaluate_division htokens, Operand.eval_short hl hleft, hc]
      exact iff_of_false nofun fun h => hright h.2.1
  · obtain ⟨c, hc⟩ := Operand.eval_long vars hleft
    rw [← classed_eq_ok, evaluate_division htokens, hc]
    exact iff_of_false nofun fun h => hleft h.1

/-- A variable for a count. -/
def countName : Variable where
  text := "n"
  isName := ⟨'n', [], rfl, by decide, List.forall_mem_nil _⟩
  notOperator := by decide
  notConstant := rfl

/-- A text that consists of digits. -/
def Digits.ofText (s : String) (h : s.toList ≠ [] ∧ s.toList.all Text.isDecimal) : Digits :=
  ⟨s, h.1, List.all_eq_true.1 h.2⟩

def three : Digits := .ofText "3" (by decide)

def one : Digits := .ofText "1" (by decide)

/-- The least whole number that no float holds. -/
def unheld : Digits := .ofText "9007199254740993" (by decide)

/-- A large count by three, with the sign of a negation. -/
theorem division_exact_count :
    evaluate "n / -3" [(.str "n", .int 6000000000000000000000)] =
      .ok (.int (6000000000000000000000 / -3)) := by
  have htokens : Expr.tokens "n / -3" =
      .ok (division (.var countName) (.negated three)).tokens := rfl
  have hl : (Operand.var countName).IsInt [(.str "n", .int 6000000000000000000000)]
      6000000000000000000000 := rfl
  have hr : (Operand.negated three).IsInt [(.str "n", .int 6000000000000000000000)] (-3) := rfl
  have hshort : (Operand.negated three).IsShort := Nat.le_add_left 1 4299
  have hfits : Number.Fits (6000000000000000000000 / -3 : Int).natAbs :=
    Number.fits_mul_two_pow (m := 476837158203125) (k := 22) (by decide) (by decide)
  exact (division_exact_iff htokens hl hr (by decide) (by decide)).2 ⟨trivial, hshort, hfits⟩

/-- What no float holds is not even the quotient of itself and one. -/
theorem division_inexact_unheld :
    Expr.tokens "9007199254740993 / 1" = .ok (division (.literal unheld) (.literal one)).tokens ∧
      (Operand.literal unheld).IsInt [] 9007199254740993 ∧ (Operand.literal one).IsInt [] 1 ∧
      evaluate "9007199254740993 / 1" [] = .ok (.int 9007199254740992) ∧
      (9007199254740993 / 1 : Int) = 9007199254740993 := by
  have htokens : Expr.tokens "9007199254740993 / 1" =
      .ok (division (.literal unheld) (.literal one)).tokens := rfl
  have hl : (Operand.literal unheld).IsInt [] 9007199254740993 := by
    rw [Operand.IsInt]
    decide +kernel
  have hr : (Operand.literal one).IsInt [] 1 := rfl
  have hshort : (Operand.literal unheld).IsShort := Nat.le_add_left 16 4284
  have hone : (Operand.literal one).IsShort := Nat.le_add_left 1 4299
  refine ⟨htokens, hl, hr, (evaluate_eq_iff htokens hl hr hshort hone (by decide)).2 ?_, by decide⟩
  have hnearest : Number.nearestWhole 9007199254740993 = 9007199254740992 := by decide +kernel
  have hlt : Number.nearestWhole 9007199254740993 < Number.leastInfinite := by
    rw [hnearest]
    exact (Number.fits_mul_two_pow (m := 1) (k := 53) (by decide) (by decide)).1
  have hdiv := Number.div_mul (q := 9007199254740993) (b := 1) (by decide)
  rw [show Int.natAbs 9007199254740993 = 9007199254740993 from rfl, if_pos hlt, hnearest] at hdiv
  exact hdiv

end Division

end BulletScript.Expr
