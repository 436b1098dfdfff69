import BulletScript.Template.Interpolate

/-! How templates fail. A path, an expression or a template may fail in many ways, but never by an
index that is out of range. -/
namespace BulletScript

/-- What a script sees of an index that is out of range. -/
def Failure.isIndexError (f : Failure) : Bool := f.name == "IndexError"

@[simp] theorem Failure.isIndexError_pattern (fault : PatternFault) :
    (Failure.pattern fault).isIndexError = false := by
  cases fault <;> rfl

@[simp] theorem Failure.isIndexError_action (fault : ActionFault) :
    (Failure.action fault).isIndexError = false := by
  cases fault <;> rfl

@[simp] theorem Failure.isIndexError_number (fault : NumberFault) :
    (Failure.internal (.number fault)).isIndexError = false := by
  cases fault <;> rfl

/-- A result that is no index error. -/
def Result.InRange {α : Type} (r : Result α) : Prop := ∀ f, r = .error f → f.isIndexError = false

namespace Result.InRange

variable {α β : Type}

@[simp] theorem ok (a : α) : InRange (.ok a : Result α) := fun _ h => by cases h

theorem error {f : Failure} (h : f.isIndexError = false) : InRange (.error f : Result α) := by
  rintro _ ⟨⟩
  exact h

theorem bind {r : Result α} {k : α → Result β} (hr : InRange r) (hk : ∀ a, InRange (k a)) :
    InRange (r >>= k) := by
  cases r with
  | error f => exact .error (hr f rfl)
  | ok a => exact hk a

theorem map {r : Result α} (hr : InRange r) (g : α → β) : InRange (g <$> r) :=
  hr.bind fun a => .ok (g a)

theorem ofNumber (r : Except NumberFault α) : InRange (Result.ofNumber r) := by
  cases r with
  | error fault => exact .error (Failure.isIndexError_number fault)
  | ok a => exact .ok a

end Result.InRange

open Result (InRange)

theorem inRange_digitsNumber (cs : List Char) : InRange (digitsNumber cs) := by
  unfold digitsNumber
  split
  · split
    · exact .error rfl
    · exact .ok _
  · exact .error rfl

theorem inRange_pathSteps (fuel : Nat) (cs : List Char) : InRange (pathSteps fuel cs) := by
  induction fuel generalizing cs with
  | zero => cases cs <;> exact .ok _
  | succ fuel ih =>
    cases cs with
    | nil => exact .ok _
    | cons c rest =>
      unfold pathSteps
      split
      · exact (inRange_digitsNumber _).bind fun n => (ih _).bind fun steps => .ok _
      · split
        · exact (ih _).bind fun steps => .ok _
        · split
          · exact (ih _).bind fun steps => .ok _
          · exact ih rest

theorem Value.inRange_checkWritable (v : Value) : InRange v.checkWritable := by
  unfold checkWritable
  split
  · exact .ok _
  · exact .error rfl

theorem CompareOp.inRange_test (op : CompareOp) (a b : Value) : InRange (op.test a b) := by
  unfold test
  split
  · exact a.inRange_checkWritable.bind fun _ => b.inRange_checkWritable.bind fun _ => .ok _
  · exact .ok _

theorem Value.inRange_step? (v : Value) (step : PathStep) : InRange (v.step? step) := by
  unfold Value.step?
  split
  · exact .ok _
  · exact .ok _
  · exact .ok _
  · split
    · exact .ok _
    · split
      · exact (inRange_digitsNumber _).bind fun n => .ok _
      · exact .ok _
  · exact .ok _
  · exact .ok _
  · exact .ok _

theorem Value.inRange_steps? (v : Value) (steps : List PathStep) : InRange (v.steps? steps) := by
  induction steps generalizing v with
  | nil => exact .ok _
  | cons step rest ih =>
    rw [steps?]
    refine (v.inRange_step? step).bind fun found => ?_
    cases found with
    | none => exact .ok _
    | some w => exact ih w

theorem inRange_resolvePath (vars : Record) (path : String) : InRange (resolvePath vars path) :=
  (inRange_pathSteps _ _).bind fun steps => Value.inRange_steps? _ steps

namespace Expr

theorem inRange_tokensFrom (source : String) (fuel : Nat) (cs : List Char) :
    InRange (tokensFrom source fuel cs) := by
  fun_induction tokensFrom source fuel cs with
  | case1 => exact .ok _
  | case2 => exact .ok _
  | case3 fuel c rest _ ih => exact ih
  | case4 fuel c rest _ token after _ ih => exact ih.bind fun tokens => .ok _
  | case5 => exact .error (by simp)

theorem inRange_numberValue (token : String) : InRange (numberValue token) := by
  unfold numberValue
  split
  · exact .ok _
  · exact (inRange_digitsNumber _).bind fun n => .ok _

theorem inRange_stepOf (v : Value) : InRange (stepOf v) := by
  refine v.inRange_checkWritable.bind fun _ => ?_
  split
  · exact .ok _
  · exact (InRange.ofNumber _).bind fun n => .ok _
  · exact .ok _

theorem inRange_access (base : Named) (step : PathStep) (label : String) :
    InRange (access base step label) := by
  refine (base.value.inRange_step? step).bind fun found => ?_
  cases found with
  | none => exact .error (by simp)
  | some v => exact .ok _

theorem inRange_arithmetic (source : String) (op : ArithOp) (left right : Value) :
    InRange (arithmetic source op left right) := by
  have hdivided (b : Number) (r : Except NumberFault Number) : InRange (do
      let n ← if b.isZero then .error (.pattern (.divisionByZero source)) else Result.ofNumber r
      return n.toValue) := by
    dsimp only
    split
    · exact .bind (.error (by simp)) fun n => .ok _
    · exact .bind (.ofNumber _) fun n => .ok _
  unfold arithmetic
  split
  · cases op with
    | add => exact (InRange.ofNumber _).bind fun n => .ok _
    | sub => exact (InRange.ofNumber _).bind fun n => .ok _
    | mul => exact (InRange.ofNumber _).bind fun n => .ok _
    | div => exact hdivided _ _
    | mod => exact hdivided _ _
  · exact .error (by simp)

theorem inRange_combine (source : String) (op : ArithOp) (left right : Value) :
    InRange (combine source op left right) := by
  unfold combine
  split
  · exact left.inRange_checkWritable.bind fun _ => right.inRange_checkWritable.bind fun _ => .ok _
  · exact inRange_arithmetic source op left right

theorem inRange_eval (source : String) (vars : Record) (e : Expr) : InRange (eval source vars e) := by
  induction e with
  | number text => exact (inRange_numberValue text).bind fun v => .ok _
  | string text => exact .ok _
  | name text =>
    unfold eval
    split
    · exact .ok _
    · split
      · exact .ok _
      · exact .error (by simp)
  | group inner ih => exact ih.bind fun v => .ok _
  | member base key ih => exact ih.bind fun b => inRange_access _ _ _
  | index base place ihb ihp =>
    refine ihb.bind fun b => ihp.bind fun i => ?_
    exact (inRange_stepOf _).bind fun step => inRange_access _ _ _
  | negate operand ih => exact ih.bind fun v => (inRange_arithmetic _ _ _ _).bind fun w => .ok _
  | not operand ih => exact ih.bind fun v => .ok _
  | arith op left right ihl ihr =>
    exact ihl.bind fun a => ihr.bind fun b => (inRange_combine _ _ _ _).bind fun v => .ok _
  | compare op left right ihl ihr =>
    exact ihl.bind fun a => ihr.bind fun b => (op.inRange_test _ _).bind fun _ => .ok _
  | both left right ihl ihr => exact ihl.bind fun a => ihr.bind fun b => .ok _
  | either left right ihl ihr => exact ihl.bind fun a => ihr.bind fun b => .ok _
  | fault f => exact .error (by simp)
  | faultAfter before f ih => exact ih.bind fun v => .error (by simp)

end Expr

theorem inRange_evaluate (source : String) (vars : Record) : InRange (evaluate source vars) :=
  (Expr.inRange_tokensFrom _ _ _).bind fun _ => (Expr.inRange_eval _ _ _).bind fun _ => .ok _

namespace Template

theorem inRange_segmentsFrom (template : String) (position : Nat) (cs : List Char) :
    InRange (segmentsFrom template position cs) := by
  fun_induction segmentsFrom template position cs with
  | case1 => exact .ok _
  | case2 => exact .error (by simp)
  | case3 _ _ _ _ _ _ _ _ _ _ ih => exact ih.bind fun tail => .ok _

theorem inRange_validatorKind (inner : String) (source : List Char) :
    InRange (validatorKind inner source) := by
  unfold validatorKind
  split
  · exact .ok _
  · exact .error rfl
  · exact .error (by simp)

theorem inRange_kindOf (inner : String) (marks : List Char) : InRange (kindOf inner marks) := by
  have hvalidator (source : List Char) : InRange ((validatorKind inner source).map some) :=
    (inRange_validatorKind inner source).map some
  unfold kindOf
  dsimp only
  repeat' split
  all_goals first | exact .ok _ | exact hvalidator _

theorem inRange_tokenOf? (inner : String) : InRange (tokenOf? inner) := by
  unfold tokenOf?
  split
  · exact .ok _
  · exact (inRange_kindOf _ _).bind fun kind => .ok _

theorem inRange_placeholderValue (vars : Record) (strict : Bool) (inner : String) :
    InRange (placeholderValue vars strict inner) := by
  refine (inRange_tokenOf? inner).bind fun token => ?_
  cases token with
  | none =>
    dsimp only
    have hvalue := inRange_evaluate (Text.trim inner) vars
    split
    · split
      · exact .error (by simp)
      · exact .ok _
    · exact hvalue.bind fun v => v.inRange_checkWritable.bind fun _ => .ok _
  | some token =>
    refine (inRange_resolvePath vars token.name).bind fun found => ?_
    cases found with
    | none =>
      dsimp only
      split
      · exact .error (by simp)
      · exact .ok _
    | some v =>
      refine v.inRange_checkWritable.bind fun _ => ?_
      split
      · exact .ok _
      · exact .ok _

theorem inRange_segmentsText (vars : Record) (strict : Bool) (escape : String → String)
    (segments : List Segment) : InRange (segmentsText vars strict escape segments) := by
  induction segments with
  | nil => exact .ok _
  | cons segment rest ih =>
    refine InRange.bind ?_ fun text => ih.bind fun below => .ok _
    cases segment with
    | literal text => exact .ok _
    | placeholder inner position =>
      dsimp only [segmentText]
      split
      · exact .ok _
      · exact (inRange_placeholderValue vars strict inner).bind fun v => .ok _

/-- A template never fails by an index that is out of range. -/
theorem inRange_interpolateWith (escape : String → String) (strict : Bool) (template : String)
    (vars : Record) : InRange (interpolateWith escape strict template vars) :=
  (inRange_segmentsFrom _ _ _).bind fun segments =>
    inRange_segmentsText vars strict escape segments

theorem inRange_condition (expression : String) (vars : Record) :
    InRange (condition expression vars) :=
  (inRange_interpolateWith _ _ _ _).bind fun _ => .ok _

end Template

end BulletScript
