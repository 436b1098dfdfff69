import BulletScript.Expr.Eval

/-! Where an expression fails by no fault of the expression language: steps whose operands are well
formed and that still have no result, since a number is too large, has no whole part or is written
with digits that no number uses. -/
namespace BulletScript

/-- A failure that is no fault of a template, a pattern or an expression. -/
def Result.Strays {α : Type} (r : Result α) : Prop := ∃ f, r = .error f ∧ f.kind ≠ "pattern"

namespace Result

variable {α β : Type}

@[simp] theorem not_strays_ok (a : α) : ¬Strays (.ok a : Result α) := by
  rintro ⟨f, ⟨⟩, -⟩

@[simp] theorem not_strays_pure (a : α) : ¬Strays (pure a : Result α) := not_strays_ok a

@[simp] theorem strays_error {f : Failure} :
    Strays (.error f : Result α) ↔ f.kind ≠ "pattern" := by
  constructor
  · rintro ⟨_, ⟨⟩, h⟩
    exact h
  · exact fun h => ⟨f, rfl, h⟩

theorem not_strays_pattern (fault : PatternFault) : ¬Strays (.error (.pattern fault) : Result α) :=
  fun h => strays_error.1 h rfl

theorem strays_bind {r : Result α} {k : α → Result β} :
    Strays (r >>= k) ↔ Strays r ∨ ∃ a, r = .ok a ∧ Strays (k a) := by
  cases r with
  | error f => simp [bind, Except.bind]
  | ok a => simp [bind, Except.bind]

theorem strays_map {r : Result α} (g : α → β) : Strays (g <$> r) ↔ Strays r := by
  cases r <;> simp [Functor.map, Except.map]

theorem strays_ofNumber {r : Except NumberFault α} :
    Strays (ofNumber r) ↔ ∃ fault, r = .error fault := by
  cases r with
  | error fault => simp [ofNumber, Failure.kind]
  | ok a => simp [ofNumber]

end Result

open Result

section Digits

variable {cs : List Char}

/-- Digits that stand for a number, and not more of them than are read. -/
def IsReadable (cs : List Char) : Prop :=
  (∀ c ∈ cs, Text.isDecimal c = true) ∧ cs.length ≤ Number.digitLimit

theorem mapM_decimalValue? (cs : List Char) :
    (∃ ds, cs.mapM Text.decimalValue? = some ds ∧ ds.length = cs.length) ∧
        (∀ c ∈ cs, Text.isDecimal c = true) ∨
      cs.mapM Text.decimalValue? = none ∧ ∃ c ∈ cs, Text.isDecimal c = false := by
  induction cs with
  | nil => exact .inl ⟨⟨[], rfl, rfl⟩, List.forall_mem_nil _⟩
  | cons c cs ih =>
    rw [List.mapM_cons]
    cases hc : Text.decimalValue? c with
    | none => exact .inr ⟨rfl, c, List.mem_cons_self, by simp [Text.isDecimal, hc]⟩
    | some d =>
      rcases ih with ⟨⟨ds, hds, hlength⟩, hall⟩ | ⟨hnone, e, he, hnot⟩
      · left
        refine ⟨⟨d :: ds, by simp [hds], by simp [hlength]⟩, ?_⟩
        exact List.forall_mem_cons.2 ⟨by simp [Text.isDecimal, hc], hall⟩
      · exact .inr ⟨by simp [hnone], e, List.mem_cons_of_mem _ he, hnot⟩

theorem digitsNumber_cases (cs : List Char) :
    IsReadable cs ∧ (∃ n, digitsNumber cs = .ok n) ∨
      ¬IsReadable cs ∧ Strays (digitsNumber cs) := by
  unfold digitsNumber IsReadable
  rcases mapM_decimalValue? cs with ⟨⟨ds, hds, hlength⟩, hall⟩ | ⟨hnone, c, hc, hnot⟩
  · rw [hds]
    dsimp only
    split
    · next hlimit => simp [Failure.kind, ← hlength, Nat.not_le.2 hlimit]
    · next hlimit => simpa [← hlength, Nat.not_lt.1 hlimit] using hall
  · rw [hnone]
    have hsome : ¬∀ c ∈ cs, Text.isDecimal c = true := fun hall => by simp [hall c hc] at hnot
    simp [Failure.kind, hsome]

theorem strays_digitsNumber : Strays (digitsNumber cs) ↔ ¬IsReadable cs := by
  rcases digitsNumber_cases cs with ⟨hread, n, hn⟩ | ⟨hread, hstrays⟩
  · simp [hn, hread]
  · exact iff_of_true hstrays hread

theorem strays_digitsNumber_bind {α : Type} {k : Nat → Result α} {p : Prop}
    (hk : ∀ n, Strays (k n) ↔ p) : Strays (digitsNumber cs >>= k) ↔ ¬IsReadable cs ∨ p := by
  rw [strays_bind, strays_digitsNumber]
  rcases digitsNumber_cases cs with ⟨-, n, hn⟩ | ⟨hread, -⟩
  · simp [hn, hk]
  · simp [hread]

/-- An item that a text of digits asks a list for, with digits that cannot be read as a number. -/
def NoItem (v : Value) (s : String) : Prop :=
  (∃ items, v = .list items) ∧ s ≠ "" ∧ (∀ c ∈ s.toList, Text.isDigitLike c = true) ∧
    ¬IsReadable s.toList

theorem strays_step? {v : Value} {step : PathStep} :
    Strays (v.step? step) ↔ ∃ s, step = .name s ∧ NoItem v s := by
  cases step with
  | index n => cases v <;> simp [Value.step?]
  | name s =>
    cases v with
    | list items =>
      have hitem : NoItem (.list items) s ↔
          (s ≠ "" ∧ s.toList.all Text.isDigitLike = true) ∧ ¬IsReadable s.toList := by
        simp [NoItem, and_assoc]
      simp only [PathStep.name.injEq, exists_eq_left', hitem, Value.step?]
      split
      · next hlength =>
        have hletter : s.toList.all Text.isDigitLike = false := by
          rw [hlength]
          decide
        simp only [hletter, Bool.false_eq_true, and_false, false_and, not_strays_ok]
      · split
        · next hdigits =>
          rw [bind_pure_comp, strays_map, strays_digitsNumber, iff_true_intro hdigits, true_and]
        · next hdigits => simp only [hdigits, false_and, not_strays_ok]
    | _ => simp [Value.step?, NoItem]

end Digits

namespace Number

/-- A whole number beyond all floats, next to a float. -/
def Unlike (a b : Number) : Prop :=
  ∃ n x, ofInt? n = none ∧ (a = .int n ∧ b = .float x ∨ a = .float x ∧ b = .int n)

/-- Two whole numbers whose quotient is beyond all floats. -/
def QuotientTooLarge (a b : Number) : Prop :=
  ∃ m n, a = .int m ∧ b = .int n ∧ roundBits m.natAbs n.natAbs = none

def IsFinite (x : Float) : Prop := ∃ v, decode x = .finite v

variable {a b : Number}

theorem lift_error_iff {onInts : Int → Int → Int} {onFloats : Float → Float → Float} :
    (∃ fault, lift onInts onFloats a b = .error fault) ↔ Unlike a b := by
  cases a with
  | int m => cases b with
    | int n => simp [lift, Unlike]
    | float y =>
      cases h : ofInt? m <;> simp [lift, toFloat, Unlike, h, bind, Except.bind, pure, Except.pure]
  | float x => cases b with
    | int n =>
      cases h : ofInt? n <;> simp [lift, toFloat, Unlike, h, bind, Except.bind, pure, Except.pure]
    | float y => simp [lift, toFloat, Unlike, bind, Except.bind, pure, Except.pure]

theorem quotient_error_iff :
    (∃ fault, quotient a b = .error fault) ↔ Unlike a b ∨ QuotientTooLarge a b := by
  cases a with
  | int m => cases b with
    | int n =>
      cases h : roundBits m.natAbs n.natAbs <;>
        simp [quotient, intQuotient, Unlike, QuotientTooLarge, h]
    | float y =>
      cases h : ofInt? m <;>
        simp [quotient, toFloat, Unlike, QuotientTooLarge, h, bind, Except.bind, pure, Except.pure]
  | float x => cases b with
    | int n =>
      cases h : ofInt? n <;>
        simp [quotient, toFloat, Unlike, QuotientTooLarge, h, bind, Except.bind, pure, Except.pure]
    | float y =>
      simp [quotient, toFloat, Unlike, QuotientTooLarge, bind, Except.bind, pure, Except.pure]

theorem truncate_float_error_iff {x : Float} :
    (∃ fault, truncate (.float x) = .error fault) ↔ ¬IsFinite x := by
  cases h : decode x <;> simp [truncate, IsFinite, h]

theorem div_error_iff : (∃ fault, div a b = .error fault) ↔
    Unlike a b ∨ QuotientTooLarge a b ∨ ∃ q, quotient a b = .ok q ∧ ¬IsFinite q := by
  rw [← or_assoc, ← quotient_error_iff]
  cases h : quotient a b with
  | error fault => simp [div, h, bind, Except.bind]
  | ok q =>
    have htruncate : (∃ fault, truncate (.float q) = .error fault) ↔ ¬IsFinite q :=
      truncate_float_error_iff
    cases hwhole : truncate (.float q) with
    | error fault =>
      rw [hwhole] at htruncate
      simpa [div, h, hwhole, bind, Except.bind] using htruncate
    | ok whole =>
      rw [hwhole] at htruncate
      simpa [div, h, hwhole, bind, Except.bind, pure, Except.pure] using htruncate

end Number

namespace Expr

open Number

/-- Numbers for which an operation has no result. Division by zero is a fault of the language. -/
def NoResult (op : ArithOp) (a b : Number) : Prop :=
  match op with
  | .add | .sub | .mul => Unlike a b
  | .mod => b.isZero = false ∧ Unlike a b
  | .div => b.isZero = false ∧
      (Unlike a b ∨ QuotientTooLarge a b ∨ ∃ q, quotient a b = .ok q ∧ ¬IsFinite q)

section Steps

variable {source : String} {op : ArithOp} {left right v : Value}

theorem strays_checkWritable_bind {α : Type} {k : Unit → Result α} :
    Strays (v.checkWritable >>= k) ↔ v.isWritable = false ∨ Strays (k ()) := by
  unfold Value.checkWritable
  cases v.isWritable <;> simp [bind, Except.bind, Failure.kind]

theorem strays_arithmetic : Strays (arithmetic source op left right) ↔
    ∃ a b, left.toNumber? = some a ∧ right.toNumber? = some b ∧ NoResult op a b := by
  unfold arithmetic
  cases left.toNumber? with
  | none => simp [Failure.kind]
  | some a =>
    cases right.toNumber? with
    | none => simp [Failure.kind]
    | some b =>
      have hdivided (r : Except NumberFault Number) : Strays (do
          let n ← if b.isZero then .error (.pattern (.divisionByZero source)) else ofNumber r
          return n.toValue) ↔ b.isZero = false ∧ ∃ fault, r = .error fault := by
        cases b.isZero with
        | true =>
          simp only [if_true, bind_pure_comp, strays_map, Bool.true_eq_false, false_and,
            not_strays_pattern]
        | false =>
          simp only [Bool.false_eq_true, if_false, true_and, bind_pure_comp, strays_map,
            strays_ofNumber]
      have hnumbers {r : Except NumberFault Number} {p : Prop}
          (h : (∃ fault, r = .error fault) ↔ p) :
          Strays (do return (← ofNumber r).toValue) ↔ p := by
        rw [bind_pure_comp, strays_map, strays_ofNumber, h]
      simp only [Option.some.injEq, exists_eq_left', exists_and_left]
      cases op with
      | add => exact hnumbers lift_error_iff
      | sub => exact hnumbers lift_error_iff
      | mul => exact hnumbers lift_error_iff
      | div => exact (hdivided _).trans (and_congr_right' div_error_iff)
      | mod => exact (hdivided _).trans (and_congr_right' lift_error_iff)

theorem strays_combine : Strays (combine source op left right) ↔
    if op = .add ∧ (isText left = true ∨ isText right = true) then
      left.isWritable = false ∨ right.isWritable = false
    else ∃ a b, left.toNumber? = some a ∧ right.toNumber? = some b ∧ NoResult op a b := by
  unfold combine
  split
  · simp only [strays_checkWritable_bind, not_strays_pure, or_false]
  · exact strays_arithmetic

theorem strays_test {op : CompareOp} : Strays (op.test left right) ↔
    op.readsTexts left right = true ∧ (left.isWritable = false ∨ right.isWritable = false) := by
  unfold CompareOp.test
  split
  · next h => simp only [h, true_and, strays_checkWritable_bind, not_strays_pure, or_false]
  · next h => simp [h]

theorem strays_stepOf : Strays (stepOf v) ↔
    v.isWritable = false ∨ ∃ x, v = .float x ∧ ¬IsFinite x := by
  unfold stepOf
  rw [strays_checkWritable_bind]
  refine or_congr_right ?_
  cases v with
  | float x =>
    simp only [bind_pure_comp, strays_map, strays_ofNumber, truncate_float_error_iff,
      Value.float.injEq, exists_eq_left']
  | _ => simp

theorem strays_numberValue {text : String} :
    Strays (numberValue text) ↔ '.' ∉ text.toList ∧ ¬IsReadable text.toList := by
  unfold numberValue
  split
  · next h => simpa using fun hnot => absurd (List.contains_iff_mem.1 h) hnot
  · next h =>
    rw [bind_pure_comp, strays_map, strays_digitsNumber,
      iff_true_intro (mt List.contains_iff_mem.2 h), true_and]

theorem strays_access {base : Named} {step : PathStep} {label : String} :
    Strays (access base step label) ↔ ∃ s, step = .name s ∧ NoItem base.value s := by
  unfold access
  rw [strays_bind, strays_step?]
  refine or_iff_left ?_
  rintro ⟨found, -, h⟩
  cases found with
  | none => exact not_strays_pattern _ h
  | some v => exact not_strays_pure _ h

end Steps

/-- The parts of an expression in the order in which they get their values, the whole last. -/
def parts (e : Expr) : List Expr :=
  match e with
  | .number _ | .string _ | .name _ | .fault _ => [e]
  | .group inner | .member inner _ | .negate inner | .not inner | .faultAfter inner _ =>
    inner.parts ++ [e]
  | .index l r | .arith _ l r | .compare _ l r | .both l r | .either l r =>
    l.parts ++ r.parts ++ [e]

/-- The first part, in this order, that gets no value. -/
def firstWithout (source : String) (vars : Record) (e : Expr) : Option Expr :=
  e.parts.find? fun part => !(eval source vars part).isOk

/-- Expressions whose parts have values and that have none, by no fault of the language. -/
inductive Undefined (source : String) (vars : Record) : Expr → Prop
  /-- A number with more digits than are read. -/
  | number {text : String} : '.' ∉ text.toList → ¬IsReadable text.toList →
      Undefined source vars (.number text)
  /-- A property that is asked for as an item. -/
  | member {base : Expr} {key : String} {b : Named} : eval source vars base = .ok b →
      NoItem b.value key → Undefined source vars (.member base key)
  /-- An index that cannot be written. -/
  | unwritten {base place : Expr} {b i : Named} : eval source vars base = .ok b →
      eval source vars place = .ok i → i.value.isWritable = false →
      Undefined source vars (.index base place)
  /-- An index without a whole part. -/
  | notWhole {base place : Expr} {b i : Named} {x : Float} : eval source vars base = .ok b →
      eval source vars place = .ok i → i.value = .float x → ¬IsFinite x →
      Undefined source vars (.index base place)
  /-- An index whose text is asked for as an item. -/
  | item {base place : Expr} {b i : Named} {s : String} : eval source vars base = .ok b →
      eval source vars place = .ok i → stepOf i.value = .ok (.name s) → NoItem b.value s →
      Undefined source vars (.index base place)
  /-- Texts that cannot be written to be joined. -/
  | joined {left right : Expr} {a b : Named} : eval source vars left = .ok a →
      eval source vars right = .ok b → isText a.value = true ∨ isText b.value = true →
      a.value.isWritable = false ∨ b.value.isWritable = false →
      Undefined source vars (.arith .add left right)
  /-- Numbers for which the operation has no result. -/
  | arith {op : ArithOp} {left right : Expr} {a b : Named} {m n : Number} :
      eval source vars left = .ok a → eval source vars right = .ok b →
      ¬(op = .add ∧ (isText a.value = true ∨ isText b.value = true)) →
      a.value.toNumber? = some m → b.value.toNumber? = some n → NoResult op m n →
      Undefined source vars (.arith op left right)
  /-- Texts that cannot be written to be compared. -/
  | compared {op : CompareOp} {left right : Expr} {a b : Named} : eval source vars left = .ok a →
      eval source vars right = .ok b → op.readsTexts a.value b.value = true →
      a.value.isWritable = false ∨ b.value.isWritable = false →
      Undefined source vars (.compare op left right)

section Parts

variable {source : String} {vars : Record} {e inner left right : Expr}

/-- The first part without a value decides how an expression fails. -/
def Settled (source : String) (vars : Record) (e : Expr) : Prop :=
  (∀ v, eval source vars e = .ok v → firstWithout source vars e = none) ∧
    ∀ f, eval source vars e = .error f →
      ∃ part, firstWithout source vars e = some part ∧
        (f.kind ≠ "pattern" ↔ Undefined source vars part)

/-- An expression is left to itself if all parts before it have values. -/
theorem Settled.last {front : List Expr} (hparts : e.parts = front ++ [e])
    (hfront : front.find? (fun part => !(eval source vars part).isOk) = none)
    (hstep : Strays (eval source vars e) ↔ Undefined source vars e) : Settled source vars e := by
  unfold Settled firstWithout
  rw [hparts, List.find?_append, hfront]
  cases heval : eval source vars e with
  | ok v => simp [heval, Except.isOk, Except.toBool]
  | error f =>
    rw [heval, strays_error] at hstep
    simpa [heval, Except.isOk, Except.toBool] using hstep

/-- Otherwise it fails as the first of them without a value. -/
theorem Settled.of_part {front back : List Expr} {part : Expr} {f : Failure}
    (hparts : e.parts = front ++ back)
    (hfront : front.find? (fun part => !(eval source vars part).isOk) = some part)
    (heval : eval source vars e = .error f)
    (hpart : f.kind ≠ "pattern" ↔ Undefined source vars part) : Settled source vars e := by
  refine ⟨fun v hv => by simp [hv] at heval, fun f' hf' => ⟨part, ?_, ?_⟩⟩
  · rw [firstWithout, hparts, List.find?_append, hfront, Option.some_or]
  · rwa [← Except.error.inj (heval.symm.trans hf')]

theorem Settled.unary {k : Named → Result Named} (h : Settled source vars inner)
    (hparts : e.parts = inner.parts ++ [e])
    (heval : eval source vars e = eval source vars inner >>= k)
    (hstep : ∀ v, eval source vars inner = .ok v → (Strays (k v) ↔ Undefined source vars e)) :
    Settled source vars e := by
  cases hinner : eval source vars inner with
  | error f =>
    obtain ⟨part, hfirst, hpart⟩ := h.2 f hinner
    exact .of_part hparts hfirst (by rw [heval, hinner]; rfl) hpart
  | ok v =>
    refine .last hparts (h.1 v hinner) ?_
    rw [heval, hinner]
    exact hstep v hinner

theorem Settled.binary {k : Named → Named → Result Named} (hl : Settled source vars left)
    (hr : Settled source vars right) (hparts : e.parts = left.parts ++ right.parts ++ [e])
    (heval : eval source vars e = eval source vars left >>= fun a =>
      eval source vars right >>= fun b => k a b)
    (hstep : ∀ a b, eval source vars left = .ok a → eval source vars right = .ok b →
      (Strays (k a b) ↔ Undefined source vars e)) : Settled source vars e := by
  cases hleft : eval source vars left with
  | error f =>
    obtain ⟨part, hfirst, hpart⟩ := hl.2 f hleft
    exact .of_part (hparts.trans (List.append_assoc ..)) hfirst (by rw [heval, hleft]; rfl) hpart
  | ok a =>
    have hnone : left.parts.find? (fun part => !(eval source vars part).isOk) = none :=
      hl.1 a hleft
    cases hright : eval source vars right with
    | error f =>
      obtain ⟨part, hfirst, hpart⟩ := hr.2 f hright
      refine .of_part hparts ?_ (by rw [heval, hleft, hright]; rfl) hpart
      rw [List.find?_append, hnone, Option.none_or]
      exact hfirst
    | ok b =>
      refine .last hparts ?_ ?_
      · rw [List.find?_append, hnone, Option.none_or]
        exact hr.1 b hright
      · rw [heval, hleft, hright]
        exact hstep a b hleft hright

theorem not_strays_negate {v : Value} : ¬Strays (arithmetic source .sub (.int 0) v) := by
  rw [strays_arithmetic]
  rintro ⟨a, b, ha, -, n, x, hnone, h⟩
  obtain rfl : Number.int 0 = a := Option.some.inj ha
  obtain rfl : 0 = n := by
    rcases h with ⟨h, -⟩ | ⟨h, -⟩
    · exact Number.int.inj h
    · cases h
  simp [ofInt?, roundRatio?, roundBits] at hnone

/-- Where an expression is left to itself, it fails as its step does. -/
theorem strays_index {a b : Named} {label : String} (hleft : eval source vars left = .ok a)
    (hright : eval source vars right = .ok b) :
    Strays (do access a (← stepOf b.value) label) ↔ Undefined source vars (.index left right) := by
  rw [strays_bind, strays_stepOf]
  constructor
  · rintro ((hwritten | ⟨x, hx, hfinite⟩) | ⟨step, hstep, haccess⟩)
    · exact .unwritten hleft hright hwritten
    · exact .notWhole hleft hright hx hfinite
    · obtain ⟨s, rfl, hitem⟩ := strays_access.1 haccess
      exact .item hleft hright hstep hitem
  · intro h
    cases h with
    | unwritten ha hb hwritten =>
      obtain rfl := Except.ok.inj (hright.symm.trans hb)
      exact .inl (.inl hwritten)
    | notWhole ha hb hx hfinite =>
      obtain rfl := Except.ok.inj (hright.symm.trans hb)
      exact .inl (.inr ⟨_, hx, hfinite⟩)
    | item ha hb hstep hitem =>
      obtain rfl := Except.ok.inj (hleft.symm.trans ha)
      obtain rfl := Except.ok.inj (hright.symm.trans hb)
      exact .inr ⟨_, hstep, strays_access.2 ⟨_, rfl, hitem⟩⟩

theorem strays_arith {op : ArithOp} {a b : Named} (hleft : eval source vars left = .ok a)
    (hright : eval source vars right = .ok b) :
    Strays (combine source op a.value b.value) ↔ Undefined source vars (.arith op left right) := by
  rw [strays_combine]
  constructor
  · split
    · next hjoined =>
      obtain ⟨rfl, htext⟩ := hjoined
      exact .joined hleft hright htext
    · next hjoined =>
      rintro ⟨m, n, hm, hn, hresult⟩
      exact .arith hleft hright hjoined hm hn hresult
  · intro h
    cases h with
    | joined ha hb htext hwritten =>
      obtain rfl := Except.ok.inj (hleft.symm.trans ha)
      obtain rfl := Except.ok.inj (hright.symm.trans hb)
      rwa [if_pos ⟨rfl, htext⟩]
    | arith ha hb hjoined hm hn hresult =>
      obtain rfl := Except.ok.inj (hleft.symm.trans ha)
      obtain rfl := Except.ok.inj (hright.symm.trans hb)
      rw [if_neg hjoined]
      exact ⟨_, _, hm, hn, hresult⟩

theorem strays_compare {op : CompareOp} {a b : Named} (hleft : eval source vars left = .ok a)
    (hright : eval source vars right = .ok b) :
    Strays (op.test a.value b.value) ↔ Undefined source vars (.compare op left right) := by
  rw [strays_test]
  constructor
  · rintro ⟨hreads, hwritten⟩
    exact .compared hleft hright hreads hwritten
  · intro h
    cases h with
    | compared ha hb hreads hwritten =>
      obtain rfl := Except.ok.inj (hleft.symm.trans ha)
      obtain rfl := Except.ok.inj (hright.symm.trans hb)
      exact ⟨hreads, hwritten⟩

theorem strays_member {a : Named} {key label : String} (hinner : eval source vars inner = .ok a) :
    Strays (access a (.name key) label) ↔ Undefined source vars (.member inner key) := by
  rw [strays_access]
  constructor
  · rintro ⟨s, hs, hitem⟩
    cases hs
    exact .member hinner hitem
  · intro h
    cases h with
    | member ha hitem =>
      obtain rfl := Except.ok.inj (hinner.symm.trans ha)
      exact ⟨_, rfl, hitem⟩

theorem settled (source : String) (vars : Record) (e : Expr) : Settled source vars e := by
  -- Most steps give a value or a fault of the language, whatever their operands.
  have hplain {r : Result Named} {e : Expr} (hr : ¬Strays r) (he : ¬Undefined source vars e) :
      Strays r ↔ Undefined source vars e := iff_of_false hr he
  induction e with
  | number text =>
    refine .last (List.nil_append _).symm rfl ?_
    rw [eval, bind_pure_comp, strays_map, strays_numberValue]
    constructor
    · exact fun h => .number h.1 h.2
    · intro h
      cases h with
      | number hpoint hread => exact ⟨hpoint, hread⟩
  | string text =>
    exact .last (List.nil_append _).symm rfl (hplain (not_strays_ok _) fun h => by cases h)
  | fault f =>
    exact .last (List.nil_append _).symm rfl (hplain (not_strays_pattern _) fun h => by cases h)
  | name text =>
    refine .last (List.nil_append _).symm rfl (hplain ?_ fun h => by cases h)
    rw [eval]
    split
    · exact not_strays_ok _
    · split
      · exact not_strays_ok _
      · exact not_strays_pattern _
  | group inner ih =>
    exact ih.unary rfl rfl fun v _ => hplain (not_strays_pure _) fun h => by cases h
  | member inner key ih => exact ih.unary rfl rfl fun v hv => strays_member hv
  | negate inner ih =>
    refine ih.unary rfl rfl fun v _ => hplain ?_ fun h => by cases h
    rw [bind_pure_comp, strays_map]
    exact not_strays_negate
  | not inner ih =>
    exact ih.unary rfl rfl fun v _ => hplain (not_strays_pure _) fun h => by cases h
  | faultAfter inner f ih =>
    exact ih.unary rfl rfl fun v _ => hplain (not_strays_pattern _) fun h => by cases h
  | index left right ihl ihr => exact ihl.binary ihr rfl rfl fun a b ha hb => strays_index ha hb
  | arith op left right ihl ihr =>
    refine ihl.binary ihr rfl rfl fun a b ha hb => ?_
    rw [bind_pure_comp, strays_map]
    exact strays_arith ha hb
  | compare op left right ihl ihr =>
    refine ihl.binary ihr rfl rfl fun a b ha hb => ?_
    rw [bind_pure_comp, strays_map]
    exact strays_compare ha hb
  | both left right ihl ihr =>
    exact ihl.binary ihr rfl rfl fun a b _ _ => hplain (not_strays_pure _) fun h => by cases h
  | either left right ihl ihr =>
    exact ihl.binary ihr rfl rfl fun a b _ _ => hplain (not_strays_pure _) fun h => by cases h

/-- An expression fails by no fault of the language where the first of its parts that gets no value
has parts of which this step has no result. -/
theorem strays_eval : Strays (eval source vars e) ↔
    ∃ part, firstWithout source vars e = some part ∧ Undefined source vars part := by
  obtain ⟨hok, herror⟩ := settled source vars e
  cases heval : eval source vars e with
  | ok v => simp [hok v heval]
  | error f =>
    obtain ⟨part, hfirst, hpart⟩ := herror f heval
    simp [hfirst, hpart]

end Parts

/-- The tokens of a text are read, or a character of it is at fault. -/
theorem not_strays_tokensFrom (source : String) (fuel : Nat) (cs : List Char) :
    ¬Strays (tokensFrom source fuel cs) := by
  fun_induction tokensFrom source fuel cs with
  | case1 => exact not_strays_ok _
  | case2 => exact not_strays_ok _
  | case3 fuel c rest _ ih => exact ih
  | case4 fuel c rest _ token after _ ih => rwa [bind_pure_comp, strays_map]
  | case5 => exact not_strays_pattern _

theorem strays_evaluate {source : String} {vars : Record} : Strays (evaluate source vars) ↔
    ∃ ts part, tokens source = .ok ts ∧
      firstWithout source vars (ofTokens source ts) = some part ∧ Undefined source vars part := by
  have htokens : ¬Strays (tokens source) := not_strays_tokensFrom _ _ _
  unfold evaluate
  rw [strays_bind, or_iff_right htokens]
  dsimp only
  simp only [bind_pure_comp, strays_map, strays_eval, exists_and_left]

end Expr

end BulletScript
