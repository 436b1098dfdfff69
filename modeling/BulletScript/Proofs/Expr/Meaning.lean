import BulletScript.Proofs.Expr.Completeness

/-! The value of an expression is that of its tree. -/
namespace BulletScript.Expr

variable {source : String} {vars : Record} {e : Expr} {t t' : Tree}

section Classes

/-- A failure of arithmetic quotes its source; its class does not depend on it. -/
theorem classed_arithmetic (source other : String) (op : ArithOp) (a b : Value) :
    classed (arithmetic source op a b) = classed (arithmetic other op a b) := by
  unfold arithmetic
  split
  · cases op <;> first | rfl | (dsimp only; split <;> rfl)
  · rfl

theorem classed_combine (source other : String) (op : ArithOp) (a b : Value) :
    classed (combine source op a b) = classed (combine other op a b) := by
  unfold combine
  split
  · rfl
  · exact classed_arithmetic source other op a b

theorem classed_access (base : Named) (step : PathStep) (label : String) :
    classed ((access base step label).map Named.value) = reach base.value step := by
  unfold access reach
  cases base.value.step? step with
  | error failure => rfl
  | ok found => cases found <;> rfl

end Classes

/-- The value of an expression, or the class of its failure. -/
def worth (source : String) (vars : Record) (e : Expr) : Except String Value :=
  classed ((eval source vars e).map Named.value)

section Worth

variable {l r i : Expr}

theorem worth_group : worth source vars (.group e) = worth source vars e := by
  unfold worth
  rw [eval]
  cases eval source vars e <;> rfl

theorem worth_number (s : String) : worth source vars (.number s) = classed (numberValue s) := by
  unfold worth
  rw [eval]
  cases numberValue s <;> rfl

theorem worth_member (s : String) : worth source vars (.member e s) =
    worth source vars e >>= fun v => reach v (.name s) := by
  unfold worth
  rw [eval]
  cases eval source vars e with
  | error failure => rfl
  | ok v => exact classed_access v _ _

theorem worth_index : worth source vars (.index e i) = (do
    let v ← worth source vars e
    let n ← worth source vars i
    reach v (← classed (stepOf n))) := by
  unfold worth
  rw [eval]
  cases eval source vars e with
  | error failure => rfl
  | ok v =>
    cases eval source vars i with
    | error failure => rfl
    | ok n =>
      simp only [bind, Except.bind]
      cases hstep : stepOf n.value with
      | error failure => simp [Except.map, classed, Except.mapError, hstep]
      | ok step => simpa [Except.map, classed, Except.mapError, hstep] using classed_access v step _

theorem worth_negate : worth source vars (.negate e) = (do
    let v ← worth source vars e
    classed (arithmetic "" .sub (.int 0) v)) := by
  unfold worth
  rw [eval]
  cases eval source vars e with
  | error failure => rfl
  | ok v =>
    rw [show classed ((Except.ok v).map Named.value) = .ok v.value from rfl]
    simp only [bind, Except.bind]
    rw [classed_arithmetic "" source]
    cases arithmetic source .sub (.int 0) v.value <;> rfl

theorem worth_not : worth source vars (.not e) = (do
    let v ← worth source vars e
    return .bool !v.truthy) := by
  unfold worth
  rw [eval]
  cases eval source vars e <;> rfl

theorem worth_binary (o : Binary) : worth source vars (o.expr l r) = (do
    let a ← worth source vars l
    let b ← worth source vars r
    o.apply a b) := by
  unfold worth
  cases o with
  | arith op =>
    rw [Binary.expr, eval]
    cases eval source vars l with
    | error failure => rfl
    | ok a =>
      cases eval source vars r with
      | error failure => rfl
      | ok b =>
        change classed (Except.map Named.value _) = classed (combine "" op a.value b.value)
        rw [classed_combine "" source]
        cases h : combine source op a.value b.value <;> simp [bind, Except.bind, h] <;> rfl
  | compare op =>
    rw [Binary.expr, eval]
    cases eval source vars l with
    | error failure => rfl
    | ok a =>
      cases eval source vars r with
      | error failure => rfl
      | ok b =>
        change classed (Except.map Named.value _) = (do
          return .bool (← classed (op.test a.value b.value)))
        cases h : op.test a.value b.value <;> simp [bind, Except.bind, h] <;> rfl
  | both =>
    rw [Binary.expr, eval]
    cases eval source vars l <;> cases eval source vars r <;> rfl
  | either =>
    rw [Binary.expr, eval]
    cases eval source vars l <;> cases eval source vars r <;> rfl

end Worth

theorem Means.worth (h : Means e t) : worth source vars e = t.eval vars := by
  induction h with
  | number w hs => rw [hs, worth_number, Tree.eval]
  | text s => rfl
  | constant c hs =>
    rw [hs, Expr.worth, eval, constant?_text]
    rfl
  | var x hs =>
    rw [hs, Expr.worth, eval, x.notConstant, Tree.eval]
    cases vars.get? (.str x.text) <;> rfl
  | group _ ih => rw [worth_group, ih]
  | member p hs _ ih => rw [hs, worth_member, ih, Tree.eval]
  | index _ _ ihb ihp => rw [worth_index, ihb, ihp, Tree.eval]
  | negate _ ih => rw [worth_negate, ih, Tree.eval]
  | not _ ih => rw [worth_not, ih, Tree.eval]
  | arith op _ _ ihl ihr => rw [← Binary.expr.eq_1, worth_binary, ihl, ihr, Tree.eval]
  | compare op _ _ ihl ihr => rw [← Binary.expr.eq_2, worth_binary, ihl, ihr, Tree.eval]
  | both _ _ ihl ihr => rw [← Binary.expr.eq_3, worth_binary, ihl, ihr, Tree.eval]
  | either _ _ ihl ihr => rw [← Binary.expr.eq_4, worth_binary, ihl, ihr, Tree.eval]

section Sentences

theorem Constant.text_injective {c c' : Constant} (h : c.text = c'.text) : c = c' := by
  have hinverse (c : Constant) :
      [("true", Constant.true), ("false", .false), ("null", .null),
        ("undefined", .undefined)].lookup c.text = some c := by
    cases c <;> rfl
  rw [← Option.some.injEq, ← hinverse c, ← hinverse c', h]

theorem Property.text_injective {p p' : Property} (h : p.text = p'.text) : p = p' := by
  have hapart (n : Name) (w : NumberWord) : n.text ≠ w.text := by
    intro heq
    obtain ⟨c, _, hname, hc, -⟩ := n.isName
    obtain ⟨d, _, hnumber, hd⟩ := w.isNumber.start
    rw [heq, hnumber] at hname
    obtain ⟨rfl, -⟩ := List.cons.inj hname
    rw [(plain_of_isNameStart hc).2.1] at hd
    cases hd
  cases p with
  | name n => cases p' with
    | name n' => rw [Name.ext h]
    | number w' => exact absurd h (hapart n w')
  | number w => cases p' with
    | name n' => exact absurd h.symm (hapart n' w)
    | number w' => rw [NumberWord.ext h]

theorem Means.unique (h : Means e t) (h' : Means e t') : t = t' := by
  induction h generalizing t' with
  | number w hs =>
    cases h' with
    | number w' hs' => rw [NumberWord.ext (hs.symm.trans hs')]
  | text s => cases h' with | text => rfl
  | constant c hs =>
    cases h' with
    | constant c' hs' => rw [Constant.text_injective (hs.symm.trans hs')]
    | var x hs' =>
      have hnone := x.notConstant
      rw [← hs', hs, constant?_text] at hnone
      cases hnone
  | var x hs =>
    cases h' with
    | constant c hs' =>
      have hnone := x.notConstant
      rw [← hs, hs', constant?_text] at hnone
      cases hnone
    | var x' hs' => rw [Variable.ext (hs.symm.trans hs')]
  | group _ ih => cases h' with | group h' => exact ih h'
  | member p hs _ ih =>
    cases h' with
    | member p' hs' h' => rw [ih h', Property.text_injective (hs.symm.trans hs')]
  | index _ _ ihb ihp => cases h' with | index hb hp => rw [ihb hb, ihp hp]
  | negate _ ih => cases h' with | negate h' => rw [ih h']
  | not _ ih => cases h' with | not h' => rw [ih h']
  | arith op _ _ ihl ihr => cases h' with | arith _ hl hr => rw [ihl hl, ihr hr]
  | compare op _ _ ihl ihr => cases h' with | compare _ hl hr => rw [ihl hl, ihr hr]
  | both _ _ ihl ihr => cases h' with | both hl hr => rw [ihl hl, ihr hr]
  | either _ _ ihl ihr => cases h' with | either hl hr => rw [ihl hl, ihr hr]

variable {ts : List Token}

/-- No tokens are a sentence for two trees. -/
theorem Derives.unique (h : Derives .either ts t) (h' : Derives .either ts t') : t = t' := by
  have hmeans : Means (ofTokens "" ts) t := means_ofTokens h
  exact hmeans.unique (means_ofTokens h')

/-- A text whose tokens are a sentence has the value of its tree. -/
theorem evaluate_sentence (htokens : Expr.tokens source = .ok ts) (h : Derives .either ts t) :
    classed (evaluate source vars) = t.eval vars := by
  have hmeans : Means (ofTokens source ts) t := means_ofTokens h
  have hworth : worth source vars (ofTokens source ts) = t.eval vars := hmeans.worth
  rw [evaluate, htokens, ← hworth]
  simp only [bind, Except.bind]
  unfold worth
  cases eval source vars (ofTokens source ts) <;> rfl

/-- Expressions are evaluated by their grammar. A tree that is written, with no more parentheses
than it needs, has the value of its tree, or fails in the same class. And a text with a value has
tokens that are a sentence for just one tree, and the value of that tree. -/
theorem evaluate_grammar (vars : Record) :
    (∀ t : Tree, classed (evaluate t.written vars) = t.eval vars) ∧
      ∀ source v, evaluate source vars = .ok v → ∃ ts t, Expr.tokens source = .ok ts ∧
        Derives .either ts t ∧ (∀ t', Derives .either ts t' → t' = t) ∧ t.eval vars = .ok v := by
  refine ⟨fun t => ?_, fun source v hvalue => ?_⟩
  · have hloose : Level.either.rank ≤ t.level.rank := Nat.zero_le _
    exact evaluate_sentence (tokens_written t) ((derives_tokens t).of_rank_le hloose)
  · cases htokens : Expr.tokens source with
    | error failure => simp [evaluate, htokens, bind, Except.bind] at hvalue
    | ok ts =>
      have hsound : ¬Faulty (ofTokens source ts) := by
        intro hfaulty
        obtain ⟨failure, hfailure⟩ := hfaulty source vars
        simp [evaluate, htokens, hfailure, bind, Except.bind] at hvalue
      obtain ⟨t, hderives, -⟩ := exists_tree (regular_of_tokensFrom _ htokens) hsound
      refine ⟨ts, t, rfl, hderives, fun t' h => h.unique hderives, ?_⟩
      rw [← evaluate_sentence htokens hderives, hvalue]
      rfl

end Sentences

end BulletScript.Expr
