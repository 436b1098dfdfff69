import BulletScript.Proofs.Expr.Tree

/-! The grammar of expressions: which tokens are a sentence for a tree, with parentheses around any part.
Its reader goes level by level: every level but those of prefixes and of access reads a part of the next
level, and then, as its tail, operators of its own with parts behind them. -/
namespace BulletScript.Expr

section Grammar

/-- The tokens of a level for a tree. Operators between two operands lean to the left, except that
comparisons do not chain. -/
inductive Derives : Level → List Token → Tree → Prop
  | number (w : NumberWord) : Derives .access [w.token] (.number w)
  | text {token : Token} : token.kind = .string →
      Derives .access [token] (.text (stringValue token.text))
  | constant (c : Constant) : Derives .access [⟨.name, c.text⟩] (.constant c)
  | var (x : Variable) : Derives .access [x.token] (.var x)
  | parens {ts : List Token} {t : Tree} : Derives .either ts t →
      Derives .access (sign "(" :: ts ++ [sign ")"]) t
  | member {ts : List Token} {base : Tree} (p : Property) : Derives .access ts base →
      Derives .access (ts ++ [sign ".", p.token]) (.member base p)
  | index {ts places : List Token} {base place : Tree} : Derives .access ts base →
      Derives .either places place →
      Derives .access (ts ++ sign "[" :: places ++ [sign "]"]) (.index base place)
  | negate {ts : List Token} {t : Tree} : Derives .unary ts t →
      Derives .unary (sign "-" :: ts) (.negate t)
  | not {ts : List Token} {t : Tree} : Derives .negation ts t →
      Derives .negation (sign "!" :: ts) (.not t)
  | binary (o : Binary) {ls rs : List Token} {l r : Tree} : Derives o.level.left ls l →
      Derives o.level.next rs r → Derives o.level (ls ++ sign o.text :: rs) (.binary o l r)
  | loosen {level : Level} {ts : List Token} {t : Tree} : Derives level.next ts t →
      Derives level ts t

namespace Derives

variable {level place : Level} {ts : List Token} {t : Tree}

theorem ne_nil (h : Derives level ts t) : ts ≠ [] := by
  induction h with
  | loosen _ ih => exact ih
  | _ => simp

/-- What binds tighter stands at every looser place. -/
theorem of_rank_le (h : Derives level ts t) (hle : place.rank ≤ level.rank) :
    Derives place ts t := by
  obtain ⟨n, hn⟩ := Nat.exists_eq_add_of_le hle
  induction n generalizing place with
  | zero =>
    obtain rfl : place = level := by
      revert hn
      cases place <;> cases level <;> simp [Level.rank]
    exact h
  | succ n ih =>
    have hnext : place.next.rank = place.rank + 1 := by
      revert hn
      cases place <;> cases level <;> simp [Level.rank, Level.next] <;> omega
    exact .loosen (ih (by omega) (by omega))

theorem fit (h : Derives level ts t) (place : Level) :
    Derives place (Expr.fit place level ts) t := by
  unfold Expr.fit
  split
  · next hle => exact h.of_rank_le hle
  · have hloose : Level.either.rank ≤ level.rank := Nat.zero_le _
    have htight : place.rank ≤ Level.access.rank := by cases place <;> decide
    exact (Derives.parens (h.of_rank_le hloose)).of_rank_le htight

end Derives

theorem unescape_escape (cs : List Char) : unescape (escape cs) = cs := by
  induction cs with
  | nil => rfl
  | cons c rest ih =>
    unfold escape
    split
    · next hc =>
      have hline : c ≠ '\n' := by rcases hc with rfl | rfl <;> decide
      rw [unescape, if_neg hline, ih]
    · next hc =>
      rw [not_or] at hc
      rw [unescape, ih]
      exact fun _ _ h _ => hc.2 h

theorem stringValue_quoted (s : String) : stringValue (quoted s).text = s := by
  simp [stringValue, quoted, unescape_escape]

/-- The tokens that write a tree are a sentence for it. -/
theorem derives_tokens (t : Tree) : Derives t.level t.tokens t := by
  induction t with
  | number w => exact .number w
  | text s =>
    have h : Derives .access [quoted s] (.text (stringValue (quoted s).text)) := .text rfl
    rwa [stringValue_quoted] at h
  | constant c => exact .constant c
  | var x => exact .var x
  | member base p ih => exact .member p (ih.fit _)
  | index base place ihb ihp => exact .index (ihb.fit _) (ihp.of_rank_le (Nat.zero_le _))
  | negate operand ih => exact .negate (ih.fit _)
  | not operand ih => exact .not (ih.fit _)
  | binary o left right ihl ihr => exact .binary o (ihl.fit _) (ihr.fit _)

end Grammar

variable {source : String} {fuel : Nat} {ts rest : List Token} {level : Level}

section Operators

theorem headOp?_eq_some {α : Type} {ops : List (String × α)} {x : α} :
    headOp? ops ts = some (x, rest) ↔ ∃ s, ts = sign s :: rest ∧ ops.lookup s = some x := by
  cases ts with
  | nil => simp [headOp?]
  | cons token more =>
    obtain ⟨kind, text⟩ := token
    by_cases hkind : kind = .op
    · subst hkind
      rw [headOp?, if_pos rfl, Option.map_eq_some_iff]
      constructor
      · rintro ⟨y, hy, heq⟩
        cases heq
        exact ⟨text, rfl, hy⟩
      · rintro ⟨s, heq, hs⟩
        cases heq
        exact ⟨x, hs, rfl⟩
    · simp [headOp?, sign, hkind]

/-- What stands behind a given sign. -/
theorem afterOp?_eq_some {s : String} : afterOp? s ts = some rest ↔ ts = sign s :: rest := by
  rw [afterOp?, Option.map_eq_some_iff]
  constructor
  · rintro ⟨⟨_, _⟩, hhead, rfl⟩
    obtain ⟨s', hts, hlookup⟩ := headOp?_eq_some.1 hhead
    obtain rfl : s' = s := by
      by_cases h : s' = s
      · exact h
      · simp [List.lookup_cons, beq_false_of_ne h] at hlookup
    exact hts
  · rintro rfl
    exact ⟨((), rest), headOp?_eq_some.2 ⟨s, rfl, by simp⟩, rfl⟩

/-- The operator of a level at the head of tokens. -/
def opAt? (level : Level) (ts : List Token) : Option (Binary × List Token) :=
  match level with
  | .either => (afterOp? "||" ts).map (.either, ·)
  | .both => (afterOp? "&&" ts).map (.both, ·)
  | .comparison => (headOp? compareOps ts).map fun (op, rest) => (.compare op, rest)
  | .sum => (headOp? sumOps ts).map fun (op, rest) => (.arith op, rest)
  | .product => (headOp? productOps ts).map fun (op, rest) => (.arith op, rest)
  | .negation | .unary | .access => none

/-- A list of operators under their texts finds each of them. -/
theorem lookup_eq_some_iff {α : Type} {ops : List (String × α)} {text : α → String} {x : α}
    {s : String} (htexts : ∀ p ∈ ops, p.1 = text p.2 ∧ ops.lookup p.1 = some p.2) :
    ops.lookup s = some x ↔ s = text x ∧ x ∈ ops.map (·.2) := by
  constructor
  · intro h
    obtain ⟨before, after, rfl, -⟩ := List.lookup_eq_some_iff.1 h
    exact ⟨(htexts (s, x) (by simp)).1, by simp⟩
  · rintro ⟨rfl, hx⟩
    obtain ⟨p, hp, rfl⟩ := List.mem_map.1 hx
    rw [← (htexts p hp).1, (htexts p hp).2]

theorem headOp?_compareOps {op : CompareOp} :
    headOp? compareOps ts = some (op, rest) ↔ ts = sign op.text :: rest := by
  have htexts : ∀ p ∈ compareOps, p.1 = p.2.text ∧ compareOps.lookup p.1 = some p.2 := by decide
  have hall : op ∈ compareOps.map (·.2) := by cases op <;> decide
  simp [headOp?_eq_some, lookup_eq_some_iff htexts, hall]

theorem headOp?_arith {ops : List (String × ArithOp)} {op : ArithOp}
    (htexts : ∀ p ∈ ops, p.1 = p.2.text ∧ ops.lookup p.1 = some p.2)
    (hlevel : op ∈ ops.map (·.2) ↔ arithLevel op = level) :
    headOp? ops ts = some (op, rest) ↔
      ts = sign op.text :: rest ∧ arithLevel op = level := by
  rw [headOp?_eq_some, ← hlevel]
  constructor
  · rintro ⟨s, rfl, hs⟩
    obtain ⟨rfl, hmem⟩ := (lookup_eq_some_iff htexts).1 hs
    exact ⟨rfl, hmem⟩
  · rintro ⟨rfl, hmem⟩
    exact ⟨op.text, rfl, (lookup_eq_some_iff htexts).2 ⟨rfl, hmem⟩⟩

theorem headOp?_sumOps {op : ArithOp} : headOp? sumOps ts = some (op, rest) ↔
    ts = sign op.text :: rest ∧ arithLevel op = .sum :=
  headOp?_arith (by decide) (by cases op <;> decide)

theorem headOp?_productOps {op : ArithOp} : headOp? productOps ts = some (op, rest) ↔
    ts = sign op.text :: rest ∧ arithLevel op = .product :=
  headOp?_arith (by decide) (by cases op <;> decide)

theorem opAt?_eq_some {o : Binary} :
    opAt? level ts = some (o, rest) ↔ ts = sign o.text :: rest ∧ o.level = level := by
  have hlevel (op : ArithOp) {other : Level} (hsum : other ≠ .sum) (hproduct : other ≠ .product) :
      arithLevel op ≠ other := by
    cases op <;> simp [arithLevel, hsum.symm, hproduct.symm]
  cases level <;> rcases o with op | op | _ | _ <;>
    simp [opAt?, Binary.level, Binary.text, afterOp?_eq_some, headOp?_compareOps,
      headOp?_sumOps, headOp?_productOps, hlevel]

end Operators

section Reader

def Binary.expr (o : Binary) (l r : Expr) : Expr :=
  match o with
  | .arith op => .arith op l r
  | .compare op => .compare op l r
  | .both => .both l r
  | .either => .either l r

/-- The levels whose operators chain to the left. -/
def Level.chains : Level → Bool
  | .either | .both | .sum | .product => true
  | .negation | .comparison | .unary | .access => false

/-- The reader of a level. -/
def readAt (source : String) : Level → Nat → List Token → Part
  | .either => readOr source
  | .both => readAnd source
  | .negation => readNot source
  | .comparison => readComparison source
  | .sum => readSum source
  | .product => readProduct source
  | .unary => readUnary source
  | .access => fun fuel ts => (readPrimary source fuel ts).bind (readAccess source fuel)

/-- What a level reads behind its first part. -/
def tailAt (source : String) : Level → Nat → Expr → List Token → Part
  | .either => readOrTail source
  | .both => readAndTail source
  | .comparison => fun fuel left ts => match headOp? compareOps ts with
    | none => .whole left ts
    | some (op, rest) => (readSum source fuel rest).map (.compare op left)
  | .sum => readSumTail source
  | .product => readProductTail source
  | .access => readAccess source
  | .negation | .unary => fun _ left ts => .whole left ts

/-- The levels without a prefix of their own read a part of the next level, and their tail. -/
theorem readAt_succ (hlevel : level.chains = true ∨ level = .comparison) :
    readAt source level (fuel + 1) ts =
      (readAt source level.next fuel ts).bind (tailAt source level fuel) := by
  cases level <;> simp [Level.chains] at hlevel <;> rfl

theorem readNot_succ : readAt source .negation (fuel + 1) ts = match afterOp? "!" ts with
    | some rest => (readAt source .negation fuel rest).map .not
    | none => readAt source .comparison fuel ts := rfl

theorem readUnary_succ : readAt source .unary (fuel + 1) ts = match afterOp? "-" ts with
    | some rest => (readAt source .unary fuel rest).map .negate
    | none => readAt source .access fuel ts := rfl

/-- A level that chains goes on with each of its operators. -/
theorem tailAt_succ (hlevel : level.chains = true) (left : Expr) :
    tailAt source level (fuel + 1) left ts = match opAt? level ts with
      | none => .whole left ts
      | some (o, rest) => ((readAt source level.next fuel rest).map (o.expr left)).bind
        (tailAt source level fuel) := by
  cases level <;> simp [Level.chains] at hlevel
  · cases h : afterOp? "||" ts <;> simp [tailAt, readOrTail, opAt?, h]
    rfl
  · cases h : afterOp? "&&" ts <;> simp [tailAt, readAndTail, opAt?, h]
    rfl
  · cases h : headOp? sumOps ts <;> simp [tailAt, readSumTail, opAt?, h]
    rfl
  · cases h : headOp? productOps ts <;> simp [tailAt, readProductTail, opAt?, h]
    rfl

theorem tailAt_comparison (left : Expr) :
    tailAt source .comparison fuel left ts = match opAt? .comparison ts with
      | none => .whole left ts
      | some (o, rest) => (readAt source .sum fuel rest).map (o.expr left) := by
  cases h : headOp? compareOps ts <;> simp [tailAt, opAt?, h]
  rfl

end Reader

end BulletScript.Expr
