import BulletScript.Proofs.Expr.Meaning
import BulletScript.Proofs.Template.Undefined
import BulletScript.Proofs.Json.Consumed

/-! Paths as they are searched and as they are evaluated. A path of names, numbers and indexes is
split into its steps by one reader and read as an expression by another. They agree on a path, for
all variables, exactly if no two of its numbers adjoin, since a number goes on behind its point, and
no index has more digits than are read. -/
namespace BulletScript.Expr

section Syntax

/-- A run of decimal digits. -/
structure Digits where
  text : String
  ne_nil : text.toList ≠ []
  isDecimal : ∀ c ∈ text.toList, Text.isDecimal c = true

namespace Digits

def word (d : Digits) : NumberWord := ⟨d.text, .whole d.ne_nil d.isDecimal⟩

/-- Two runs of digits with a point between them. -/
def point (a b : Digits) : NumberWord where
  text := a.text ++ "." ++ b.text
  isNumber := by
    have htext : (a.text ++ "." ++ b.text).toList = a.text.toList ++ '.' :: b.text.toList := by
      simp
    rw [htext]
    exact .fraction a.ne_nil a.isDecimal b.ne_nil b.isDecimal

end Digits

/-- A step of a path as it is written: a name or a number behind a point, or an index. -/
inductive PathPart where
  | name (n : Name)
  | number (d : Digits)
  | index (d : Digits)

def PathPart.chars : PathPart → List Char
  | .name n => '.' :: n.text.toList
  | .number d => '.' :: d.text.toList
  | .index d => '[' :: d.text.toList ++ [']']

def partsChars (parts : List PathPart) : List Char := parts.flatMap PathPart.chars

/-- The text of a path. -/
def pathText (x : Variable) (parts : List PathPart) : String :=
  .ofList (x.text.toList ++ partsChars parts)

/-- Two numbers one behind the other. -/
def Adjoining (parts : List PathPart) : Prop :=
  ∃ front a b back, parts = front ++ .number a :: .number b :: back

/-- An index with more digits than are read. -/
def PathPart.IsLong : PathPart → Prop
  | .index d => Number.digitLimit < d.text.toList.length
  | .name _ | .number _ => False

/-- An access to a part of a value, as expressions have it. -/
inductive Access where
  | member (p : Property)
  | index (d : Digits)

def PathPart.access : PathPart → Access
  | .name n => .member (.name n)
  | .number d => .member (.number d.word)
  | .index d => .index d

/-- The accesses that are read off a path. A number takes the one behind it as its fraction. -/
def accesses : List PathPart → List Access
  | [] => []
  | .number a :: .number b :: rest => .member (.number (a.point b)) :: accesses rest
  | part :: rest => part.access :: accesses rest

theorem accesses_of_not_adjoining {parts : List PathPart} (h : ¬Adjoining parts) :
    accesses parts = parts.map PathPart.access := by
  induction parts using accesses.induct with
  | case1 => rfl
  | case2 a b rest _ => exact absurd ⟨[], a, b, rest, rfl⟩ h
  | case3 part rest hpart ih =>
    have hrest : ¬Adjoining rest := by
      rintro ⟨front, a, b, back, rfl⟩
      exact h ⟨part :: front, a, b, back, rfl⟩
    rw [accesses, ih hrest, List.map_cons]
    exact hpart

/-- Up to the first two numbers that adjoin, the accesses are the parts. -/
theorem accesses_of_adjoining {parts : List PathPart} (h : Adjoining parts) :
    ∃ front a b back, parts = front ++ .number a :: .number b :: back ∧
      accesses parts =
        front.map PathPart.access ++ .member (.number (a.point b)) :: accesses back := by
  induction parts using accesses.induct with
  | case1 =>
    obtain ⟨front, a, b, back, hnil⟩ := h
    simp at hnil
  | case2 a b rest _ => exact ⟨[], a, b, rest, rfl, rfl⟩
  | case3 part rest hpart ih =>
    have hrest : Adjoining rest := by
      obtain ⟨front, a, b, back, hparts⟩ := h
      cases front with
      | nil =>
        obtain ⟨rfl, rfl⟩ := List.cons.inj hparts
        exact absurd rfl (hpart a b back rfl)
      | cons first front =>
        obtain ⟨-, rfl⟩ := List.cons.inj hparts
        exact ⟨front, a, b, back, rfl⟩
    obtain ⟨front, a, b, back, rfl, haccesses⟩ := ih hrest
    refine ⟨part :: front, a, b, back, rfl, ?_⟩
    rw [accesses, haccesses]
    · rfl
    · exact hpart

end Syntax

section Walking

/-- The step into a value that an access takes. -/
def Access.step : Access → Result PathStep
  | .member p => .ok (.name p.text)
  | .index d => do return .index (← digitsNumber d.text.toList)

/-- The steps of accesses in a row. -/
def stepsOf : List Access → Result (List PathStep)
  | [] => .ok []
  | a :: rest => do return (← a.step) :: (← stepsOf rest)

/-- The value where accesses lead to, each made when its turn comes. -/
def walk (v : Value) : List Access → Except String Value
  | [] => .ok v
  | a :: rest => do walk (← reach v (← classed a.step)) rest

/-- What a search finds has to be there. -/
def found (r : Result (Option Value)) : Except String Value := do
  match ← classed r with
  | some v => return v
  | none => throw missing

variable {v : Value} {as bs : List Access} {steps : List PathStep}

theorem walk_append (v : Value) (as bs : List Access) :
    walk v (as ++ bs) = walk v as >>= fun w => walk w bs := by
  induction as generalizing v with
  | nil => rfl
  | cons a as ih =>
    rw [List.cons_append, walk, walk]
    cases classed a.step with
    | error f => rfl
    | ok step =>
      simp only [bind, Except.bind]
      cases reach v step with
      | error f => rfl
      | ok w => exact ih w

/-- Accesses whose steps can be read lead to where a search along these steps ends. -/
theorem walk_eq_found (h : stepsOf as = .ok steps) (v : Value) :
    walk v as = found (v.steps? steps) := by
  induction as generalizing v steps with
  | nil =>
    obtain rfl := Except.ok.inj h
    rfl
  | cons a as ih =>
    rw [stepsOf] at h
    cases hstep : a.step with
    | error f => simp [hstep, bind, Except.bind] at h
    | ok step =>
      cases hrest : stepsOf as with
      | error f => simp [hstep, hrest, bind, Except.bind] at h
      | ok rest =>
        simp only [hstep, hrest, bind, Except.bind, pure, Except.pure, Except.ok.injEq] at h
        subst h
        rw [walk, hstep, Value.steps?]
        change (reach v step >>= fun w => walk w as) = _
        unfold reach
        cases v.step? step with
        | error f => rfl
        | ok next =>
          cases next with
          | none => rfl
          | some w => exact ih hrest w

/-- The steps of accesses in a row are those of the first and then those of the others. -/
theorem stepsOf_append (h : stepsOf (as ++ bs) = .ok steps) :
    ∃ front back, stepsOf as = .ok front ∧ stepsOf bs = .ok back ∧ steps = front ++ back := by
  induction as generalizing steps with
  | nil => exact ⟨[], steps, rfl, h, rfl⟩
  | cons a as ih =>
    rw [List.cons_append, stepsOf] at h
    cases hstep : a.step with
    | error f => simp [hstep, bind, Except.bind] at h
    | ok step =>
      cases hrest : stepsOf (as ++ bs) with
      | error f => simp [hstep, hrest, bind, Except.bind] at h
      | ok rest =>
        simp only [hstep, hrest, bind, Except.bind, pure, Except.pure, Except.ok.injEq] at h
        obtain ⟨front, back, hfront, hback, rfl⟩ := ih hrest
        exact ⟨step :: front, back, by rw [stepsOf, hstep, hfront]; rfl, hback, h.symm⟩

theorem PathPart.step_cases (part : PathPart) :
    (¬part.IsLong ∧ ∃ step, part.access.step = .ok step) ∨
      part.IsLong ∧ ∃ f, part.access.step = .error f := by
  cases part with
  | name n | number d => exact .inl ⟨id, _, rfl⟩
  | index d =>
    rcases digitsNumber_cases d.text.toList with ⟨hread, n, hn⟩ | ⟨hread, f, hf, -⟩
    · exact .inl ⟨Nat.not_lt.2 hread.2, .index n, by rw [PathPart.access, Access.step, hn]; rfl⟩
    · rw [IsReadable, not_and, Nat.not_le] at hread
      exact .inr ⟨hread d.isDecimal, f, by rw [PathPart.access, Access.step, hf]; rfl⟩

/-- The steps of a path can be read unless an index is too long. -/
theorem stepsOf_cases (parts : List PathPart) :
    ((∀ part ∈ parts, ¬part.IsLong) ∧
        ∃ steps, stepsOf (parts.map PathPart.access) = .ok steps) ∨
      (∃ part ∈ parts, part.IsLong) ∧ ∃ f, stepsOf (parts.map PathPart.access) = .error f := by
  induction parts with
  | nil => exact .inl ⟨List.forall_mem_nil _, [], rfl⟩
  | cons part rest ih =>
    rw [List.map_cons, stepsOf, List.forall_mem_cons]
    rcases part.step_cases with ⟨hshort, step, hstep⟩ | ⟨hlong, f, hf⟩
    · rcases ih with ⟨hrest, steps, hsteps⟩ | ⟨⟨p, hp, hlong⟩, f, hf⟩
      · exact .inl ⟨⟨hshort, hrest⟩, step :: steps, by rw [hstep, hsteps]; rfl⟩
      · exact .inr ⟨⟨p, List.mem_cons_of_mem _ hp, hlong⟩, f, by rw [hstep, hf]; rfl⟩
    · exact .inr ⟨⟨part, List.mem_cons_self .., hlong⟩, f, by rw [hf]; rfl⟩

/-- An index is the number of its digits, and a number is not too long to be written. -/
theorem index_step (d : Digits) :
    (numberValue d.text >>= stepOf) = (Access.index d).step := by
  have hpoint : d.text.toList.contains '.' = false := by
    rw [Bool.eq_false_iff, Ne, List.contains_iff_mem]
    exact fun hmem => absurd (d.isDecimal '.' hmem) (by decide)
  rw [numberValue, if_neg (by simpa using hpoint), Access.step]
  cases hn : digitsNumber d.text.toList with
  | error f => rfl
  | ok n =>
    simp only [bind, Except.bind, pure, Except.pure, stepOf, Value.checkWritable, Value.isWritable,
      isWritable_digitsNumber d.ne_nil hn, if_true]

/-- A value with accesses behind it, as a tree. -/
def climb (base : Tree) : List Access → Tree
  | [] => base
  | .member p :: rest => climb (.member base p) rest
  | .index d :: rest => climb (.index base (.number d.word)) rest

theorem eval_climb (vars : Record) (base : Tree) (as : List Access) :
    (climb base as).eval vars = base.eval vars >>= fun v => walk v as := by
  induction as generalizing base with
  | nil =>
    rw [climb]
    cases base.eval vars <;> rfl
  | cons a as ih =>
    cases a with
    | member p =>
      rw [climb, ih, Tree.eval]
      cases base.eval vars <;> rfl
    | index d =>
      rw [climb, ih, Tree.eval]
      cases base.eval vars with
      | error f => rfl
      | ok v =>
        have hstep := index_step d
        change (do let v ← (do let i ← classed (numberValue d.text)
                               reach v (← classed (stepOf i)))
                   walk v as) = walk v (.index d :: as)
        rw [walk, ← hstep]
        cases numberValue d.text with
        | error f => rfl
        | ok i =>
          change (classed (stepOf i) >>= reach v) >>= (walk · as) =
            classed (stepOf i) >>= fun step => reach v step >>= (walk · as)
          exact bind_assoc ..

end Walking

section Reading

open Text (isBlank span_append)

variable {source : String} {cs rest : List Char} {parts : List PathPart}

def Access.tokens : Access → List Token
  | .member p => [sign ".", p.token]
  | .index d => [sign "[", d.word.token, sign "]"]

/-- The tokens of accesses behind a value are a sentence. -/
theorem derives_climb {ts : List Token} {base : Tree} (h : Derives .access ts base)
    (as : List Access) : Derives .access (ts ++ as.flatMap Access.tokens) (climb base as) := by
  induction as generalizing ts base with
  | nil => simpa [climb] using h
  | cons a as ih =>
    rw [List.flatMap_cons, ← List.append_assoc]
    cases a with
    | member p => exact ih (h.member p)
    | index d =>
      have hplace : Derives .either [d.word.token] (.number d.word) :=
        (Derives.number d.word).of_rank_le (Nat.zero_le _)
      have hindex := h.index hplace
      rw [List.append_assoc] at hindex
      exact ih hindex

/-- What follows a step of a path: nothing, a point or a bracket. -/
theorem head_partsChars (parts : List PathPart) :
    ∀ c ∈ (partsChars parts).head?, c = '.' ∨ c = '[' := by
  cases parts with
  | nil => simp [partsChars]
  | cons part parts => cases part <;> simp [partsChars, PathPart.chars]

theorem partsChars_cons (part : PathPart) (parts : List PathPart) :
    partsChars (part :: parts) = part.chars ++ partsChars parts := List.flatMap_cons ..

theorem partsChars_head {p : Char → Bool} (hpoint : p '.' = false) (hbracket : p '[' = false)
    (parts : List PathPart) : ∀ c ∈ (partsChars parts).head?, p c = false := by
  intro c hc
  rcases head_partsChars parts c hc with rfl | rfl <;> assumption

theorem Lexes.sign {c : Char} {ts : List Token} (hc : c = '.' ∨ c = '[' ∨ c = ']')
    (h : Lexes source cs ts) : Lexes source (c :: cs) (sign (.ofList [c]) :: ts) := by
  have hcut : cutToken ([c] ++ cs) = some (Expr.sign (.ofList [c]), cs) := by
    rcases hc with rfl | rfl | rfl <;> cases cs <;> rfl
  have hblank : isBlank c = false := by rcases hc with rfl | rfl | rfl <;> decide
  exact Lexes.cons hcut hblank h

theorem Lexes.name {ts : List Token} (n : Name) (hrest : ∀ c ∈ rest.head?, isNameRest c = false)
    (h : Lexes source rest ts) : Lexes source (n.text.toList ++ rest) (n.token :: ts) := by
  obtain ⟨c, cs, hstart, hc, -⟩ := id n.isName
  have hcut := n.isName.cutToken n.notOperator hrest
  rw [hstart] at hcut ⊢
  exact Lexes.cons hcut (plain_of_isNameStart hc).1 h

theorem Lexes.number {ts : List Token} (w : NumberWord)
    (hdigit : ∀ c ∈ rest.head?, Text.isDecimal c = false)
    (hpoint : '.' ∉ w.text.toList → ∀ c more, rest = '.' :: c :: more → Text.isDecimal c = false)
    (h : Lexes source rest ts) : Lexes source (w.text.toList ++ rest) (w.token :: ts) := by
  obtain ⟨c, cs, hstart, hc⟩ := w.isNumber.start
  have hcut := w.cutToken hdigit hpoint
  rw [hstart] at hcut ⊢
  exact Lexes.cons hcut (Text.isBlank_of_isDecimal hc) h

/-- The parts of a path are read as its accesses. -/
theorem lexes_partsChars (source : String) (parts : List PathPart) :
    Lexes source (partsChars parts) ((accesses parts).flatMap Access.tokens) := by
  induction parts using accesses.induct with
  | case1 => exact lexes_nil source
  | case2 a b rest ih =>
    have hchars : partsChars (.number a :: .number b :: rest) =
        '.' :: ((a.point b).text.toList ++ partsChars rest) := by
      simp [partsChars, PathPart.chars, Digits.point]
    have hpoint : '.' ∈ (a.point b).text.toList := by simp [Digits.point]
    rw [hchars]
    exact (ih.number (a.point b) (partsChars_head (by decide) (by decide) rest)
      (absurd hpoint)).sign (.inl rfl)
  | case3 part rest hpart ih =>
    rw [accesses, List.flatMap_cons, partsChars_cons]
    · cases part with
      | name n => exact (ih.name n (partsChars_head (by decide) (by decide) rest)).sign (.inl rfl)
      | number d =>
        refine (ih.number d.word (partsChars_head (by decide) (by decide) rest) ?_).sign (.inl rfl)
        intro _ c more hrest
        cases rest with
        | nil => cases hrest
        | cons next rest =>
          rw [partsChars_cons] at hrest
          cases next with
          | name n =>
            obtain ⟨first, _, hstart, hfirst, -⟩ := n.isName
            rw [PathPart.chars, hstart] at hrest
            obtain rfl := (List.cons.inj (List.cons.inj hrest).2).1
            exact (plain_of_isNameStart hfirst).2.1
          | number b => exact absurd rfl (hpart d b rest rfl)
          | index d' => cases hrest
      | index d =>
        have hbracket := (ih.sign (c := ']') (by simp)).number d.word (by simp; decide) (by simp)
        have hchars : PathPart.chars (.index d) ++ partsChars rest =
            '[' :: (d.word.text.toList ++ ']' :: partsChars rest) := by
          simp [PathPart.chars, Digits.word]
        rw [hchars]
        exact hbracket.sign (by simp)
    · exact hpart

theorem tokens_pathText (x : Variable) (parts : List PathPart) :
    Expr.tokens (pathText x parts) = .ok (x.token :: (accesses parts).flatMap Access.tokens) := by
  have hparts := lexes_partsChars (pathText x parts) parts
  have hname := hparts.name x.toName (partsChars_head (by decide) (by decide) parts)
  have htext : (pathText x parts).toList = x.text.toList ++ partsChars parts :=
    String.toList_ofList
  rw [Expr.tokens, htext]
  exact hname _ (Nat.le_of_eq (by rw [← String.length_toList, htext]))

/-- A path is evaluated by its accesses, from its variable on. -/
theorem evaluate_pathText (vars : Record) (x : Variable) (parts : List PathPart) :
    classed (evaluate (pathText x parts) vars) =
      reach (.map vars) (.name x.text) >>= fun v => walk v (accesses parts) := by
  have hsentence : Derives .either (x.token :: (accesses parts).flatMap Access.tokens)
      (climb (.var x) (accesses parts)) :=
    (derives_climb (.var x) (accesses parts)).of_rank_le (Nat.zero_le _)
  rw [evaluate_sentence (tokens_pathText x parts) hsentence, eval_climb, Tree.eval]
  unfold reach
  cases h : vars.get? (.str x.text) <;> simp [Value.step?, h] <;> rfl

end Reading

section Splitting

variable {cs rest : List Char} {fuel : Nat}

/-- A character of a step behind a point: none that ends it, and no blank. -/
def IsPlain (c : Char) : Prop := isNameChar c = true ∧ Text.isBlank c = false

theorem isPlain_of_isName {s : String} (h : IsName s.toList) : ∀ c ∈ s.toList, IsPlain c := by
  obtain ⟨first, more, hstart, hfirst, hmore⟩ := h
  have hrest : ∀ c ∈ s.toList, isNameRest c = true := by
    rw [hstart]
    exact List.forall_mem_cons.2 ⟨isNameRest_of_isNameStart hfirst, hmore⟩
  intro c hc
  have hplain := Template.plainChar (Template.isNameRest_iff.1 (hrest c hc))
  exact ⟨hplain.1, hplain.2.1⟩

theorem Digits.isPlain (d : Digits) : ∀ c ∈ d.text.toList, IsPlain c := by
  intro c hc
  have hdecimal := d.isDecimal c hc
  refine ⟨?_, Text.isBlank_of_isDecimal hdecimal⟩
  simp only [isNameChar, Bool.and_eq_true, decide_eq_true_eq, ne_eq]
  refine ⟨⟨?_, ?_⟩, ?_⟩ <;> rintro rfl <;> exact absurd hdecimal (by decide)

/-- A step is read up to a point or a bracket. -/
theorem pathSteps_plain {s : String} (hne : s.toList ≠ []) (hplain : ∀ c ∈ s.toList, IsPlain c)
    (hrest : ∀ c ∈ rest.head?, isNameChar c = false) :
    pathSteps (fuel + 1) (s.toList ++ rest) = do return .name s :: (← pathSteps fuel rest) := by
  have hspan : (s.toList ++ rest).span isNameChar = (s.toList, rest) :=
    Text.span_append (fun c hc => (hplain c hc).1) hrest
  have htrim : Text.trim s = s := by
    rw [Text.trim, Text.trimChars_eq_self_iff.2, String.ofList_toList]
    exact ⟨fun c hc => (hplain c (List.mem_of_mem_head? hc)).2,
      fun c hc => (hplain c (List.mem_of_getLast? hc)).2⟩
  obtain ⟨c, cs, hcs⟩ := List.exists_cons_of_ne_nil hne
  have hc : isNameChar c = true := (hplain c (by simp [hcs])).1
  have hbracket : c ≠ '[' := by
    rintro rfl
    exact absurd hc (by decide)
  have hindex : cutIndex (c :: (cs ++ rest)) = none := by simp [cutIndex, hbracket]
  have hquoted : cutQuoted (c :: (cs ++ rest)) = none := by simp [cutQuoted, hbracket]
  rw [hcs, List.cons_append] at hspan ⊢
  rw [pathSteps, hindex, hquoted]
  dsimp only
  rw [if_pos hc, hspan, ← hcs, String.ofList_toList, htrim]

theorem pathSteps_point (cs : List Char) :
    pathSteps (fuel + 1) ('.' :: cs) = pathSteps fuel cs := by
  rw [pathSteps]
  simp [cutIndex, cutQuoted, isNameChar]

/-- The steps of a path are those of its parts. -/
theorem pathSteps_partsChars (parts : List PathPart) (hfuel : (partsChars parts).length ≤ fuel) :
    pathSteps fuel (partsChars parts) = stepsOf (parts.map PathPart.access) := by
  induction parts generalizing fuel with
  | nil => cases fuel <;> rfl
  | cons part rest ih =>
    have hhead : ∀ c ∈ (partsChars rest).head?, isNameChar c = false :=
      partsChars_head (by decide) (by decide) rest
    rw [partsChars_cons] at hfuel ⊢
    rw [List.length_append] at hfuel
    have hplain {s : String} (hne : s.toList ≠ []) (hs : ∀ c ∈ s.toList, IsPlain c)
        (hlong : ('.' :: s.toList).length + (partsChars rest).length ≤ fuel) :
        pathSteps fuel ('.' :: s.toList ++ partsChars rest) =
          do return .name s :: (← stepsOf (rest.map PathPart.access)) := by
      have hpos := List.length_pos_iff.2 hne
      rw [List.length_cons] at hlong
      obtain ⟨fuel, rfl⟩ : ∃ n, fuel = n + 2 := ⟨fuel - 2, by omega⟩
      rw [List.cons_append, pathSteps_point, pathSteps_plain hne hs hhead, ih (by omega)]
    cases part with
    | name n =>
      obtain ⟨c, cs, hstart, -⟩ := n.isName
      exact hplain (by simp [hstart]) (isPlain_of_isName n.isName) hfuel
    | number d => exact hplain d.ne_nil d.isPlain hfuel
    | index d =>
      have hcut : cutIndex ('[' :: d.text.toList ++ ']' :: partsChars rest) =
          some (d.text.toList, partsChars rest) := cutIndex_bracket d.ne_nil d.isDecimal
      have hchars : PathPart.chars (.index d) ++ partsChars rest =
          '[' :: (d.text.toList ++ ']' :: partsChars rest) := by simp [PathPart.chars]
      simp only [PathPart.chars, List.length_append, List.length_cons] at hfuel
      obtain ⟨fuel, rfl⟩ : ∃ n, fuel = n + 1 := ⟨fuel - 1, by omega⟩
      rw [List.cons_append] at hcut
      rw [hchars, pathSteps, hcut]
      dsimp only
      rw [ih (by omega), List.map_cons, stepsOf, PathPart.access, Access.step]
      cases digitsNumber d.text.toList <;> rfl

theorem splitPath_pathText (x : Variable) (parts : List PathPart) :
    splitPath (pathText x parts) =
      do return .name x.text :: (← stepsOf (parts.map PathPart.access)) := by
  have htext : (pathText x parts).toList = x.text.toList ++ partsChars parts :=
    String.toList_ofList
  obtain ⟨c, cs, hstart, -⟩ := id x.isName
  have hlength : (pathText x parts).length = cs.length + (partsChars parts).length + 1 := by
    rw [← String.length_toList, htext, hstart, List.length_append, List.length_cons]
    omega
  rw [splitPath, hlength, htext,
    pathSteps_plain (by simp [hstart]) (isPlain_of_isName x.isName)
      (partsChars_head (by decide) (by decide) parts),
    pathSteps_partsChars parts (by omega)]

end Splitting

section Agreement

/-- An evaluation agrees with a search: it has the value that is found, and a part is missing
exactly if nothing is found. -/
def Agrees (evaluated : Except String Value) (searched : Result (Option Value)) : Prop :=
  (∀ v, searched = .ok (some v) → evaluated = .ok v) ∧
    (evaluated = .error missing ↔ searched = .ok none)

/-- Mappings inside each other along a path, with null at its end. -/
def nest : List PathStep → Value
  | [] => .null
  | .name s :: rest => .map [(.str s, nest rest)]
  | .index n :: rest => .map [(.int n, nest rest)]

variable {vars : Record} {x : Variable} {parts : List PathPart} {steps : List PathStep}

theorem step?_nest (step : PathStep) (rest : List PathStep) :
    (nest (step :: rest)).step? step = .ok (some (nest rest)) := by
  cases step with
  | name s => simp [nest, Value.step?, Record.get?]
  | index n =>
    have hsame : Key.same (.int n) (.int n) = true := by
      simp [Key.same, Key.number?, Number.same, Number.order]
    simp [nest, Value.step?, Record.get?, hsame]

theorem steps?_nest (front back : List PathStep) :
    (nest (front ++ back)).steps? front = .ok (some (nest back)) := by
  induction front with
  | nil => rfl
  | cons step front ih =>
    rw [List.cons_append, Value.steps?, step?_nest]
    exact ih

/-- No number is that of its first digits. -/
theorem point_text_ne (a b : Digits) : a.text ≠ (a.point b).text := by
  intro h
  have hlength := congrArg (fun s => s.toList.length) h
  simp [Digits.point] at hlength

theorem digitsNumber_not_missing {cs : List Char} {f : Failure} (h : digitsNumber cs = .error f) :
    f.name ≠ missing := by
  unfold digitsNumber at h
  split at h
  · split at h
    · cases h
      simp [Failure.name, missing]
    · cases h
  · cases h
    simp [Failure.name, missing]

theorem step?_not_missing {v : Value} {step : PathStep} {f : Failure}
    (h : v.step? step = .error f) : f.name ≠ missing := by
  unfold Value.step? at h
  split at h
  case h_4 items s =>
    split at h
    · cases h
    · split at h
      · cases hn : digitsNumber s.toList with
        | error g =>
          simp only [hn, bind, Except.bind, Except.error.injEq] at h
          exact h ▸ digitsNumber_not_missing hn
        | ok n => simp [hn, bind, Except.bind, pure, Except.pure] at h
      · cases h
  all_goals cases h

/-- A search never fails as a missing part does. -/
theorem steps?_not_missing {v : Value} {f : Failure} (h : v.steps? steps = .error f) :
    f.name ≠ missing := by
  induction steps generalizing v with
  | nil => cases h
  | cons step rest ih =>
    rw [Value.steps?] at h
    cases hstep : v.step? step with
    | error g =>
      simp only [hstep, bind, Except.bind, Except.error.injEq] at h
      exact h ▸ step?_not_missing hstep
    | ok next =>
      rw [hstep] at h
      cases next with
      | none => cases h
      | some w => exact ih h

theorem agrees_found {r : Result (Option Value)} (h : ∀ f, r = .error f → f.name ≠ missing) :
    Agrees (found r) r := by
  cases r with
  | error f => simpa [Agrees, found, classed, Except.mapError, bind, Except.bind] using h f rfl
  | ok next =>
    cases next with
    | none => simp [Agrees, found, classed, Except.mapError, bind, Except.bind, throw, throwThe,
        MonadExceptOf.throw]
    | some v => simp [Agrees, found, classed, Except.mapError, bind, Except.bind, pure, Except.pure]

theorem resolvePath_pathText (hsteps : stepsOf (parts.map PathPart.access) = .ok steps) :
    resolvePath vars (pathText x parts) = (Value.map vars).steps? (.name x.text :: steps) := by
  rw [resolvePath, splitPath_pathText, hsteps]
  rfl

/-- Without numbers that adjoin and long indexes, a path is evaluated by searching it. -/
theorem evaluate_eq_found (hadjoining : ¬Adjoining parts)
    (hsteps : stepsOf (parts.map PathPart.access) = .ok steps) :
    classed (evaluate (pathText x parts) vars) = found (resolvePath vars (pathText x parts)) := by
  rw [evaluate_pathText, accesses_of_not_adjoining hadjoining, resolvePath_pathText hsteps,
    Value.steps?]
  unfold reach
  cases hx : (Value.map vars).step? (.name x.text) with
  | error f => rfl
  | ok next =>
    cases next with
    | none => rfl
    | some v => exact walk_eq_found hsteps v

/-- Where two numbers adjoin, the first of them is a key and both together are none. -/
theorem reach_point (a b : Digits) (rest : List PathStep) :
    reach (nest (.name a.text :: rest)) (.name (a.point b).text) = .error missing := by
  have hkey : (a.text == (a.point b).text) = false := beq_false_of_ne (point_text_ne a b)
  unfold reach
  simp only [nest, Value.step?, Record.get?, List.find?_cons, Key.same_str, hkey, List.find?_nil]
  rfl

/-- Mappings along a path with numbers that adjoin lead a search to its end, and an evaluation only
to the first of these numbers. -/
theorem exists_disagreement (hadjoining : Adjoining parts)
    (hsteps : stepsOf (parts.map PathPart.access) = .ok steps) :
    ∃ vars, resolvePath vars (pathText x parts) = .ok (some .null) ∧
      classed (evaluate (pathText x parts) vars) = .error missing := by
  refine ⟨[(.str x.text, nest steps)], ?_, ?_⟩
  · rw [resolvePath_pathText hsteps]
    have hnest := steps?_nest (.name x.text :: steps) []
    rwa [List.append_nil] at hnest
  · obtain ⟨front, a, b, back, rfl, haccesses⟩ := accesses_of_adjoining hadjoining
    rw [List.map_append] at hsteps
    obtain ⟨fs, bs, hfront, hback, rfl⟩ := stepsOf_append hsteps
    rw [List.map_cons, ← List.singleton_append] at hback
    obtain ⟨_, more, hfirst, -, rfl⟩ := stepsOf_append hback
    obtain rfl := Except.ok.inj hfirst
    have hvar : reach (.map [(.str x.text, nest (fs ++ (.name a.text :: more)))]) (.name x.text) =
        .ok (nest (fs ++ (.name a.text :: more))) := by
      have hstep := step?_nest (.name x.text) (fs ++ (.name a.text :: more))
      unfold reach
      rw [← nest, hstep]
      rfl
    have hwalk : walk (nest (fs ++ (.name a.text :: more))) (front.map PathPart.access) =
        .ok (nest (.name a.text :: more)) := by
      rw [walk_eq_found hfront, steps?_nest]
      rfl
    rw [evaluate_pathText, haccesses]
    change reach (.map [(.str x.text, nest (fs ++ (.name a.text :: more)))]) _ >>= _ = _
    rw [hvar]
    change walk (nest (fs ++ (.name a.text :: more))) _ = _
    rw [walk_append, hwalk]
    change (reach (nest (.name a.text :: more)) (.name (a.point b).text) >>= _) = _
    rw [reach_point]
    rfl

/-- The two readers of paths agree on a path, whatever the variables hold, if and only if no two of
its numbers adjoin and no index has more digits than are read. -/
theorem path_readers_agree_iff (x : Variable) (parts : List PathPart) :
    (∀ vars, Agrees (classed (evaluate (pathText x parts) vars))
      (resolvePath vars (pathText x parts))) ↔
        ¬Adjoining parts ∧ ∀ part ∈ parts, ¬part.IsLong := by
  constructor
  · intro hagrees
    rcases stepsOf_cases parts with ⟨hshort, steps, hsteps⟩ | ⟨-, f, hf⟩
    · refine ⟨fun hadjoining => ?_, hshort⟩
      obtain ⟨vars, hsearched, hmissing⟩ := exists_disagreement (x := x) hadjoining hsteps
      have hvalue := (hagrees vars).1 _ hsearched
      rw [hmissing] at hvalue
      cases hvalue
    · have hsearched : resolvePath [] (pathText x parts) = .error f := by
        rw [resolvePath, splitPath_pathText, hf]
        rfl
      have hmissing : classed (evaluate (pathText x parts) []) = .error missing := by
        rw [evaluate_pathText]
        rfl
      rw [(hagrees []).2.1 hmissing] at hsearched
      cases hsearched
  · rintro ⟨hadjoining, hshort⟩ vars
    rcases stepsOf_cases parts with ⟨-, steps, hsteps⟩ | ⟨hlong, -⟩
    · rw [evaluate_eq_found hadjoining hsteps, resolvePath_pathText hsteps]
      exact agrees_found fun f => steps?_not_missing
    · obtain ⟨part, hpart, hlong⟩ := hlong
      exact absurd hlong (hshort part hpart)

/-- The variable of a list of lists. -/
def gridName : Variable where
  text := "a"
  isName := ⟨'a', [], rfl, by decide, List.forall_mem_nil _⟩
  notOperator := by decide
  notConstant := rfl

/-- An item of a list in a list, by numbers behind points. -/
def gridParts : List PathPart :=
  [.number ⟨"1", by decide, List.all_eq_true.1 (by decide)⟩,
    .number ⟨"2", by decide, List.all_eq_true.1 (by decide)⟩]

def grid : Record :=
  [(.str "a", .list [.list [.str "x"], .list [.str "p", .str "q", .str "r"]])]

/-- The item is found, and it is missing in the evaluation, which looks for the number in front of
and behind the second point. -/
theorem path_readers_disagree_grid : pathText gridName gridParts = "a.1.2" ∧
    resolvePath grid (pathText gridName gridParts) = .ok (some (.str "r")) ∧
    classed (evaluate (pathText gridName gridParts) grid) = .error missing := by
  refine ⟨rfl, rfl, rfl⟩

end Agreement

end BulletScript.Expr
