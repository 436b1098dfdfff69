import BulletScript.Proofs.Expr.Undefined
import BulletScript.Proofs.Template.Names

/-! Where a template, a condition or an expression fails by no fault of what is written in it: the
first placeholder without a value asks for something that cannot be read, found or written. -/
namespace BulletScript

open Result

/-- A path with brackets around more digits than are read. -/
def LongIndex (cs : List Char) : Prop :=
  ∃ digits, '[' :: digits ++ [']'] <:+: cs ∧ (∀ c ∈ digits, Text.isDecimal c = true) ∧
    Number.digitLimit < digits.length

/-- A path in which every opening bracket has digits and a closing one behind it. -/
def Indexed : List Char → Prop
  | [] => True
  | c :: rest => (c = '[' → ∃ digits after, rest = digits ++ ']' :: after ∧ digits ≠ [] ∧
      ∀ c ∈ digits, Text.isDecimal c = true) ∧ Indexed rest

section Paths

variable {cs front digits after : List Char} {c : Char}

theorem Indexed.of_append (h : Indexed (front ++ cs)) : Indexed cs := by
  induction front with
  | nil => exact h
  | cons c front ih => exact ih h.2

theorem Indexed.append (hfront : ∀ c ∈ front, c ≠ '[') (h : Indexed cs) :
    Indexed (front ++ cs) := by
  induction front with
  | nil => exact h
  | cons c front ih =>
    rw [List.forall_mem_cons] at hfront
    exact ⟨fun hc => absurd hc hfront.1, ih hfront.2⟩

theorem ne_bracket_of_isDecimal (h : Text.isDecimal c = true) : c ≠ '[' := by
  rintro rfl
  exact absurd h (by decide)

theorem Indexed.bracket (hne : digits ≠ []) (hdigits : ∀ c ∈ digits, Text.isDecimal c = true)
    (h : Indexed after) : Indexed ('[' :: digits ++ ']' :: after) :=
  ⟨fun _ => ⟨digits, after, rfl, hne, hdigits⟩,
    .append (fun c hc => ne_bracket_of_isDecimal (hdigits c hc))
      ⟨fun hc => absurd hc (by decide), h⟩⟩

theorem not_longIndex_nil : ¬LongIndex [] := by
  rintro ⟨digits, hinfix, -⟩
  exact absurd (List.eq_nil_of_infix_nil hinfix) (by simp)

theorem longIndex_cons (hc : c ≠ '[') : LongIndex (c :: cs) ↔ LongIndex cs := by
  refine exists_congr fun digits => and_congr_left' ?_
  rw [List.infix_cons_iff, List.cons_append, List.cons_prefix_cons, or_iff_right]
  exact fun h => hc h.1.symm

theorem longIndex_append (hfront : ∀ c ∈ front, c ≠ '[') :
    LongIndex (front ++ cs) ↔ LongIndex cs := by
  induction front with
  | nil => rfl
  | cons c front ih =>
    rw [List.forall_mem_cons] at hfront
    rw [List.cons_append, longIndex_cons hfront.1, ih hfront.2]

/-- The digits in front of a bracket are the decimal characters there. -/
theorem takeWhile_isDecimal (hdigits : ∀ c ∈ digits, Text.isDecimal c = true) :
    (digits ++ ']' :: after).takeWhile Text.isDecimal = digits := by
  rw [List.takeWhile_append_of_pos hdigits,
    List.takeWhile_cons_of_neg (by decide), List.append_nil]

theorem longIndex_bracket (hdigits : ∀ c ∈ digits, Text.isDecimal c = true) :
    LongIndex ('[' :: digits ++ ']' :: after) ↔
      Number.digitLimit < digits.length ∨ LongIndex after := by
  have hfront : ∀ c ∈ digits ++ [']'], c ≠ '[' := by
    intro c hc
    rcases List.mem_append.1 hc with hc | hc
    · exact ne_bracket_of_isDecimal (hdigits c hc)
    · rw [List.mem_singleton.1 hc]
      decide
  have hafter : LongIndex (digits ++ ']' :: after) ↔ LongIndex after := by
    rw [List.append_cons]
    exact longIndex_append hfront
  rw [← hafter]
  constructor
  · rintro ⟨run, hinfix, hrun, hlong⟩
    rw [List.cons_append, List.cons_append, List.infix_cons_iff, List.cons_prefix_cons] at hinfix
    rcases hinfix with ⟨-, more, hmore⟩ | hinfix
    · left
      rw [List.append_assoc, List.singleton_append] at hmore
      rwa [← takeWhile_isDecimal hdigits, ← hmore, takeWhile_isDecimal hrun]
    · exact .inr ⟨run, hinfix, hrun, hlong⟩
  · rintro (hlong | ⟨run, hinfix, hrun, hlong⟩)
    · refine ⟨digits, ⟨[], after, ?_⟩, hdigits, hlong⟩
      simp
    · exact ⟨run, List.infix_cons hinfix, hrun, hlong⟩

theorem cutIndex_bracket (hne : digits ≠ []) (hdigits : ∀ c ∈ digits, Text.isDecimal c = true) :
    cutIndex ('[' :: digits ++ ']' :: after) = some (digits, after) := by
  obtain ⟨d, ds, rfl⟩ := List.exists_cons_of_ne_nil hne
  have hdrop : (d :: ds ++ ']' :: after).dropWhile Text.isDecimal = ']' :: after := by
    rw [List.dropWhile_append_of_pos hdigits, List.dropWhile_cons_of_neg (by decide)]
  rw [List.cons_append, cutIndex, List.span_eq_takeWhile_dropWhile, takeWhile_isDecimal hdigits,
    hdrop]
  rfl

/-- The steps of a path with numbers in its brackets are read, or one of the numbers is too long. -/
theorem strays_pathSteps {fuel : Nat} (hfuel : cs.length ≤ fuel) (hindexed : Indexed cs) :
    Strays (pathSteps fuel cs) ↔ LongIndex cs := by
  induction fuel generalizing cs with
  | zero =>
    obtain rfl := List.eq_nil_of_length_eq_zero (Nat.le_zero.1 hfuel)
    exact iff_of_false (not_strays_ok _) not_longIndex_nil
  | succ fuel ih =>
    cases cs with
    | nil => exact iff_of_false (not_strays_ok _) not_longIndex_nil
    | cons c rest =>
      have hrest : rest.length ≤ fuel := Nat.le_of_succ_le_succ hfuel
      rw [pathSteps]
      by_cases hc : c = '['
      · obtain ⟨digits, after, rfl, hne, hdigits⟩ := hindexed.1 hc
        subst hc
        have hafter : after.length ≤ fuel := by
          simp only [List.length_append, List.length_cons] at hrest
          omega
        have hlong : ¬IsReadable digits ↔ Number.digitLimit < digits.length := by
          rw [IsReadable, iff_true_intro hdigits, true_and, Nat.not_le]
        have hcut : cutIndex ('[' :: (digits ++ ']' :: after)) = some (digits, after) :=
          cutIndex_bracket hne hdigits
        rw [hcut]
        dsimp only
        have hbelow : Strays (pathSteps fuel after) ↔ LongIndex after :=
          ih hafter hindexed.2.of_append.2
        have hstep (n : Nat) : Strays (do return .index n :: (← pathSteps fuel after)) ↔
            LongIndex after := by
          rw [bind_pure_comp, strays_map, hbelow]
        rw [strays_digitsNumber_bind hstep, hlong, ← List.cons_append, longIndex_bracket hdigits]
      · have hindex : cutIndex (c :: rest) = none := by simp [cutIndex, hc]
        have hquoted : cutQuoted (c :: rest) = none := by simp [cutQuoted, hc]
        rw [hindex, hquoted, longIndex_cons hc]
        dsimp only
        split
        · next hname =>
          have hnames : ∀ c ∈ rest.takeWhile isNameChar, c ≠ '[' := by
            rintro c hc rfl
            exact absurd (List.mem_takeWhile_imp hc) (by decide)
          have hsplit : rest.takeWhile isNameChar ++ rest.dropWhile isNameChar = rest :=
            List.takeWhile_append_dropWhile
          have hbelow : Indexed (rest.dropWhile isNameChar) := by
            have hall := hindexed.2
            rw [← hsplit] at hall
            exact hall.of_append
          rw [bind_pure_comp, strays_map, List.span_eq_takeWhile_dropWhile,
            List.dropWhile_cons_of_pos hname,
            ih ((List.length_dropWhile_le _ _).trans hrest) hbelow, ← longIndex_append hnames,
            hsplit]
        · exact ih hrest hindexed.2

/-- A step that asks a list for an item that it cannot have is where a path has no result. -/
theorem Value.strays_steps? {v : Value} {steps : List PathStep} : Strays (v.steps? steps) ↔
    ∃ front s back w, steps = front ++ .name s :: back ∧ v.steps? front = .ok (some w) ∧
      NoItem w s := by
  induction steps generalizing v with
  | nil => simp [steps?]
  | cons step rest ih =>
    rw [steps?, strays_bind, strays_step?]
    constructor
    · rintro (⟨s, rfl, hitem⟩ | ⟨found, hfound, hrest⟩)
      · exact ⟨[], s, rest, v, rfl, rfl, hitem⟩
      · cases found with
        | none => exact absurd hrest (not_strays_pure _)
        | some u =>
          obtain ⟨front, s, back, w, rfl, hfront, hitem⟩ := ih.1 hrest
          refine ⟨step :: front, s, back, w, rfl, ?_, hitem⟩
          rw [steps?, hfound]
          exact hfront
    · rintro ⟨front, s, back, w, hsteps, hfront, hitem⟩
      cases front with
      | nil =>
        obtain ⟨rfl, -⟩ := List.cons.inj hsteps
        obtain rfl := Option.some.inj (Except.ok.inj hfront)
        exact .inl ⟨s, rfl, hitem⟩
      | cons first front =>
        obtain ⟨rfl, rfl⟩ := List.cons.inj hsteps
        rw [steps?] at hfront
        cases hfound : v.step? step with
        | error f => simp [hfound, bind, Except.bind] at hfront
        | ok found =>
          rw [hfound] at hfront
          refine .inr ⟨found, rfl, ?_⟩
          cases found with
          | none => cases hfront
          | some u => exact ih.2 ⟨front, s, back, w, rfl, hfront, hitem⟩

end Paths

namespace Template

section Names

variable {cs name marks : List Char} {c : Char}

theorem ne_bracket_of_isTokenRest (h : isTokenRest c = true) : c ≠ '[' := by
  rintro rfl
  exact absurd h (by decide)

theorem indexed_cutIndexes (fuel : Nat) (cs : List Char) : Indexed (cutIndexes fuel cs).1 := by
  fun_induction cutIndexes fuel cs with
  | case1 fuel rest d ds after hspan more below hmore tail last htail ih =>
    rw [List.span_eq_takeWhile_dropWhile] at hspan hmore
    rw [htail] at ih
    have hdigits : ∀ c ∈ d :: ds, Text.isDecimal c = true := by
      rw [← (Prod.mk.inj hspan).1]
      exact fun c hc => List.mem_takeWhile_imp hc
    have hnames : ∀ c ∈ more, c ≠ '[' := by
      rw [← (Prod.mk.inj hmore).1]
      exact fun c hc => ne_bracket_of_isTokenRest (List.mem_takeWhile_imp hc)
    have hname : Indexed ('[' :: (d :: ds) ++ ']' :: (more ++ tail)) :=
      .bracket (List.cons_ne_nil d ds) hdigits (ih.append hnames)
    simpa using hname
  | case2 => exact trivial
  | case3 => exact trivial

theorem indexed_of_cutName (h : cutName cs = some (name, marks)) : Indexed name := by
  cases cs with
  | nil => cases h
  | cons c rest =>
    rw [cutName] at h
    split at h
    · rw [List.span_eq_takeWhile_dropWhile] at h
      obtain ⟨rfl, -⟩ := Prod.mk.inj (Option.some.inj h)
      exact (indexed_cutIndexes _ _).append fun c hc =>
        ne_bracket_of_isTokenRest (List.mem_takeWhile_imp hc)
    · cases h

theorem strays_splitPath {inner : String} {token : Token}
    (h : tokenOf? inner = .ok (some token)) :
    Strays (splitPath token.name) ↔ LongIndex token.name.toList := by
  obtain ⟨name, marks, hcut, hname⟩ := tokenOf?_eq_some h
  have hindexed : Indexed token.name.toList := by
    rw [hname, String.toList_ofList]
    exact indexed_of_cutName hcut
  exact strays_pathSteps (Nat.le_of_eq String.length_toList) hindexed

end Names

section Placeholders

variable {inner : String} {vars : Record} {strict : Bool}

theorem strays_validatorKind {source : List Char} :
    Strays (validatorKind inner source) ↔ Regex.read {} source = .error .tooLarge := by
  unfold validatorKind
  split
  · next h => simp [h]
  · next h => simp [h, Failure.kind]
  · next fault hlarge h =>
    rw [h]
    exact iff_of_false (not_strays_pattern _) fun heq => hlarge (Except.error.inj heq)

/-- Of the marks behind a name only a regular expression can be at fault otherwise. -/
theorem strays_kindOf {marks : List Char} : Strays (kindOf inner marks) ↔
    ∃ extra, marks = ':' :: extra ∧ Regex.read {} (Text.trimChars extra) = .error .tooLarge := by
  have hempty : Regex.read {} [] ≠ .error .tooLarge := by
    have hok : (Regex.read {} []).isOk = true := by rfl
    rintro h
    rw [h] at hok
    cases hok
  unfold kindOf
  split
  · simp only [not_strays_ok, List.nil_eq, reduceCtorEq, false_and, exists_false]
  · next mark extra =>
    by_cases hcolon : mark = ':'
    · subst hcolon
      have hblank : (':' :: extra).all Text.isBlank ≠ true := fun h =>
        absurd (List.all_eq_true.1 h ':' List.mem_cons_self) (by decide)
      rw [if_neg hblank, if_neg (by decide), if_pos rfl]
      simp only [List.cons.injEq, true_and, exists_eq_left']
      split
      · next hsource => simp [hsource, hempty]
      · exact (strays_map some).trans strays_validatorKind
    · have hother : ¬∃ rest, mark :: extra = ':' :: rest ∧
          Regex.read {} (Text.trimChars rest) = .error .tooLarge := by
        rintro ⟨rest, heq, -⟩
        exact hcolon (List.cons.inj heq).1
      refine iff_of_false ?_ hother
      rw [if_neg hcolon]
      repeat' split
      all_goals exact not_strays_ok _

theorem strays_tokenOf? : Strays (tokenOf? inner) ↔
    ∃ name extra, cutName (Text.trimLeftChars inner.toList) = some (name, ':' :: extra) ∧
      Regex.read {} (Text.trimChars extra) = .error .tooLarge := by
  unfold tokenOf?
  cases cutName (Text.trimLeftChars inner.toList) with
  | none => simp
  | some cut =>
    obtain ⟨name, marks⟩ := cut
    simp only [bind_pure_comp, strays_map, strays_kindOf, Option.some.injEq, Prod.mk.injEq,
      and_assoc, exists_and_left, exists_eq_left']

theorem strays_resolvePath {token : Token} (h : tokenOf? inner = .ok (some token)) :
    Strays (resolvePath vars token.name) ↔ LongIndex token.name.toList ∨
      ∃ front s back w, splitPath token.name = .ok (front ++ .name s :: back) ∧
        (Value.map vars).steps? front = .ok (some w) ∧ NoItem w s := by
  rw [resolvePath, strays_bind, strays_splitPath h]
  refine or_congr_right ?_
  constructor
  · rintro ⟨steps, hsteps, hstrays⟩
    obtain ⟨front, s, back, w, rfl, hfront, hitem⟩ := Value.strays_steps?.1 hstrays
    exact ⟨front, s, back, w, hsteps, hfront, hitem⟩
  · rintro ⟨front, s, back, w, hsteps, hfront, hitem⟩
    exact ⟨_, hsteps, Value.strays_steps?.2 ⟨front, s, back, w, rfl, hfront, hitem⟩⟩

/-- Placeholders that get no value by no fault of the template. -/
inductive Undefined (vars : Record) (inner : String) : Prop
  /-- A regular expression that repeats something too often. -/
  | pattern {name extra : List Char} :
      cutName (Text.trimLeftChars inner.toList) = some (name, ':' :: extra) →
      Regex.read {} (Text.trimChars extra) = .error .tooLarge → Undefined vars inner
  /-- A name with an index that is too long to be read. -/
  | index {token : Token} : tokenOf? inner = .ok (some token) → LongIndex token.name.toList →
      Undefined vars inner
  /-- A name that asks a list for an item by digits that are too many to be read. -/
  | item {token : Token} {front back : List PathStep} {s : String} {v : Value} :
      tokenOf? inner = .ok (some token) →
      splitPath token.name = .ok (front ++ .name s :: back) →
      (Value.map vars).steps? front = .ok (some v) → NoItem v s → Undefined vars inner
  /-- A name whose value is too long to be written. -/
  | value {token : Token} {v : Value} : tokenOf? inner = .ok (some token) →
      resolvePath vars token.name = .ok (some v) → v.isWritable = false → Undefined vars inner
  /-- An expression without a value. -/
  | expression {ts : List Expr.Token} {part : Expr} : tokenOf? inner = .ok none →
      Expr.tokens (Text.trim inner) = .ok ts →
      Expr.firstWithout (Text.trim inner) vars (Expr.ofTokens (Text.trim inner) ts) = some part →
      Expr.Undefined (Text.trim inner) vars part → Undefined vars inner
  /-- An expression whose value is too long to be written. -/
  | result {v : Value} : tokenOf? inner = .ok none → evaluate (Text.trim inner) vars = .ok v →
      v.isWritable = false → Undefined vars inner

theorem strays_expressionValue (h : tokenOf? inner = .ok none) :
    Strays (placeholderValue vars strict inner) ↔ Strays (evaluate (Text.trim inner) vars) ∨
      ∃ v, evaluate (Text.trim inner) vars = .ok v ∧ v.isWritable = false := by
  rw [placeholderValue, h]
  dsimp only [bind, Except.bind]
  split
  · next name heval =>
    rw [heval]
    cases strict <;> simp [Failure.kind]
  · cases evaluate (Text.trim inner) vars with
    | error f => simp
    | ok v => cases hwritable : v.isWritable <;> simp [Value.checkWritable, hwritable, Failure.kind]

theorem strays_nameValue {token : Token} (h : tokenOf? inner = .ok (some token)) :
    Strays (placeholderValue vars strict inner) ↔ Strays (resolvePath vars token.name) ∨
      ∃ v, resolvePath vars token.name = .ok (some v) ∧ v.isWritable = false := by
  rw [placeholderValue, h]
  dsimp only [bind, Except.bind]
  cases resolvePath vars token.name with
  | error f => simp
  | ok found =>
    cases found with
    | none => cases strict <;> cases token.isOptional <;> simp [Failure.kind]
    | some v =>
      cases hwritable : v.isWritable with
      | false => simp [Value.checkWritable, hwritable, Failure.kind]
      | true =>
        have hnone : ¬∃ w, Except.ok (some v) = (.ok (some w) : Result (Option Value)) ∧
            w.isWritable = false := by
          rintro ⟨w, hw, hunwritten⟩
          obtain rfl := Option.some.inj (Except.ok.inj hw)
          exact absurd (hwritable.symm.trans hunwritten) (by decide)
        simp only [Value.checkWritable, hwritable, if_true, not_strays_ok, hnone, or_false,
          iff_false]
        split <;> exact not_strays_pure _

theorem strays_placeholderValue :
    Strays (placeholderValue vars strict inner) ↔ Undefined vars inner := by
  constructor
  · intro hstrays
    cases htoken : tokenOf? inner with
    | error f =>
      have hcut : Strays (tokenOf? inner) := by
        rw [placeholderValue, htoken] at hstrays
        rw [htoken]
        exact strays_error.2 (strays_error.1 hstrays)
      obtain ⟨name, extra, hcut, hlarge⟩ := strays_tokenOf?.1 hcut
      exact .pattern hcut hlarge
    | ok found =>
      cases found with
      | none =>
        rcases (strays_expressionValue htoken).1 hstrays with hstrays | ⟨v, hv, hwritten⟩
        · obtain ⟨ts, part, hts, hfirst, hpart⟩ := Expr.strays_evaluate.1 hstrays
          exact .expression htoken hts hfirst hpart
        · exact .result htoken hv hwritten
      | some token =>
        rcases (strays_nameValue htoken).1 hstrays with hstrays | ⟨v, hv, hwritten⟩
        · rcases (strays_resolvePath htoken).1 hstrays with
            hlong | ⟨_, _, _, _, hsteps, hfront, hitem⟩
          · exact .index htoken hlong
          · exact .item htoken hsteps hfront hitem
        · exact .value htoken hv hwritten
  · intro h
    cases h with
    | pattern hcut hlarge =>
      have hstrays : Strays (tokenOf? inner) := strays_tokenOf?.2 ⟨_, _, hcut, hlarge⟩
      exact strays_bind.2 (.inl hstrays)
    | index htoken hlong =>
      exact (strays_nameValue htoken).2 (.inl ((strays_resolvePath htoken).2 (.inl hlong)))
    | item htoken hsteps hfront hitem =>
      exact (strays_nameValue htoken).2
        (.inl ((strays_resolvePath htoken).2 (.inr ⟨_, _, _, _, hsteps, hfront, hitem⟩)))
    | value htoken hv hwritten => exact (strays_nameValue htoken).2 (.inr ⟨_, hv, hwritten⟩)
    | expression htoken hts hfirst hpart =>
      exact (strays_expressionValue htoken).2
        (.inl (Expr.strays_evaluate.2 ⟨_, _, hts, hfirst, hpart⟩))
    | result htoken hv hwritten => exact (strays_expressionValue htoken).2 (.inr ⟨_, hv, hwritten⟩)

end Placeholders

section Templates

variable {template : String} {vars : Record} {strict : Bool} {escape : String → String}

theorem not_strays_segmentsFrom (position : Nat) (cs : List Char) :
    ¬Strays (segmentsFrom template position cs) := by
  fun_induction segmentsFrom template position cs with
  | case1 => exact not_strays_ok _
  | case2 => exact not_strays_pattern _
  | case3 position cs before after hopen inner rest hclose _ here =>
    rename_i ih
    rwa [bind_pure_comp, strays_map]

theorem strays_segmentText {part : Segment} : Strays (segmentText vars strict escape part) ↔
    ∃ inner position, part = .placeholder inner position ∧ isCursor inner = false ∧
      Undefined vars inner := by
  cases part with
  | literal text => simp [segmentText]
  | placeholder inner position =>
    rw [segmentText]
    cases hcursor : isCursor inner with
    | true => simp [hcursor]
    | false =>
      simp only [Bool.false_eq_true, if_false, bind_pure_comp, strays_map, strays_placeholderValue,
        Segment.placeholder.injEq, exists_and_left, and_assoc, exists_eq_left', hcursor, true_and]

/-- Segments fail at the first placeholder without a value. -/
theorem strays_segmentsText {parts : List Segment} :
    Strays (segmentsText vars strict escape parts) ↔
      ∃ front inner position back text, parts = front ++ .placeholder inner position :: back ∧
        segmentsText vars strict escape front = .ok text ∧ isCursor inner = false ∧
        Undefined vars inner := by
  induction parts with
  | nil => simp [segmentsText]
  | cons part rest ih =>
    rw [segmentsText, strays_bind, strays_segmentText]
    simp only [bind_pure_comp, strays_map, ih]
    constructor
    · rintro (⟨inner, position, rfl, hcursor, hinner⟩ | ⟨here, hhere, hrest⟩)
      · exact ⟨[], inner, position, rest, "", rfl, rfl, hcursor, hinner⟩
      · obtain ⟨front, inner, position, back, text, rfl, hfront, hinner⟩ := hrest
        refine ⟨part :: front, inner, position, back, here ++ text, rfl, ?_, hinner⟩
        rw [segmentsText, hhere, hfront]
        rfl
    · rintro ⟨front, inner, position, back, text, hparts, hfront, hinner⟩
      cases front with
      | nil =>
        obtain ⟨rfl, -⟩ := List.cons.inj hparts
        exact .inl ⟨inner, position, rfl, hinner⟩
      | cons first front =>
        obtain ⟨rfl, rfl⟩ := List.cons.inj hparts
        obtain ⟨here, below, hhere, hbelow, -⟩ := segmentsText_cons_ok hfront
        exact .inr ⟨here, hhere, front, inner, position, back, below, rfl, hbelow, hinner⟩

/-- Templates of which the first placeholder without a value gets none by no fault of theirs. -/
def UndefinedIn (vars : Record) (strict : Bool) (escape : String → String) (template : String) :
    Prop :=
  ∃ front inner position back text,
    segments template = .ok (front ++ .placeholder inner position :: back) ∧
      segmentsText vars strict escape front = .ok text ∧ isCursor inner = false ∧
      Undefined vars inner

theorem strays_interpolateWith :
    Strays (interpolateWith escape strict template vars) ↔
      UndefinedIn vars strict escape template := by
  have hsegments : ¬Strays (segments template) := not_strays_segmentsFrom _ _
  rw [interpolateWith, strays_bind, or_iff_right hsegments]
  simp only [strays_segmentsText]
  constructor
  · rintro ⟨parts, hparts, front, inner, position, back, text, rfl, hinner⟩
    exact ⟨front, inner, position, back, text, hparts, hinner⟩
  · rintro ⟨front, inner, position, back, text, hparts, hinner⟩
    exact ⟨_, hparts, front, inner, position, back, text, rfl, hinner⟩

/-- Templates, conditions and expressions fail otherwise than by a fault of what is written in them
just where a first part that gets no value asks for something that cannot be read, found or written:
a number or an index with too many digits, an item of a list by digits that no number uses, whole
numbers beyond all floats among floats, a float without a whole part as an index or a quotient, or a
regular expression that repeats something too often. -/
theorem strays_iff (source : String) (vars : Record) :
    (∀ escape strict, Strays (interpolateWith escape strict source vars) ↔
      UndefinedIn vars strict escape source) ∧
    (Strays (condition source vars) ↔ UndefinedIn vars false id source) ∧
    (Strays (evaluate source vars) ↔ ∃ ts part, Expr.tokens source = .ok ts ∧
      Expr.firstWithout source vars (Expr.ofTokens source ts) = some part ∧
      Expr.Undefined source vars part) := by
  refine ⟨fun escape strict => strays_interpolateWith, ?_, Expr.strays_evaluate⟩
  rw [condition, bind_pure_comp, strays_map]
  exact strays_interpolateWith

/-- An item asked for by a raised digit, which no number uses. -/
theorem interpolate_strays_raised :
    ¬∀ (source : String) (vars : Record), ¬Strays (interpolate source vars) ∧
      ¬Strays (condition source vars) ∧ ¬Strays (evaluate source vars) := by
  intro h
  have hraised : interpolate "\x7b\x7blist['²']\x7d\x7d" [(.str "list", .list [.str "a"])] =
      .error (.internal (.notInt "²")) := by
    decide +kernel
  refine (h _ _).1 ⟨_, hraised, ?_⟩
  decide

end Templates

end Template

end BulletScript
