import BulletScript.Proofs.Expr.Tree
import BulletScript.Proofs.Text.Search
import BulletScript.Proofs.Text.Word

/-! Texts and tokens: tokens that are written with blanks between them are read again, and whatever
is read as a number or a name is one. -/
namespace BulletScript.Expr

open Text

section Characters

variable {c : Char}

theorem code_of_isNameStart (h : isNameStart c = true) :
    (65 ≤ c.toNat ∧ c.toNat ≤ 90) ∨ c.toNat = 95 ∨ (97 ≤ c.toNat ∧ c.toNat ≤ 122) := by
  simp only [isNameStart, Bool.or_eq_true, beq_iff_eq] at h
  rcases h with h | rfl
  · exact (code_of_isAlpha h).imp_right .inr
  · exact .inr (.inl rfl)

theorem isNameRest_of_isNameStart (h : isNameStart c = true) : isNameRest c = true := by
  simp only [isNameStart, isNameRest, Char.isAlphanum, Bool.or_eq_true] at h ⊢
  exact h.imp_left .inl

theorem plain_of_isNameStart (h : isNameStart c = true) :
    isBlank c = false ∧ isDecimal c = false ∧ ¬(c = '"' ∨ c = '\'') := by
  have hcode := code_of_isNameStart h
  refine ⟨?_, ?_, ?_⟩
  · simp only [isBlank, Bool.or_eq_false_iff, Bool.and_eq_false_iff, decide_eq_false_iff_not,
      beq_eq_false_iff_ne]
    omega
  · have hascii : c.toNat < 128 := by omega
    have hdigit : c.isDigit = false := by
      have heq : c.toNat = c.val.toNat := rfl
      simp [Char.isDigit, UInt32.le_iff_toNat_le]
      omega
    simp [isDecimal, decimalValue?, hascii, hdigit]
  · rintro (rfl | rfl) <;> simp at hcode

end Characters

section Reading

variable {cs rest after : List Char} {token : Token}

theorem of_span {α : Type} {p : α → Bool} {xs ys zs : List α} (h : xs.span p = (ys, zs)) :
    xs = ys ++ zs ∧ ∀ y ∈ ys, p y = true := by
  rw [List.span_eq_takeWhile_dropWhile, Prod.mk.injEq] at h
  obtain ⟨rfl, rfl⟩ := h
  exact ⟨List.takeWhile_append_dropWhile.symm, fun y hy => List.mem_takeWhile_imp hy⟩

theorem isNumber_cutNumber {c : Char} (hc : isDecimal c = true) :
    IsNumber (cutNumber (c :: cs)).1 := by
  cases hspan : (c :: cs).span isDecimal with
  | mk whole rest =>
    have hne : whole ≠ [] := by
      rintro rfl
      simp [List.span_eq_takeWhile_dropWhile, hc] at hspan
    have hwhole := (of_span hspan).2
    unfold cutNumber
    rw [hspan]
    dsimp only
    split
    · next after =>
      split
      · exact .whole hne hwhole
      · next fraction behind hfraction hafter =>
        refine .fraction hne hwhole ?_ (of_span hafter).2
        rintro rfl
        exact hfraction rfl
    · exact .whole hne hwhole

/-- A token whose text is of its kind. -/
def Token.Regular (token : Token) : Prop :=
  match token.kind with
  | .number => IsNumber token.text.toList
  | .name => IsName token.text.toList ∧ operatorWord? token.text = none
  | .string | .op => True

theorem regular_of_cutToken (h : cutToken cs = some (token, after)) : token.Regular := by
  cases cs with
  | nil => cases h
  | cons c rest =>
    unfold cutToken at h
    dsimp only at h
    split at h
    · next hc =>
      obtain ⟨rfl, -⟩ := Prod.mk.inj (Option.some.inj h)
      simpa [Token.Regular] using isNumber_cutNumber hc
    split at h
    · obtain ⟨_, -, heq⟩ := Option.map_eq_some_iff.1 h
      obtain ⟨rfl, -⟩ := Prod.mk.inj heq
      trivial
    split at h
    · next hstart =>
      cases hspan : (c :: rest).span isNameRest with
      | mk body behind =>
        rw [hspan] at h
        dsimp only at h
        split at h
        · obtain ⟨rfl, -⟩ := Prod.mk.inj (Option.some.inj h)
          trivial
        · next hword =>
          obtain ⟨rfl, -⟩ := Prod.mk.inj (Option.some.inj h)
          refine ⟨?_, hword⟩
          obtain ⟨happend, hbody⟩ := of_span hspan
          rw [String.toList_ofList]
          cases body with
          | nil =>
            simp [List.span_eq_takeWhile_dropWhile, isNameRest_of_isNameStart hstart] at hspan
          | cons d ds =>
            obtain ⟨rfl, -⟩ := List.cons.inj happend
            exact ⟨c, ds, rfl, hstart, fun x hx => hbody x (List.mem_cons_of_mem _ hx)⟩
    · obtain ⟨_, -, heq⟩ := Option.map_eq_some_iff.1 h
      obtain ⟨rfl, -⟩ := Prod.mk.inj heq
      trivial

theorem regular_of_tokensFrom {source : String} {ts : List Token} (fuel : Nat)
    (h : tokensFrom source fuel cs = .ok ts) : ∀ token ∈ ts, token.Regular := by
  fun_induction tokensFrom source fuel cs generalizing ts with
  | case1 | case2 =>
    cases h
    exact List.forall_mem_nil _
  | case3 _ _ _ _ ih => exact ih h
  | case4 fuel _ _ _ token after hcut ih =>
    cases hafter : tokensFrom source fuel after with
    | error failure => simp [hafter, bind, Except.bind] at h
    | ok more =>
      simp only [hafter, bind, Except.bind, pure, Except.pure, Except.ok.injEq] at h
      subst h
      exact List.forall_mem_cons.2 ⟨regular_of_cutToken hcut, ih hafter⟩
  | case5 => cases h

end Reading

section Writing

variable {cs rest : List Char}

/-- What follows a token in a text: nothing, or a blank. -/
def Parted (rest : List Char) : Prop := ∀ c ∈ rest.head?, c = ' '

theorem Parted.head (h : Parted rest) {p : Char → Bool} (hp : p ' ' = false) :
    ∀ c ∈ rest.head?, p c = false := fun c hc => h c hc ▸ hp

/-- A number is cut off in front of what does not go on with it: no digit and, if the number is
whole, no point with a digit behind it. -/
theorem cutNumber_append (hcs : IsNumber cs) (hdigit : ∀ c ∈ rest.head?, isDecimal c = false)
    (hpoint : '.' ∉ cs → ∀ c more, rest = '.' :: c :: more → isDecimal c = false) :
    cutNumber (cs ++ rest) = (cs, rest) := by
  cases hcs with
  | whole _ hdigits =>
    have hwhole : '.' ∉ cs := fun hmem => absurd (hdigits '.' hmem) (by decide)
    unfold cutNumber
    rw [span_append hdigits hdigit]
    dsimp only
    split
    · next after =>
      have hafter : ([] ++ after).span isDecimal = ([], after) :=
        span_append (List.forall_mem_nil _) fun c hc => by
          obtain ⟨more, rfl⟩ := List.head?_eq_some_iff.1 hc
          exact hpoint hwhole c more rfl
      rw [List.nil_append] at hafter
      rw [hafter]
    · rfl
  | @fraction ds fs _ hdigits hne hfraction =>
    obtain ⟨f, more, rfl⟩ := List.exists_cons_of_ne_nil hne
    have hwhole : (ds ++ '.' :: (f :: more ++ rest)).span isDecimal =
        (ds, '.' :: (f :: more ++ rest)) :=
      span_append hdigits (by simp; decide)
    have hafter : (f :: more ++ rest).span isDecimal = (f :: more, rest) :=
      span_append hfraction hdigit
    rw [List.append_assoc, List.cons_append, cutNumber, hwhole]
    simp only [hafter]

theorem cutString_escape (cs rest : List Char) :
    cutString '"' (escape cs ++ '"' :: rest) = some (escape cs ++ ['"'], rest) := by
  induction cs with
  | nil => rfl
  | cons c cs ih =>
    unfold escape
    split
    · next hc =>
      have hline : c ≠ '\n' := by rcases hc with rfl | rfl <;> decide
      rw [List.cons_append, List.cons_append, cutString, if_neg hline, ih]
      rfl
    · next hc =>
      rw [not_or] at hc
      rw [List.cons_append, cutString, if_neg hc.1, if_neg hc.2, ih]
      · rfl
      · exact fun _ _ h _ => hc.2 h

/-- A token that is cut from its text, whatever blanks and other texts follow. -/
structure Token.Stands (token : Token) : Prop where
  start : ∃ c cs, token.text.toList = c :: cs ∧ isBlank c = false
  cut : ∀ rest, Parted rest → cutToken (token.text.toList ++ rest) = some (token, rest)

theorem IsNumber.start (h : IsNumber cs) : ∃ c rest, cs = c :: rest ∧ isDecimal c = true := by
  cases h with
  | whole hne hdigits | fraction hne hdigits =>
    obtain ⟨d, ds, rfl⟩ := List.exists_cons_of_ne_nil hne
    exact ⟨d, _, rfl, hdigits d (by simp)⟩

theorem NumberWord.cutToken (w : NumberWord) (hdigit : ∀ c ∈ rest.head?, isDecimal c = false)
    (hpoint : '.' ∉ w.text.toList → ∀ c more, rest = '.' :: c :: more → isDecimal c = false) :
    Expr.cutToken (w.text.toList ++ rest) = some (w.token, rest) := by
  obtain ⟨c, cs, hstart, hc⟩ := w.isNumber.start
  have hcut := cutNumber_append w.isNumber hdigit hpoint
  rw [hstart, List.cons_append] at hcut ⊢
  rw [Expr.cutToken, if_pos hc, hcut, ← hstart, NumberWord.token]
  simp only [String.ofList_toList]

theorem NumberWord.stands (w : NumberWord) : w.token.Stands := by
  obtain ⟨c, cs, hstart, hc⟩ := w.isNumber.start
  refine ⟨⟨c, cs, hstart, isBlank_of_isDecimal hc⟩, fun rest hrest => ?_⟩
  refine w.cutToken (hrest.head (by decide)) fun _ c more hpoint => ?_
  exact absurd (hrest '.' (by simp [hpoint])) (by decide)

theorem IsName.cutToken {s : String} (hname : IsName s.toList) (hword : operatorWord? s = none)
    (hrest : ∀ c ∈ rest.head?, isNameRest c = false) :
    Expr.cutToken (s.toList ++ rest) = some (⟨.name, s⟩, rest) := by
  obtain ⟨c, cs, hstart, hc, hcs⟩ := hname
  obtain ⟨-, hdecimal, hquote⟩ := plain_of_isNameStart hc
  have hname : ∀ d ∈ c :: cs, isNameRest d = true :=
    List.forall_mem_cons.2 ⟨isNameRest_of_isNameStart hc, hcs⟩
  have hspan : (c :: (cs ++ rest)).span isNameRest = (c :: cs, rest) := span_append hname hrest
  rw [hstart, List.cons_append, Expr.cutToken, if_neg (by simp [hdecimal]), if_neg hquote,
    if_pos hc, hspan, ← hstart]
  simp only [String.ofList_toList, hword]

theorem IsName.stands {s : String} (hname : IsName s.toList) (hword : operatorWord? s = none) :
    Token.Stands ⟨.name, s⟩ := by
  obtain ⟨c, cs, hstart, hc, -⟩ := id hname
  refine ⟨⟨c, cs, hstart, (plain_of_isNameStart hc).1⟩, fun rest hrest => ?_⟩
  exact hname.cutToken hword (hrest.head (by decide))

theorem stands_quoted (s : String) : (quoted s).Stands := by
  have htext : (quoted s).text.toList = '"' :: (escape s.toList ++ ['"']) := by simp [quoted]
  refine ⟨⟨_, _, htext, by decide⟩, fun rest hrest => ?_⟩
  have hcut := cutString_escape s.toList rest
  rw [htext, List.cons_append, List.append_assoc, cutToken, if_neg (by decide), if_pos (.inl rfl)]
  rw [List.singleton_append, hcut, Option.map_some, quoted, List.cons_append]

/-- The texts of operators and brackets. -/
def signTexts : List String :=
  ["(", ")", "[", "]", ".", "!", "-", "+", "*", "/", "%", "<", ">", "<=", ">=", "==", "!=", "&&",
    "||"]

theorem stands_sign {s : String} (h : s ∈ signTexts) : (sign s).Stands := by
  have hcut (rest : List Char) (hrest : rest = [] ∨ ∃ more, rest = ' ' :: more) :
      cutToken (s.toList ++ rest) = some (sign s, rest) := by
    simp only [signTexts, List.mem_cons, List.not_mem_nil, or_false] at h
    -- with a blank or nothing behind it, no sign is the beginning of a longer one
    rcases hrest with rfl | ⟨more, rfl⟩ <;>
      rcases h with rfl | rfl | rfl | rfl | rfl | rfl | rfl | rfl | rfl | rfl | rfl | rfl | rfl |
        rfl | rfl | rfl | rfl | rfl | rfl <;> rfl
  refine ⟨?_, fun rest hrest => hcut rest ?_⟩
  · have hstart : ∀ s ∈ signTexts, s.toList.head?.any (!isBlank ·) = true := by decide
    obtain ⟨c, hc, hblank⟩ := (Option.any_eq_true _ _).1 (hstart s h)
    obtain ⟨cs, hcs⟩ := List.head?_eq_some_iff.1 hc
    exact ⟨c, cs, hcs, by simpa using hblank⟩
  · cases rest with
    | nil => exact .inl rfl
    | cons c more => exact .inr ⟨more, by rw [hrest c rfl]⟩

theorem Binary.text_mem (o : Binary) : o.text ∈ signTexts := by
  rcases o with op | op | _ | _
  · cases op <;> decide
  · cases op <;> decide
  · decide
  · decide

theorem Constant.isName (c : Constant) :
    IsName c.text.toList ∧ operatorWord? c.text = none := by
  have hname (c : Char) (cs : List Char) (h : isNameStart c && cs.all isNameRest) :
      IsName (c :: cs) := by
    rw [Bool.and_eq_true, List.all_eq_true] at h
    exact ⟨c, cs, rfl, h⟩
  cases c <;> exact ⟨hname _ _ (by decide), by decide⟩

theorem Property.stands (p : Property) : p.token.Stands := by
  cases p with
  | name n => exact IsName.stands n.isName n.notOperator
  | number w => exact w.stands

theorem fit_stands {place level : Level} {ts : List Token} (h : ∀ token ∈ ts, token.Stands) :
    ∀ token ∈ fit place level ts, token.Stands := by
  unfold fit
  split
  · exact h
  · simp only [List.cons_append, List.forall_mem_cons, List.forall_mem_append]
    exact ⟨stands_sign (by decide), h, stands_sign (by decide), List.forall_mem_nil _⟩

theorem stands_of_mem_tokens (t : Tree) : ∀ token ∈ t.tokens, token.Stands := by
  induction t with
  | number w => exact List.forall_mem_singleton.2 w.stands
  | text s => exact List.forall_mem_singleton.2 (stands_quoted s)
  | constant c => exact List.forall_mem_singleton.2 (c.isName.1.stands c.isName.2)
  | var x => exact List.forall_mem_singleton.2 (x.isName.stands x.notOperator)
  | member base p ih =>
    simp only [Tree.tokens, List.forall_mem_append, List.forall_mem_cons]
    exact ⟨fit_stands ih, stands_sign (by decide), p.stands, List.forall_mem_nil _⟩
  | index base place ihb ihp =>
    simp only [Tree.tokens, List.forall_mem_append, List.forall_mem_cons]
    exact ⟨⟨fit_stands ihb, stands_sign (by decide), ihp⟩, stands_sign (by decide),
      List.forall_mem_nil _⟩
  | negate operand ih => exact List.forall_mem_cons.2 ⟨stands_sign (by decide), fit_stands ih⟩
  | not operand ih => exact List.forall_mem_cons.2 ⟨stands_sign (by decide), fit_stands ih⟩
  | binary o left right ihl ihr =>
    simp only [Tree.tokens, List.forall_mem_append, List.forall_mem_cons]
    exact ⟨fit_stands ihl, stands_sign o.text_mem, fit_stands ihr⟩

/-- A text is read as these tokens, whatever source is told of it. -/
def Lexes (source : String) (cs : List Char) (ts : List Token) : Prop :=
  ∀ fuel, cs.length ≤ fuel → tokensFrom source fuel cs = .ok ts

theorem lexes_nil (source : String) : Lexes source [] [] := by
  intro fuel _
  cases fuel <;> rfl

/-- One token, and then the rest. -/
theorem Lexes.cons {source : String} {token : Token} {ts : List Token} {c : Char}
    (hcut : Expr.cutToken (c :: cs ++ rest) = some (token, rest)) (hblank : isBlank c = false)
    (hrest : Lexes source rest ts) : Lexes source (c :: cs ++ rest) (token :: ts) := by
  intro fuel hfuel
  rw [List.cons_append] at hcut hfuel ⊢
  obtain ⟨fuel, rfl⟩ := Nat.exists_eq_add_one.2 (Nat.zero_lt_of_lt hfuel)
  simp only [List.length_cons, List.length_append] at hfuel
  rw [tokensFrom, if_neg (by simp [hblank]), hcut]
  simp only [hrest fuel (by omega), bind, Except.bind, pure, Except.pure]

theorem Lexes.blank {source : String} {ts : List Token} (h : Lexes source cs ts) :
    Lexes source (' ' :: cs) ts := by
  intro fuel hfuel
  obtain ⟨fuel, rfl⟩ := Nat.exists_eq_add_one.2 (Nat.zero_lt_of_lt hfuel)
  rw [tokensFrom, if_pos (by decide)]
  exact h fuel (Nat.le_of_succ_le_succ hfuel)

/-- Tokens written with a blank between them are read again. -/
theorem lexes_intercalate (source : String) {ts : List Token} (h : ∀ token ∈ ts, token.Stands) :
    Lexes source ([' '].intercalate (ts.map (·.text.toList))) ts := by
  induction ts with
  | nil => exact lexes_nil source
  | cons token ts ih =>
    rw [List.forall_mem_cons] at h
    obtain ⟨⟨c, cs, hstart, hblank⟩, hcut⟩ := h.1
    have hread := ih h.2
    cases ts with
    | nil =>
      have hcut := hcut [] (fun _ hc => nomatch hc)
      rw [hstart] at hcut
      simpa [hstart] using Lexes.cons hcut hblank (lexes_nil source)
    | cons next more =>
      have hcut := hcut (' ' :: [' '].intercalate ((next :: more).map (·.text.toList)))
        fun d hd => (Option.some.inj hd).symm
      rw [hstart] at hcut
      simpa [hstart, List.intercalate_cons_cons] using Lexes.cons hcut hblank hread.blank

theorem tokens_written (t : Tree) : Expr.tokens t.written = .ok t.tokens := by
  have hchars : t.written.toList = [' '].intercalate (t.tokens.map (·.text.toList)) := by
    simp [Tree.written, Function.comp_def]
  rw [Expr.tokens, ← String.length_toList, hchars]
  exact lexes_intercalate _ (stands_of_mem_tokens t) _ (Nat.le_refl _)

end Writing

end BulletScript.Expr
