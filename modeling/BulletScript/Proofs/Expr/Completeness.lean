import BulletScript.Proofs.Expr.Reading

/-! Every sentence is read whole: the reader has fuel enough for it, and stops where it ends. -/
namespace BulletScript.Expr

variable {source : String} {level place : Level} {fuel : Nat} {ts rest : List Token} {t : Tree}

section Ends

/-- Tokens that do not begin with what goes on at a level or a tighter one. -/
structure Ends (level : Level) (rest : List Token) : Prop where
  operators : ∀ other, level.rank ≤ other.rank → opAt? other rest = none
  member : afterOp? "." rest = none
  index : afterOp? "[" rest = none

theorem Ends.mono (h : Ends level rest) (hle : level.rank ≤ place.rank) : Ends place rest :=
  ⟨fun other hother => h.operators other (hle.trans hother), h.member, h.index⟩

theorem ends_nil (level : Level) : Ends level [] :=
  ⟨fun other _ => by cases other <;> rfl, rfl, rfl⟩

theorem ends_sign {s : String} (hoperator : ∀ o : Binary, level.rank ≤ o.level.rank → o.text ≠ s)
    (hmember : s ≠ ".") (hindex : s ≠ "[") (rest : List Token) : Ends level (sign s :: rest) := by
  have hsign {s' : String} {rest' : List Token} (h : sign s :: rest = sign s' :: rest') :
      s = s' := by
    rw [List.cons.injEq, sign, sign, Token.mk.injEq] at h
    exact h.1.2
  refine ⟨fun other hle => ?_, ?_, ?_⟩
  · rw [Option.eq_none_iff_forall_not_mem]
    rintro ⟨o, rest'⟩ hop
    obtain ⟨heq, rfl⟩ := opAt?_eq_some.1 hop
    exact hoperator o hle (hsign heq).symm
  · rw [Option.eq_none_iff_forall_not_mem]
    exact fun rest' h => hmember (hsign (afterOp?_eq_some.1 h))
  · rw [Option.eq_none_iff_forall_not_mem]
    exact fun rest' h => hindex (hsign (afterOp?_eq_some.1 h))

theorem Binary.text_ne {s : String} (hs : s ∈ ["(", ")", "[", "]", ".", "!"]) (o : Binary) :
    o.text ≠ s := by
  have hall : ∀ s ∈ ["(", ")", "[", "]", ".", "!"], o.text ≠ s := by
    rcases o with op | op | _ | _
    · cases op <;> decide
    · cases op <;> decide
    · decide
    · decide
  exact hall s hs

theorem Binary.text_injective {o o' : Binary} (h : o.text = o'.text) : o = o' := by
  let table : List (String × Binary) :=
    ("||", .either) :: ("&&", .both) :: compareOps.map (fun p => (p.1, .compare p.2)) ++
      (sumOps ++ productOps).map (fun p => (p.1, .arith p.2))
  have hfound (o : Binary) : table.lookup o.text = some o := by
    rcases o with op | op | _ | _
    · cases op <;> rfl
    · cases op <;> rfl
    · rfl
    · rfl
  rw [← Option.some.injEq, ← hfound o, ← hfound o', h]

theorem ends_bracket (level : Level) {s : String} (hs : s ∈ [")", "]"]) (rest : List Token) :
    Ends level (sign s :: rest) := by
  simp only [List.mem_cons, List.not_mem_nil, or_false] at hs
  refine ends_sign (fun o _ => o.text_ne ?_) ?_ ?_ rest <;> rcases hs with rfl | rfl <;> decide

theorem ends_operator (o : Binary) (h : o.level.rank < level.rank) (rest : List Token) :
    Ends level (sign o.text :: rest) := by
  refine ends_sign (fun o' hle heq => ?_) (o.text_ne (by decide)) (o.text_ne (by decide)) rest
  rw [Binary.text_injective heq] at hle
  omega

/-- Where a level ends, its tail reads nothing more. -/
theorem Ends.tail (h : Ends level rest) (hfuel : 0 < fuel) (e : Expr) :
    tailAt source level fuel e rest = .whole e rest := by
  obtain ⟨fuel, rfl⟩ := Nat.exists_eq_add_of_lt hfuel
  have hop := h.operators level (Nat.le_refl _)
  by_cases hchains : level.chains = true
  · rw [Nat.zero_add, tailAt_succ hchains, hop]
  cases level with
  | negation | unary => rfl
  | comparison => rw [tailAt_comparison, hop]
  | access =>
    change readAccess source (0 + fuel + 1) e rest = _
    rw [readAccess, h.member, h.index]
  | either | both | sum | product => exact absurd rfl hchains

end Ends

/-- The prefixes stand at the head of their levels only. -/
theorem Derives.head (h : Derives level ts t) : ∃ token more, ts = token :: more ∧
    (token = sign "!" → level.rank ≤ 2) ∧ (token = sign "-" → level.rank ≤ 6) := by
  induction h with
  | number w => exact ⟨_, _, rfl, nofun, nofun⟩
  | text hkind =>
    refine ⟨_, _, rfl, ?_, ?_⟩ <;> rintro rfl <;> cases hkind
  | constant c => exact ⟨_, _, rfl, nofun, nofun⟩
  | var x => exact ⟨_, _, rfl, nofun, nofun⟩
  | parens => exact ⟨_, _, rfl, by decide, by decide⟩
  | member p _ ih =>
    obtain ⟨token, more, rfl, hhead⟩ := ih
    exact ⟨token, _, rfl, hhead⟩
  | @index _ places _ _ _ _ ih _ =>
    obtain ⟨token, more, rfl, hhead⟩ := ih
    exact ⟨token, more ++ sign "[" :: places ++ [sign "]"], by simp, hhead⟩
  | negate => exact ⟨_, _, rfl, by decide, by decide⟩
  | not => exact ⟨_, _, rfl, by decide, by decide⟩
  | binary o _ _ ih =>
    obtain ⟨token, more, rfl, hnot, hminus⟩ := ih
    have hleft : o.level.rank ≤ o.level.left.rank := by cases o.level <;> decide
    exact ⟨token, _, rfl, fun h => hleft.trans (hnot h), fun h => hleft.trans (hminus h)⟩
  | @loosen level _ _ _ ih =>
    obtain ⟨token, more, rfl, hnot, hminus⟩ := ih
    have hnext : level.rank ≤ level.next.rank := by cases level <;> decide
    exact ⟨token, _, rfl, fun h => hnext.trans (hnot h), fun h => hnext.trans (hminus h)⟩

theorem Derives.afterOp?_eq_none {s : String} (h : Derives level ts t)
    (hs : s = "!" ∧ 2 < level.rank ∨ s = "-" ∧ 6 < level.rank) (rest : List Token) :
    afterOp? s (ts ++ rest) = none := by
  obtain ⟨token, more, rfl, hnot, hminus⟩ := h.head
  rw [Option.eq_none_iff_forall_not_mem]
  intro rest' hafter
  obtain ⟨rfl, -⟩ := List.cons.inj (afterOp?_eq_some.1 hafter)
  rcases hs with ⟨rfl, hrank⟩ | ⟨rfl, hrank⟩
  · exact absurd (hnot rfl) (Nat.not_le.2 hrank)
  · exact absurd (hminus rfl) (Nat.not_le.2 hrank)

section Reads

/-- What may stand behind a part when its level is read: for a level that chains its own operators,
for accesses anything. -/
def MayFollow (level : Level) (rest : List Token) : Prop :=
  if level.chains then Ends level.next rest else level ≠ .access → Ends level rest

theorem Ends.mayFollow (h : Ends level rest) : MayFollow level rest := by
  unfold MayFollow
  split
  · exact h.mono (by cases level <;> decide)
  · exact fun _ => h

/-- With fuel for twelve calls a token, and some for the levels below, a sentence is read up to the
tail of its level. -/
def Reads (source : String) (level : Level) (ts : List Token) (t : Tree) : Prop :=
  ∀ fuel rest, 12 * ts.length + 8 ≤ fuel + level.rank → MayFollow level rest →
    ∃ e fuel', Means e t ∧ fuel ≤ fuel' + ts.length ∧
      readAt source level fuel (ts ++ rest) = tailAt source level fuel' e rest

theorem Reads.whole (h : Reads source level ts t) (fuel : Nat)
    (hfuel : 12 * ts.length + 8 ≤ fuel + level.rank)
    (hends : Ends level rest) :
    ∃ e, Means e t ∧ readAt source level fuel (ts ++ rest) = .whole e rest := by
  obtain ⟨e, fuel', hmeans, hleft, hread⟩ := h fuel rest hfuel hends.mayFollow
  have hrank : level.rank ≤ 7 := by cases level <;> decide
  exact ⟨e, hmeans, hread.trans (hends.tail (by omega) e)⟩

variable {ls rs places : List Token} {l r place' : Tree}

theorem reads_primary {token : Token} {e : Expr} (hmeans : Means e t)
    (hread : ∀ fuel rest, readPrimary source (fuel + 1) (token :: rest) = .whole e rest) :
    Reads source .access [token] t := by
  intro fuel rest hfuel _
  obtain ⟨fuel, rfl⟩ : ∃ n, fuel = n + 1 := ⟨fuel - 1, by simp [Level.rank] at hfuel; omega⟩
  refine ⟨e, fuel + 1, hmeans, Nat.le_add_right _ _, ?_⟩
  change (readPrimary source (fuel + 1) (token :: rest)).bind (readAccess source (fuel + 1)) = _
  rw [hread]
  rfl

theorem reads_parens (h : Reads source .either ts t) :
    Reads source .access (sign "(" :: ts ++ [sign ")"]) t := by
  intro fuel rest hfuel _
  simp only [List.length_append, List.length_cons, List.length_nil, Level.rank] at hfuel ⊢
  obtain ⟨fuel, rfl⟩ : ∃ n, fuel = n + 1 := ⟨fuel - 1, by omega⟩
  obtain ⟨e, hmeans, hread⟩ := h.whole fuel (by simp only [Level.rank]; omega)
    (ends_bracket .either (s := ")") (by simp) rest)
  refine ⟨.group e, fuel + 1, .group hmeans, by omega, ?_⟩
  have hopen : readPrimary source (fuel + 1) (sign "(" :: (ts ++ sign ")" :: rest)) =
      closed source ")" (readOr source fuel (ts ++ sign ")" :: rest)) .group .whole := rfl
  change (readPrimary source (fuel + 1) (sign "(" :: ts ++ [sign ")"] ++ rest)).bind _ = _
  rw [List.append_assoc, List.cons_append, List.singleton_append, hopen,
    show readOr source fuel _ = _ from hread, closed, afterOp?_eq_some.2 rfl]
  rfl

theorem reads_member (h : Reads source .access ts t) (p : Property) :
    Reads source .access (ts ++ [sign ".", p.token]) (.member t p) := by
  intro fuel rest hfuel _
  simp only [List.length_append, List.length_cons, List.length_nil, Level.rank] at hfuel ⊢
  obtain ⟨e, fuel', hmeans, hleft, hread⟩ := h fuel (sign "." :: p.token :: rest)
    (by simp only [Level.rank]; omega) (fun h => absurd rfl h)
  obtain ⟨fuel', rfl⟩ : ∃ n, fuel' = n + 1 := ⟨fuel' - 1, by omega⟩
  refine ⟨.member e p.text, fuel', .member p rfl hmeans, by omega, ?_⟩
  have hkind : p.token.kind = .name ∨ p.token.kind = .number := by
    cases p <;> simp [Property.token, Name.token, NumberWord.token]
  have htext : p.token.text = p.text := by cases p <;> rfl
  rw [List.append_assoc, List.cons_append, List.singleton_append, hread]
  simp only [tailAt]
  rw [readAccess, afterOp?_eq_some.2 rfl]
  dsimp only
  rw [if_pos hkind, htext]

theorem reads_index (h : Reads source .access ts t) (hplaces : Reads source .either places r) :
    Reads source .access (ts ++ sign "[" :: places ++ [sign "]"]) (.index t r) := by
  intro fuel rest hfuel _
  simp only [List.length_append, List.length_cons, List.length_nil, Level.rank] at hfuel ⊢
  obtain ⟨e, fuel', hmeans, hleft, hread⟩ := h fuel (sign "[" :: (places ++ sign "]" :: rest))
    (by simp only [Level.rank]; omega) (fun h => absurd rfl h)
  obtain ⟨fuel', rfl⟩ : ∃ n, fuel' = n + 1 := ⟨fuel' - 1, by omega⟩
  obtain ⟨i, hmeansi, hreadi⟩ := hplaces.whole fuel' (by simp only [Level.rank]; omega)
    (ends_bracket .either (s := "]") (by simp) rest)
  refine ⟨.index e i, fuel', .index hmeans hmeansi, by omega, ?_⟩
  have hdot : afterOp? "." (sign "[" :: (places ++ sign "]" :: rest)) = none := by
    simp [afterOp?, headOp?, sign]
  rw [List.append_assoc, List.append_assoc, List.cons_append, List.singleton_append, hread]
  simp only [tailAt]
  rw [readAccess, hdot, afterOp?_eq_some.2 rfl]
  dsimp only
  rw [show readOr source fuel' _ = _ from hreadi, closed, afterOp?_eq_some.2 rfl]

theorem reads_comparison {o : Binary} (ho : o.level = .comparison) (hl : Reads source .sum ls l)
    (hr : Reads source .sum rs r) :
    Reads source .comparison (ls ++ sign o.text :: rs) (.binary o l r) := by
  intro fuel rest hfuel hfollow
  simp only [List.length_append, List.length_cons, Level.rank] at hfuel ⊢
  -- comparisons do not chain, so both parts end where the level does
  have hends : Ends .comparison rest := hfollow (by decide)
  obtain ⟨fuel, rfl⟩ : ∃ n, fuel = n + 1 := ⟨fuel - 1, by omega⟩
  obtain ⟨el, hmeansl, hreadl⟩ := hl.whole fuel (by simp only [Level.rank]; omega)
    (ends_operator o (by rw [ho]; decide) (rs ++ rest))
  obtain ⟨er, hmeansr, hreadr⟩ := hr.whole fuel (by simp only [Level.rank]; omega)
    (hends.mono (by decide))
  refine ⟨o.expr el er, fuel, .binary o hmeansl hmeansr, by omega, ?_⟩
  rw [List.append_assoc, List.cons_append, readAt_succ (.inr rfl)]
  rw [show readAt source Level.comparison.next fuel _ = _ from hreadl, Part.bind,
    tailAt_comparison, opAt?_eq_some.2 ⟨rfl, ho⟩]
  dsimp only
  rw [hreadr, hends.tail (by omega), Part.map]

theorem reads_chain {o : Binary} (ho : o.level.chains = true) (hl : Reads source o.level ls l)
    (hr : Reads source o.level.next rs r) :
    Reads source o.level (ls ++ sign o.text :: rs) (.binary o l r) := by
  intro fuel rest hfuel hfollow
  simp only [List.length_append, List.length_cons] at hfuel ⊢
  have hnext : o.level.rank < o.level.next.rank := by
    revert ho
    cases o.level <;> decide
  have hends : Ends o.level.next rest := by simpa [MayFollow, ho] using hfollow
  have hbehind : MayFollow o.level (sign o.text :: (rs ++ rest)) := by
    simpa [MayFollow, ho] using ends_operator o hnext (rs ++ rest)
  -- the left part is read up to its tail only, and it is this tail that goes on with the operator
  obtain ⟨el, fuel', hmeansl, hleft, hreadl⟩ := hl fuel _ (by omega) hbehind
  have hrank : o.level.rank ≤ 5 := by
    revert ho
    cases o.level <;> decide
  obtain ⟨fuel', rfl⟩ : ∃ n, fuel' = n + 1 := ⟨fuel' - 1, by omega⟩
  obtain ⟨er, hmeansr, hreadr⟩ := hr.whole fuel' (by omega) hends
  refine ⟨o.expr el er, fuel', .binary o hmeansl hmeansr, by omega, ?_⟩
  rw [List.append_assoc, List.cons_append, hreadl, tailAt_succ ho, opAt?_eq_some.2 ⟨rfl, rfl⟩]
  dsimp only
  rw [hreadr, Part.map, Part.bind]

theorem reads_next (hderives : Derives level.next ts t) (h : Reads source level.next ts t) :
    Reads source level ts t := by
  intro fuel rest hfuel hfollow
  by_cases haccess : level = .access
  · subst haccess
    exact h fuel rest hfuel hfollow
  have hrank : level.next.rank = level.rank + 1 := by
    revert haccess
    cases level <;> decide
  have hends : Ends level.next rest := by
    unfold MayFollow at hfollow
    split at hfollow
    · exact hfollow
    · exact (hfollow haccess).mono (by omega)
  have hlength : 0 < ts.length := List.length_pos_iff.2 hderives.ne_nil
  have hbound : level.rank ≤ 7 := by cases level <;> decide
  obtain ⟨fuel, rfl⟩ : ∃ n, fuel = n + 1 := ⟨fuel - 1, by omega⟩
  obtain ⟨e, hmeans, hread⟩ := h.whole fuel (by omega) hends
  refine ⟨e, fuel, hmeans, by omega, ?_⟩
  by_cases hplain : level.chains = true ∨ level = .comparison
  · rw [readAt_succ hplain, hread, Part.bind]
  cases level with
  | negation =>
    rw [readNot_succ, hderives.afterOp?_eq_none (.inl ⟨rfl, by decide⟩)]
    exact hread
  | unary =>
    rw [readUnary_succ, hderives.afterOp?_eq_none (.inr ⟨rfl, by decide⟩)]
    exact hread
  | access => exact absurd rfl haccess
  | comparison => exact absurd (.inr rfl) hplain
  | either | both | sum | product => exact absurd (.inl rfl) hplain

theorem reads_prefix {s : String} {f : Expr → Expr} {g : Tree → Tree}
    (hlevel : level.chains = false) (haccess : level ≠ .access)
    (htail : ∀ fuel e rest, tailAt source level fuel e rest = .whole e rest)
    (hread : ∀ fuel rest, readAt source level (fuel + 1) (sign s :: rest) =
      (readAt source level fuel rest).map f)
    (hmeans : ∀ e t, Means e t → Means (f e) (g t)) (h : Reads source level ts t) :
    Reads source level (sign s :: ts) (g t) := by
  intro fuel rest hfuel hfollow
  have hends : Ends level rest := by
    rw [MayFollow, hlevel] at hfollow
    exact hfollow haccess
  have hbound : level.rank ≤ 7 := by cases level <;> decide
  simp only [List.length_cons] at hfuel ⊢
  obtain ⟨fuel, rfl⟩ : ∃ n, fuel = n + 1 := ⟨fuel - 1, by omega⟩
  obtain ⟨e, hm, hpart⟩ := h.whole fuel (by omega) hends
  refine ⟨f e, fuel, hmeans e t hm, by omega, ?_⟩
  rw [List.cons_append, hread, hpart, htail, Part.map]

theorem Derives.reads (h : Derives level ts t) : Reads source level ts t := by
  induction h with
  | number w => exact reads_primary (.number w rfl) fun _ _ => rfl
  | @text token hkind =>
    refine reads_primary (.text token.text) fun fuel rest => ?_
    rw [readPrimary]
    simp only [hkind]
  | constant c => exact reads_primary (.constant c rfl) fun _ _ => rfl
  | var x => exact reads_primary (.var x rfl) fun _ _ => rfl
  | parens _ ih => exact reads_parens ih
  | member p _ ih => exact reads_member ih p
  | index _ _ ihb ihp => exact reads_index ihb ihp
  | negate _ ih =>
    refine reads_prefix rfl (by decide) (fun _ _ _ => rfl) (fun fuel rest => ?_)
      (fun _ _ => .negate) ih
    rw [readUnary_succ, afterOp?_eq_some.2 rfl]
  | not _ ih =>
    refine reads_prefix rfl (by decide) (fun _ _ _ => rfl) (fun fuel rest => ?_)
      (fun _ _ => .not) ih
    rw [readNot_succ, afterOp?_eq_some.2 rfl]
  | binary o _ _ ihl ihr =>
    by_cases ho : o.level = .comparison
    · rw [ho] at ihl ihr ⊢
      exact reads_comparison ho ihl ihr
    · have hchains : o.level.chains = true := by
        revert ho
        rcases o with op | op | _ | _
        · cases op <;> decide
        · exact fun ho => absurd rfl ho
        · decide
        · decide
      rw [Level.left, if_neg ho] at ihl
      exact reads_chain hchains ihl ihr
  | loosen hderives ih => exact reads_next hderives ih

/-- The tokens of a sentence are read as its tree. -/
theorem means_ofTokens (h : Derives .either ts t) : Means (ofTokens source ts) t := by
  have hreads : Reads source .either ts t := h.reads
  obtain ⟨e, hmeans, hread⟩ := hreads.whole (12 * ts.length + 12)
    (by simp only [Level.rank]; omega) (ends_nil _)
  rw [List.append_nil] at hread
  have hor : readOr source (12 * ts.length + 12) ts = .whole e [] := hread
  rw [ofTokens, hor]
  exact hmeans

end Reads

end BulletScript.Expr
