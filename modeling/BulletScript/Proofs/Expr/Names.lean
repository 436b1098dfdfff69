import BulletScript.Proofs.Expr.Levels

/-! The names that an expression reads, and that its value depends on nothing else. -/
namespace BulletScript.Expr

/-- The names that an expression looks up, from left to right. -/
def names : Expr → List String
  | .number _ | .string _ | .fault _ => []
  | .name text => [text]
  | .group e | .member e _ | .negate e | .not e | .faultAfter e _ => e.names
  | .index l r | .arith _ l r | .compare _ l r | .both l r | .either l r => l.names ++ r.names

/-- The identifiers among tokens. -/
def identifiersOf (ts : List Token) : List String :=
  (ts.filter (·.kind == .name)).map (·.text)

/-- The identifiers of a text. One that has no tokens is not evaluated. -/
def identifiers (source : String) : List String :=
  match tokens source with
  | .ok ts => identifiersOf ts
  | .error _ => []

section Reader

variable {source : String} {fuel : Nat} {known : List String} {ts rest : List Token} {e : Expr}
  {level : Level} {p : Part}

theorem identifiersOf_cons (token : Token) (rest : List Token) :
    identifiersOf (token :: rest) =
      (if token.kind = .name then [token.text] else []) ++ identifiersOf rest := by
  by_cases h : token.kind = .name <;> simp [identifiersOf, h]

@[simp] theorem identifiersOf_sign (s : String) (rest : List Token) :
    identifiersOf (sign s :: rest) = identifiersOf rest := by
  simp [identifiersOf_cons, sign]

@[simp] theorem names_expr (o : Binary) (l r : Expr) : (o.expr l r).names = l.names ++ r.names := by
  cases o <;> rfl

/-- A part that brings in no name but known ones, neither read nor left to read. -/
def Part.Within (known : List String) : Part → Prop
  | .whole e rest => e.names ⊆ known ∧ identifiersOf rest ⊆ known
  | .broken e => e.names ⊆ known

namespace Part.Within

theorem bind {next : Expr → List Token → Part} (hp : p.Within known)
    (hnext : ∀ e rest, e.names ⊆ known → identifiersOf rest ⊆ known →
      (next e rest).Within known) : (p.bind next).Within known := by
  cases p with
  | broken e => exact hp
  | whole e rest => exact hnext e rest hp.1 hp.2

theorem map {f : Expr → Expr} (hp : p.Within known)
    (hf : ∀ e, e.names ⊆ known → (f e).names ⊆ known) : (p.map f).Within known := by
  cases p with
  | broken e => exact hf e hp
  | whole e rest => exact ⟨hf e hp.1, hp.2⟩

theorem closed {op : String} {wrap : Expr → Expr} {next : Expr → List Token → Part}
    (hp : p.Within known) (hwrap : ∀ e, e.names ⊆ known → (wrap e).names ⊆ known)
    (hnext : ∀ e rest, e.names ⊆ known → identifiersOf rest ⊆ known →
      (next e rest).Within known) : (closed source op p wrap next).Within known := by
  cases p with
  | broken e => exact hwrap e hp
  | whole e rest =>
    unfold Expr.closed
    dsimp only
    split
    · next rest' hafter =>
      obtain rfl := afterOp?_eq_some.1 hafter
      exact hnext _ rest' (hwrap e hp.1) (by simpa using hp.2)
    · exact hwrap _ hp.1

end Part.Within

/-- The readers of all levels with some fuel bring in no new names. -/
def ReadsWithin (source : String) (known : List String) (fuel : Nat) : Prop :=
  ∀ level ts, identifiersOf ts ⊆ known → (readAt source level fuel ts).Within known

/-- Nor do the tails, behind a part without new names. -/
def TailsWithin (source : String) (known : List String) (fuel : Nat) : Prop :=
  ∀ level e rest, level.chains = true ∨ level = .access → e.names ⊆ known →
    identifiersOf rest ⊆ known → (tailAt source level fuel e rest).Within known

/-- An operator with the part to its right. -/
theorem operator_within (hreads : ReadsWithin source known fuel) (o : Binary)
    (he : e.names ⊆ known) (hrest : identifiersOf rest ⊆ known) :
    ((readAt source level fuel rest).map (o.expr e)).Within known :=
  (hreads level rest hrest).map fun right hright => by simp [he, hright]

theorem comparison_within (hreads : ReadsWithin source known fuel) (he : e.names ⊆ known)
    (hrest : identifiersOf rest ⊆ known) :
    (tailAt source .comparison fuel e rest).Within known := by
  rw [tailAt_comparison]
  cases hop : opAt? .comparison rest with
  | none => exact ⟨he, hrest⟩
  | some found =>
    obtain ⟨o, more⟩ := found
    obtain ⟨rfl, -⟩ := opAt?_eq_some.1 hop
    exact operator_within hreads o he (by simpa using hrest)

theorem chain_within (hreads : ReadsWithin source known fuel) (htails : TailsWithin source known fuel)
    (hchains : level.chains = true) (he : e.names ⊆ known) (hrest : identifiersOf rest ⊆ known) :
    (tailAt source level (fuel + 1) e rest).Within known := by
  rw [tailAt_succ hchains]
  cases hop : opAt? level rest with
  | none => exact ⟨he, hrest⟩
  | some found =>
    obtain ⟨o, more⟩ := found
    obtain ⟨rfl, -⟩ := opAt?_eq_some.1 hop
    refine (operator_within hreads o he (by simpa using hrest)).bind fun e' rest' he' hrest' => ?_
    exact htails level e' rest' (.inl hchains) he' hrest'

theorem access_within (hreads : ReadsWithin source known fuel)
    (htails : TailsWithin source known fuel) (he : e.names ⊆ known)
    (hrest : identifiersOf rest ⊆ known) :
    (tailAt source .access (fuel + 1) e rest).Within known := by
  change (readAccess source (fuel + 1) e rest).Within known
  unfold readAccess
  split
  · next after hdot =>
    obtain rfl := afterOp?_eq_some.1 hdot
    rw [identifiersOf_sign] at hrest
    split
    · next token more =>
      split
      · rw [identifiersOf_cons] at hrest
        exact htails .access _ more (.inr rfl) he (List.append_subset.1 hrest).2
      · exact he
    · exact he
  · split
    · next after hbracket =>
      obtain rfl := afterOp?_eq_some.1 hbracket
      refine (hreads .either after (by simpa using hrest)).closed
        (fun i hi => List.append_subset.2 ⟨he, hi⟩) fun e' rest' he' hrest' => ?_
      exact htails .access e' rest' (.inr rfl) he' hrest'
    · exact ⟨he, hrest⟩

theorem primary_within (hreads : ReadsWithin source known fuel) (hts : identifiersOf ts ⊆ known) :
    (readPrimary source (fuel + 1) ts).Within known := by
  unfold readPrimary
  split
  · exact List.nil_subset _
  · next token rest =>
    rw [identifiersOf_cons] at hts
    obtain ⟨hhead, hrest⟩ := List.append_subset.1 hts
    obtain ⟨kind, s⟩ := token
    cases kind with
    | number => exact ⟨List.nil_subset _, hrest⟩
    | string => exact ⟨List.nil_subset _, hrest⟩
    | name => exact ⟨by simpa [names] using hhead, hrest⟩
    | op =>
      dsimp only
      split
      · exact (hreads .either rest hrest).closed (fun _ h => h) fun _ _ he hmore => ⟨he, hmore⟩
      · exact List.nil_subset _

theorem reads_within (hreads : ReadsWithin source known fuel)
    (htails : TailsWithin source known fuel) : ReadsWithin source known (fuel + 1) := by
  intro level ts hts
  have hnext := hreads level.next ts hts
  by_cases hchains : level.chains = true
  · rw [readAt_succ (.inl hchains)]
    exact hnext.bind fun e rest he hrest => htails level e rest (.inl hchains) he hrest
  cases level with
  | negation =>
    rw [readNot_succ]
    split
    · next rest hnot =>
      obtain rfl := afterOp?_eq_some.1 hnot
      exact (hreads .negation rest (by simpa using hts)).map fun _ h => h
    · exact hnext
  | comparison =>
    rw [readAt_succ (.inr rfl)]
    exact hnext.bind fun e rest he hrest => comparison_within hreads he hrest
  | unary =>
    rw [readUnary_succ]
    split
    · next rest hminus =>
      obtain rfl := afterOp?_eq_some.1 hminus
      exact (hreads .unary rest (by simpa using hts)).map fun _ h => h
    · exact hnext
  | access =>
    exact (primary_within hreads hts).bind fun e rest he hrest =>
      access_within hreads htails he hrest
  | either | both | sum | product => exact absurd rfl hchains

theorem tails_within (hreads : ReadsWithin source known fuel)
    (htails : TailsWithin source known fuel) : TailsWithin source known (fuel + 1) := by
  intro level e rest hlevel he hrest
  rcases hlevel with hchains | rfl
  · exact chain_within hreads htails hchains he hrest
  · exact access_within hreads htails he hrest

-- Like their soundness, this is proved of readers and tails at once, by induction on the fuel.
theorem within (source : String) (known : List String) (fuel : Nat) :
    ReadsWithin source known fuel ∧ TailsWithin source known fuel := by
  induction fuel with
  | zero =>
    constructor
    · intro level ts _
      cases level <;> exact List.nil_subset _
    · intro level e rest hlevel _ _
      rcases hlevel with hchains | rfl
      · cases level <;> first | exact List.nil_subset _ | cases hchains
      · exact List.nil_subset _
  | succ fuel ih => exact ⟨reads_within ih.1 ih.2, tails_within ih.1 ih.2⟩

/-- An expression looks up identifiers of its text only. -/
theorem names_ofTokens (source : String) (ts : List Token) :
    (ofTokens source ts).names ⊆ identifiersOf ts := by
  have h := (within source (identifiersOf ts) (12 * ts.length + 12)).1 .either ts
    (List.Subset.refl _)
  change (readOr source (12 * ts.length + 12) ts).Within _ at h
  unfold ofTokens
  split
  · next hread =>
    rw [hread] at h
    exact h
  · next hread =>
    rw [hread] at h
    exact h.1
  · next hread =>
    rw [hread] at h
    exact h.1

end Reader

section Congruence

variable {source : String} {vars other : Record} {e : Expr}

/-- Variables that agree on the names of an expression give it the same value or failure. -/
theorem eval_congr (h : ∀ name ∈ e.names, vars.get? (.str name) = other.get? (.str name)) :
    eval source vars e = eval source other e := by
  induction e with
  | number _ | string _ | fault _ => rfl
  | name text => simp only [eval, h text (List.mem_singleton_self text)]
  | group _ ih | member _ _ ih | negate _ ih | not _ ih | faultAfter _ _ ih => simp only [eval, ih h]
  | index _ _ ihl ihr | arith _ _ _ ihl ihr | compare _ _ _ ihl ihr | both _ _ ihl ihr
  | either _ _ ihl ihr =>
    simp only [names, List.forall_mem_append] at h
    simp only [eval, ihl h.1, ihr h.2]

/-- The same for an expression text and its identifiers. -/
theorem evaluate_congr
    (h : ∀ name ∈ identifiers source, vars.get? (.str name) = other.get? (.str name)) :
    evaluate source vars = evaluate source other := by
  unfold evaluate
  cases htokens : tokens source with
  | error failure => rfl
  | ok ts =>
    have heval : eval source vars (ofTokens source ts) = eval source other (ofTokens source ts) :=
      eval_congr fun name hname => h name (by
        simpa [identifiers, htokens] using names_ofTokens source ts hname)
    simp only [bind, Except.bind, heval]

end Congruence

end BulletScript.Expr
