import BulletScript.Proofs.Expr.Levels
import BulletScript.Proofs.Expr.Spelling

/-! What is read whole is a sentence, and the expression that is read means its tree. What is not
has no value. -/
namespace BulletScript.Expr

/-- An expression and the tree that it is, parentheses aside. -/
inductive Means : Expr → Tree → Prop
  | number {s : String} (w : NumberWord) : s = w.text → Means (.number s) (.number w)
  | text (s : String) : Means (.string s) (.text (stringValue s))
  | constant {s : String} (c : Constant) : s = c.text → Means (.name s) (.constant c)
  | var {s : String} (x : Variable) : s = x.text → Means (.name s) (.var x)
  | group {e : Expr} {t : Tree} : Means e t → Means (.group e) t
  | member {e : Expr} {t : Tree} {s : String} (p : Property) : s = p.text → Means e t →
      Means (.member e s) (.member t p)
  | index {e i : Expr} {t place : Tree} : Means e t → Means i place →
      Means (.index e i) (.index t place)
  | negate {e : Expr} {t : Tree} : Means e t → Means (.negate e) (.negate t)
  | not {e : Expr} {t : Tree} : Means e t → Means (.not e) (.not t)
  | arith {l r : Expr} {tl tr : Tree} (op : ArithOp) : Means l tl → Means r tr →
      Means (.arith op l r) (.binary (.arith op) tl tr)
  | compare {l r : Expr} {tl tr : Tree} (op : CompareOp) : Means l tl → Means r tr →
      Means (.compare op l r) (.binary (.compare op) tl tr)
  | both {l r : Expr} {tl tr : Tree} : Means l tl → Means r tr →
      Means (.both l r) (.binary .both tl tr)
  | either {l r : Expr} {tl tr : Tree} : Means l tl → Means r tr →
      Means (.either l r) (.binary .either tl tr)

theorem Means.binary {l r : Expr} {tl tr : Tree} (o : Binary) (hl : Means l tl) (hr : Means r tr) :
    Means (o.expr l r) (.binary o tl tr) := by
  cases o with
  | arith op => exact .arith op hl hr
  | compare op => exact .compare op hl hr
  | both => exact .both hl hr
  | either => exact .either hl hr

/-- An expression without a value, whatever the variables. -/
def Faulty (e : Expr) : Prop :=
  ∀ source vars, ∃ failure, eval source vars e = .error failure

namespace Faulty

variable {e : Expr}

theorem fault (f : PatternFault) : Faulty (.fault f) := fun _ _ => ⟨_, rfl⟩

theorem faultAfter (e : Expr) (f : PatternFault) : Faulty (.faultAfter e f) := by
  intro source vars
  cases h : eval source vars e with
  | error failure => exact ⟨failure, by simp [eval, h, bind, Except.bind]⟩
  | ok v => exact ⟨.pattern f, by simp [eval, h, bind, Except.bind]⟩

/-- Around an expression without a value there is none where it is what is evaluated first. -/
theorem around {f : Expr → Expr} (h : Faulty e) (hf : ∀ source vars failure,
    eval source vars e = .error failure → eval source vars (f e) = .error failure) :
    Faulty (f e) := by
  intro source vars
  obtain ⟨failure, he⟩ := h source vars
  exact ⟨failure, hf source vars failure he⟩

theorem group (h : Faulty e) : Faulty (.group e) :=
  h.around fun _ _ _ he => by simp [eval, he, bind, Except.bind]

theorem negate (h : Faulty e) : Faulty (.negate e) :=
  h.around fun _ _ _ he => by simp [eval, he, bind, Except.bind]

theorem not (h : Faulty e) : Faulty (.not e) :=
  h.around fun _ _ _ he => by simp [eval, he, bind, Except.bind]

theorem index (base : Expr) (h : Faulty e) : Faulty (.index base e) := by
  intro source vars
  obtain ⟨failure, h⟩ := h source vars
  cases hbase : eval source vars base with
  | error failure => exact ⟨failure, by simp [eval, hbase, bind, Except.bind]⟩
  | ok v => exact ⟨failure, by simp [eval, hbase, h, bind, Except.bind]⟩

theorem binary (o : Binary) (left : Expr) (h : Faulty e) : Faulty (o.expr left e) := by
  intro source vars
  obtain ⟨failure, h⟩ := h source vars
  cases hleft : eval source vars left with
  | error failure =>
    exact ⟨failure, by cases o <;> simp [Binary.expr, eval, hleft, bind, Except.bind]⟩
  | ok v => exact ⟨failure, by cases o <;> simp [Binary.expr, eval, hleft, h, bind, Except.bind]⟩

end Faulty

/-- A part of some tokens at a level: whole, it is a sentence of the tokens that it took and means
its tree; broken, it has no value. -/
def Part.Sound (level : Level) (all : List Token) : Part → Prop
  | .whole e rest => ∃ used t, all = used ++ rest ∧ Derives level used t ∧ Means e t
  | .broken e => Faulty e

namespace Part.Sound

variable {level place : Level} {all back : List Token} {p : Part}

theorem bind {next : Expr → List Token → Part} (hp : p.Sound level all)
    (hnext : ∀ used rest e t, all = used ++ rest → Derives level used t → Means e t →
      (next e rest).Sound place all) : (p.bind next).Sound place all := by
  cases p with
  | broken e => exact hp
  | whole e rest =>
    obtain ⟨used, t, hall, hderives, hmeans⟩ := hp
    exact hnext used rest e t hall hderives hmeans

/-- A part with something in front of it. -/
theorem map {f : Expr → Expr} (front : List Token) (hp : p.Sound level back)
    (hbroken : ∀ e, Faulty e → Faulty (f e))
    (hwhole : ∀ used e t, Derives level used t → Means e t →
      ∃ t', Derives place (front ++ used) t' ∧ Means (f e) t') :
    (p.map f).Sound place (front ++ back) := by
  cases p with
  | broken e => exact hbroken e hp
  | whole e rest =>
    obtain ⟨used, t, rfl, hderives, hmeans⟩ := hp
    obtain ⟨t', hderives', hmeans'⟩ := hwhole used e t hderives hmeans
    exact ⟨front ++ used, t', (List.append_assoc _ _ _).symm, hderives', hmeans'⟩

/-- A part of a level stands at the one before. -/
theorem of_next (hp : p.Sound level.next all) : p.Sound level all := by
  cases p with
  | broken e => exact hp
  | whole e rest =>
    obtain ⟨used, t, hall, hderives, hmeans⟩ := hp
    exact ⟨used, t, hall, .loosen hderives, hmeans⟩

/-- A part with a bracket behind it. -/
theorem closed {source op : String} {wrap : Expr → Expr} {next : Expr → List Token → Part}
    (hp : p.Sound level back) (hbroken : ∀ e, Faulty e → Faulty (wrap e))
    (hnext : ∀ used rest e t, back = used ++ sign op :: rest → Derives level used t → Means e t →
      (next (wrap e) rest).Sound place all) :
    (closed source op p wrap next).Sound place all := by
  cases p with
  | broken e => exact hbroken e hp
  | whole e rest =>
    obtain ⟨used, t, rfl, hderives, hmeans⟩ := hp
    unfold Expr.closed
    dsimp only
    split
    · next rest' hafter =>
      exact hnext used rest' e t (by rw [afterOp?_eq_some.1 hafter]) hderives hmeans
    · exact hbroken _ (.faultAfter _ _)

end Part.Sound

section Words

variable {token : Token} {s : String}

theorem exists_property (hregular : token.Regular)
    (hkind : token.kind = .name ∨ token.kind = .number) :
    ∃ p : Property, p.token = token ∧ p.text = token.text := by
  obtain ⟨kind, text⟩ := token
  rcases hkind with rfl | rfl
  · exact ⟨.name ⟨text, hregular.1, hregular.2⟩, rfl, rfl⟩
  · exact ⟨.number ⟨text, hregular⟩, rfl, rfl⟩

theorem constant?_text (c : Constant) : constant? c.text = some c.value := by
  cases c <;> rfl

theorem exists_constant {v : Value} (h : constant? s = some v) : ∃ c : Constant, s = c.text := by
  by_cases hundefined : s = "undefined"
  · exact ⟨.undefined, hundefined⟩
  · rw [constant?, if_neg hundefined] at h
    unfold literalWord? at h
    split at h
    · next heq => exact ⟨.true, heq⟩
    split at h
    · next heq => exact ⟨.false, heq⟩
    split at h
    · next heq => exact ⟨.null, heq⟩
    · cases h

end Words

section Sound

variable {source : String} {level : Level} {fuel : Nat} {used rest : List Token} {e : Expr}
  {t : Tree}

/-- The readers of all levels with some fuel are sound. -/
def ReadsSound (source : String) (fuel : Nat) : Prop :=
  ∀ level ts, (∀ token ∈ ts, token.Regular) → (readAt source level fuel ts).Sound level ts

/-- The tails of the levels that go on are sound behind the part that they are given. -/
def TailsSound (source : String) (fuel : Nat) : Prop :=
  ∀ level used rest e t, level.chains = true ∨ level = .access →
    (∀ token ∈ used ++ rest, token.Regular) → Derives level used t → Means e t →
    (tailAt source level fuel e rest).Sound level (used ++ rest)

/-- An operator with a part on each side. -/
theorem operator_sound (hreads : ReadsSound source fuel) (o : Binary)
    (hregular : ∀ token ∈ rest, token.Regular) (hderives : Derives o.level.left used t)
    (hmeans : Means e t) : ((readAt source o.level.next fuel rest).map (o.expr e)).Sound o.level
      (used ++ sign o.text :: rest) := by
  rw [List.append_cons]
  refine (hreads o.level.next rest hregular).map (used ++ [sign o.text])
    (fun _ h => .binary o e h) fun right er tr hright hmeansr => ?_
  refine ⟨.binary o t tr, ?_, .binary o hmeans hmeansr⟩
  rw [← List.append_cons]
  exact .binary o hderives hright

theorem comparison_sound (hreads : ReadsSound source fuel)
    (hregular : ∀ token ∈ used ++ rest, token.Regular) (hderives : Derives .sum used t)
    (hmeans : Means e t) :
    (tailAt source .comparison fuel e rest).Sound .comparison (used ++ rest) := by
  rw [tailAt_comparison]
  cases hop : opAt? .comparison rest with
  | none => exact ⟨used, t, rfl, .loosen hderives, hmeans⟩
  | some found =>
    obtain ⟨o, more⟩ := found
    obtain ⟨rfl, hlevel⟩ := opAt?_eq_some.1 hop
    have hmore : ∀ token ∈ more, token.Regular := fun token h => hregular token (by simp [h])
    have h := operator_sound hreads o hmore (by rw [hlevel]; exact hderives) hmeans
    rwa [hlevel] at h

theorem chain_sound (hreads : ReadsSound source fuel) (htails : TailsSound source fuel)
    (hchains : level.chains = true) (hregular : ∀ token ∈ used ++ rest, token.Regular)
    (hderives : Derives level used t) (hmeans : Means e t) :
    (tailAt source level (fuel + 1) e rest).Sound level (used ++ rest) := by
  rw [tailAt_succ hchains]
  cases hop : opAt? level rest with
  | none => exact ⟨used, t, rfl, hderives, hmeans⟩
  | some found =>
    obtain ⟨o, more⟩ := found
    obtain ⟨rfl, rfl⟩ := opAt?_eq_some.1 hop
    have hleft : o.level.left = o.level := by
      rw [Level.left, if_neg]
      intro heq
      simp [heq, Level.chains] at hchains
    have hmore : ∀ token ∈ more, token.Regular := fun token h => hregular token (by simp [h])
    refine (operator_sound hreads o hmore (hleft.symm ▸ hderives) hmeans).bind ?_
    intro used' rest' e' t' hall hderives' hmeans'
    rw [hall] at hregular ⊢
    exact htails o.level used' rest' e' t' (.inl hchains) hregular hderives' hmeans'

theorem access_sound (hreads : ReadsSound source fuel) (htails : TailsSound source fuel)
    (hregular : ∀ token ∈ used ++ rest, token.Regular) (hderives : Derives .access used t)
    (hmeans : Means e t) :
    (tailAt source .access (fuel + 1) e rest).Sound .access (used ++ rest) := by
  change (readAccess source (fuel + 1) e rest).Sound .access (used ++ rest)
  unfold readAccess
  split
  · next after hdot =>
    obtain rfl := afterOp?_eq_some.1 hdot
    split
    · next token more =>
      split
      · next hkind =>
        obtain ⟨p, rfl, hp⟩ := exists_property (hregular token (by simp)) hkind
        have h := htails .access (used ++ [sign ".", p.token]) more (.member e p.token.text) _
          (.inr rfl) (by simpa using hregular) (hderives.member p) (.member p hp.symm hmeans)
        rwa [List.append_assoc] at h
      · exact Faulty.faultAfter _ _
    · exact Faulty.faultAfter _ _
  · next hdot =>
    split
    · next after hbracket =>
      obtain rfl := afterOp?_eq_some.1 hbracket
      have hafter : ∀ token ∈ after, token.Regular := fun token h => hregular token (by simp [h])
      refine (hreads .either after hafter).closed (fun _ h => .index e h) ?_
      rintro places more i place rfl hplaces hmeansi
      have h := htails .access (used ++ sign "[" :: places ++ [sign "]"]) more (.index e i) _
        (.inr rfl) (by simpa using hregular) (hderives.index hplaces) (.index hmeans hmeansi)
      rw [List.append_assoc, List.append_assoc] at h
      exact h
    · exact ⟨used, t, rfl, hderives, hmeans⟩

theorem primary_sound (hreads : ReadsSound source fuel) {ts : List Token}
    (hregular : ∀ token ∈ ts, token.Regular) :
    (readPrimary source (fuel + 1) ts).Sound .access ts := by
  unfold readPrimary
  split
  · exact Faulty.fault _
  · next token rest =>
    rw [List.forall_mem_cons] at hregular
    obtain ⟨kind, s⟩ := token
    cases kind with
    | number => exact ⟨_, _, rfl, .number ⟨s, hregular.1⟩, .number _ rfl⟩
    | string => exact ⟨[_], _, rfl, .text rfl, .text s⟩
    | name =>
      cases hconstant : constant? s with
      | none => exact ⟨_, _, rfl, .var ⟨⟨s, hregular.1.1, hregular.1.2⟩, hconstant⟩, .var _ rfl⟩
      | some v =>
        obtain ⟨c, rfl⟩ := exists_constant hconstant
        exact ⟨_, _, rfl, .constant c, .constant c rfl⟩
    | op =>
      dsimp only
      split
      · next hopen =>
        subst hopen
        refine (hreads .either rest hregular.2).closed (fun _ h => .group h) ?_
        rintro used more e t rfl hderives hmeans
        exact ⟨sign "(" :: used ++ [sign ")"], t, by simp [sign], .parens hderives, .group hmeans⟩
      · exact Faulty.fault _

theorem prefix_sound {s : String} {f : Expr → Expr} {g : Tree → Tree}
    (hreads : ReadsSound source fuel) (hregular : ∀ token ∈ rest, token.Regular)
    (hbroken : ∀ e, Faulty e → Faulty (f e)) (hmeans : ∀ e t, Means e t → Means (f e) (g t))
    (hderives : ∀ ts t, Derives level ts t → Derives level (sign s :: ts) (g t)) :
    ((readAt source level fuel rest).map f).Sound level (sign s :: rest) :=
  (hreads level rest hregular).map [sign s] hbroken fun used e t h hm =>
    ⟨g t, hderives used t h, hmeans e t hm⟩

theorem reads_sound (hreads : ReadsSound source fuel) (htails : TailsSound source fuel) :
    ReadsSound source (fuel + 1) := by
  intro level ts hregular
  have hnext := hreads level.next ts hregular
  by_cases hchains : level.chains = true
  · rw [readAt_succ (.inl hchains)]
    refine hnext.bind ?_
    rintro used rest e t rfl hderives hmeans
    exact htails level used rest e t (.inl hchains) hregular (.loosen hderives) hmeans
  cases level with
  | negation =>
    rw [readNot_succ]
    split
    · next rest hnot =>
      obtain rfl := afterOp?_eq_some.1 hnot
      rw [List.forall_mem_cons] at hregular
      exact prefix_sound hreads hregular.2 (fun _ => .not) (fun _ _ => .not) fun _ _ => .not
    · exact hnext.of_next
  | comparison =>
    rw [readAt_succ (.inr rfl)]
    refine hnext.bind ?_
    rintro used rest e t rfl hderives hmeans
    exact comparison_sound hreads hregular hderives hmeans
  | unary =>
    rw [readUnary_succ]
    split
    · next rest hminus =>
      obtain rfl := afterOp?_eq_some.1 hminus
      rw [List.forall_mem_cons] at hregular
      exact prefix_sound hreads hregular.2 (fun _ => .negate) (fun _ _ => .negate)
        fun _ _ => .negate
    · exact hnext.of_next
  | access =>
    refine (primary_sound hreads hregular).bind ?_
    rintro used rest e t rfl hderives hmeans
    exact access_sound hreads htails hregular hderives hmeans
  | either | both | sum | product => exact absurd rfl hchains

theorem tails_sound (hreads : ReadsSound source fuel) (htails : TailsSound source fuel) :
    TailsSound source (fuel + 1) := by
  intro level used rest e t hlevel hregular hderives hmeans
  rcases hlevel with hchains | rfl
  · exact chain_sound hreads htails hchains hregular hderives hmeans
  · exact access_sound hreads htails hregular hderives hmeans

-- Readers and tails call each other, each time with less fuel, so both are sound at once.
theorem sound (source : String) (fuel : Nat) : ReadsSound source fuel ∧ TailsSound source fuel := by
  induction fuel with
  | zero =>
    constructor
    · intro level ts _
      cases level <;> exact Faulty.fault _
    · intro level used rest e t hlevel _ _ _
      rcases hlevel with hchains | rfl
      · cases level <;> first | exact Faulty.fault _ | cases hchains
      · exact Faulty.fault _
  | succ fuel ih => exact ⟨reads_sound ih.1 ih.2, tails_sound ih.1 ih.2⟩

/-- Tokens whose expression has a value are a sentence, and the expression means its tree. -/
theorem exists_tree {ts : List Token} (hregular : ∀ token ∈ ts, token.Regular)
    (hvalue : ¬Faulty (ofTokens source ts)) :
    ∃ t, Derives .either ts t ∧ Means (ofTokens source ts) t := by
  have h := (sound source (12 * ts.length + 12)).1 .either ts hregular
  unfold ofTokens at hvalue ⊢
  change (readOr source (12 * ts.length + 12) ts).Sound .either ts at h
  split at hvalue
  · next hread =>
    rw [hread] at h
    exact absurd h hvalue
  · next e hread =>
    rw [hread] at h
    obtain ⟨used, t, hall, hderives, hmeans⟩ := h
    rw [List.append_nil] at hall
    subst hall
    exact ⟨t, hderives, hmeans⟩
  · exact absurd (Faulty.faultAfter _ _) hvalue

end Sound

end BulletScript.Expr
