import BulletScript.Proofs.Engine.Trail

/-! Where failures go. The innermost action around a failure that has a handler, and is not running
it, answers to the failure; a part of a run is in order if all its failures go there. -/
namespace BulletScript.Engine

open Script

theorem cons_suffix_append {α : Type} {a : α} {l xs ys : List α} :
    a :: l <:+ xs ++ ys ↔ (∃ l', a :: l' <:+ xs ∧ l = l' ++ ys) ∨ a :: l <:+ ys := by
  constructor
  · rintro ⟨before, h⟩
    rcases List.append_eq_append_iff.1 h with ⟨m, rfl, hm⟩ | ⟨m, rfl, hm⟩
    · rcases m with _ | ⟨b, m⟩
      · exact .inr ⟨[], by simpa using hm⟩
      · obtain ⟨rfl, rfl⟩ := List.cons.inj hm
        exact .inl ⟨m, ⟨before, rfl⟩, rfl⟩
    · exact .inr ⟨m, hm.symm⟩
  · rintro (⟨l', ⟨before, rfl⟩, rfl⟩ | h)
    · exact ⟨before, by simp⟩
    · exact List.IsSuffix.trans h (List.suffix_append xs ys)

theorem mem_of_prefix_concat {α : Type} {a : α} {l xs : List α} (h : l ++ [a] <+: xs) : a ∈ xs :=
  h.subset (List.mem_append_right _ (List.mem_singleton_self _))

theorem concat_prefix_append {α : Type} {a : α} {l xs ys : List α} (h : l ++ [a] <+: xs ++ ys) :
    l ++ [a] <+: xs ∨ ∃ l', l = xs ++ l' ∧ l' ++ [a] <+: ys := by
  obtain ⟨after, h⟩ := h
  rw [List.append_assoc, List.singleton_append] at h
  rcases List.append_eq_append_iff.1 h with ⟨m, rfl, hm⟩ | ⟨m, rfl, hm⟩
  · rcases m with _ | ⟨b, m⟩
    · exact .inr ⟨[], by simp, after, by simpa using hm⟩
    · obtain ⟨rfl, rfl⟩ := List.cons.inj hm
      exact .inl ⟨m, by simp⟩
  · exact .inr ⟨m, rfl, after, by simpa using hm.symm⟩

/-- Whether `q` answers to a failure at `p`: it has a handler, and `p` is `q` or lies in it, but not
in that handler. -/
def Catches (root : List Action) (q p : Spot) : Prop :=
  (∃ a, actionAt? root q = some a ∧ a.onError ≠ []) ∧
    (p = q ∨ ∃ turn, turn ≠ .handler ∧ q.Above turn p)

/-- Whether `q` is the innermost action that answers to a failure at `p`. -/
def CatchesFirst (root : List Action) (q p : Spot) : Prop :=
  Catches root q p ∧ ∀ r, Catches root r p → r.depth ≤ q.depth

theorem Catches.covers {root : List Action} {q p : Spot} (h : Catches root q p) : q.Covers p := by
  obtain ⟨_, rfl | ⟨turn, _, h⟩⟩ := h
  · exact .refl _
  · exact .inr ⟨turn, h⟩

/-- What follows the start of the handler at `q`: its actions, then the end of `q` or the failure
of the handler, and nothing more of `q`. -/
structure Rescued (q : Spot) (f : Failure) (s : Scene) (post : List Event) : Prop where
  error : s.context.error = some f
  noted : s.context.vars.get? (.str "error") = some (.map (failureRecord f))
  first : s.context.shouldReturn = false →
    ∃ rest, post = ⟨⟨q.inside .handler, 0⟩, .begins, s⟩ :: rest
  parts : ∃ inner tail, post = inner ++ tail ∧ (∀ e ∈ inner, q.Above .handler e.spot) ∧
    ((∃ s' rest, tail = ⟨q, .ends, s'⟩ :: rest ∧ ∀ e ∈ rest, ¬ q.Covers e.spot) ∨
      (∃ before p f' s', inner = before ++ [⟨p, .fails f', s'⟩]) ∧ ∀ e ∈ tail, ¬ q.Covers e.spot)

/-- After the end of an action the next one of its sequence begins, unless the run returns. -/
def Continues (root : List Action) (q : Spot) (s : Scene) (post : List Event) : Prop :=
  s.context.shouldReturn = false → (actionAt? root q.next).isSome →
    ∃ rest, post = ⟨q.next, .begins, s⟩ :: rest

theorem Rescued.append {q : Spot} {f : Failure} {s : Scene} {post more : List Event}
    (h : Rescued q f s post) (hmore : ∀ e ∈ more, ¬ q.Covers e.spot) :
    Rescued q f s (post ++ more) := by
  refine ⟨h.error, h.noted, ?_, ?_⟩
  · intro hs
    obtain ⟨rest, rfl⟩ := h.first hs
    exact ⟨rest ++ more, rfl⟩
  · obtain ⟨inner, tail, rfl, hinner, hend⟩ := h.parts
    refine ⟨inner, tail ++ more, List.append_assoc .., hinner, ?_⟩
    rcases hend with ⟨s', rest, rfl, hrest⟩ | ⟨hfails, htail⟩
    · refine .inl ⟨s', rest ++ more, rfl, ?_⟩
      intro e he
      exact (List.mem_append.1 he).elim (hrest e) (hmore e)
    · refine .inr ⟨hfails, ?_⟩
      intro e he
      exact (List.mem_append.1 he).elim (htail e) (hmore e)

theorem Continues.append {root : List Action} {q : Spot} {s : Scene} {post : List Event}
    (h : Continues root q s post) (more : List Event) : Continues root q s (post ++ more) := by
  intro hs hq
  obtain ⟨rest, rfl⟩ := h hs hq
  exact ⟨rest ++ more, rfl⟩

/-- A part of a run in which all failures at depth `d` or deeper go where they belong. The failure
`r` leaves the part. The ends of actions are followed up from the depth `low` on. -/
structure Orderly (root : List Action) (d low : Nat) (within : Event → Prop) (es : List Event)
    (r : Option Failure) : Prop where
  located : ∀ e ∈ es, within e
  leaves : ∀ f, r = some f → ∃ before p s, es = before ++ [⟨p, .fails f, s⟩]
  caught : ∀ p f s post, ⟨p, .fails f, s⟩ :: post <:+ es →
    (∃ q s' rest, d ≤ q.depth ∧ CatchesFirst root q p ∧ post = ⟨q, .handles f, s'⟩ :: rest) ∨
      (∀ q, Catches root q p → q.depth < d) ∧ post = [] ∧ r = some f
  rescued : ∀ q f s post, ⟨q, .handles f, s⟩ :: post <:+ es → Rescued q f s post
  continues : ∀ q s post, low ≤ q.depth → ⟨q, .ends, s⟩ :: post <:+ es → Continues root q s post

namespace Orderly

variable {root : List Action} {d low : Nat} {within within' : Event → Prop} {es es' : List Event}
  {r : Option Failure}

theorem nil : Orderly root d low within [] none where
  located := by simp
  leaves := by simp
  caught := by simp
  rescued := by simp
  continues := by simp

theorem mono (h : Orderly root d low within es r) (hw : ∀ e, within e → within' e) :
    Orderly root d low within' es r :=
  { h with located := fun e he => hw e (h.located e he) }

/-- Two parts, one after the other. What the first part handled is left alone by the second, which
takes up what the first one left open. -/
theorem follow {low' : Nat} (h : Orderly root d low' within es none)
    (h' : Orderly root d low within es' r)
    (apart : ∀ q f s, ⟨q, .handles f, s⟩ ∈ es → ∀ e ∈ es', ¬ q.Covers e.spot)
    (hends : ∀ q s post, low ≤ q.depth → q.depth < low' → ⟨q, .ends, s⟩ :: post <:+ es →
      Continues root q s (post ++ es')) : Orderly root d low within (es ++ es') r where
  located := by
    intro e he
    exact (List.mem_append.1 he).elim (h.located e) (h'.located e)
  leaves := by
    intro f hf
    obtain ⟨before, p, s, rfl⟩ := h'.leaves f hf
    exact ⟨es ++ before, p, s, by simp⟩
  caught := by
    intro p f s post hp
    rcases cons_suffix_append.1 hp with ⟨post, hes, rfl⟩ | hes
    · rcases h.caught p f s post hes with ⟨q, s', rest, hd, hq, rfl⟩ | ⟨_, _, hr⟩
      · exact .inl ⟨q, s', rest ++ es', hd, hq, rfl⟩
      · cases hr
    · exact h'.caught p f s post hes
  rescued := by
    intro q f s post hq
    rcases cons_suffix_append.1 hq with ⟨post, hes, rfl⟩ | hes
    · exact (h.rescued q f s post hes).append (apart q f s (hes.subset (List.mem_cons_self ..)))
    · exact h'.rescued q f s post hes
  continues := by
    intro q s post hd hq
    rcases cons_suffix_append.1 hq with ⟨post, hes, rfl⟩ | hes
    · by_cases hlow : q.depth < low'
      · exact hends q s post hd hlow hes
      · exact (h.continues q s post (Nat.le_of_not_lt hlow) hes).append es'
    · exact h'.continues q s post hd hes

/-- Two parts, one after the other, where the first leaves nothing open. -/
theorem append (h : Orderly root d low within es none) (h' : Orderly root d low within es' r)
    (apart : ∀ q f s, ⟨q, .handles f, s⟩ ∈ es → ∀ e ∈ es', ¬ q.Covers e.spot) :
    Orderly root d low within (es ++ es') r :=
  h.follow h' apart fun _ _ _ hq hlow _ => absurd hlow (Nat.not_lt.2 hq)

theorem begins {p : Spot} {s : Scene} (hp : within ⟨p, .begins, s⟩) :
    Orderly root d low within [⟨p, .begins, s⟩] none where
  located := by simpa using hp
  leaves := by simp
  caught := by simp [List.suffix_cons_iff]
  rescued := by simp [List.suffix_cons_iff]
  continues := by simp [List.suffix_cons_iff]

theorem does {p : Spot} {s s' : Scene} (hp : within ⟨p, .does s, s'⟩) :
    Orderly root d low within [⟨p, .does s, s'⟩] none where
  located := by simpa using hp
  leaves := by simp
  caught := by simp [List.suffix_cons_iff]
  rescued := by simp [List.suffix_cons_iff]
  continues := by simp [List.suffix_cons_iff]

theorem ends {p : Spot} {s : Scene} (hp : within ⟨p, .ends, s⟩) (hd : p.depth < low) :
    Orderly root d low within [⟨p, .ends, s⟩] none where
  located := by simpa using hp
  leaves := by simp
  caught := by simp [List.suffix_cons_iff]
  rescued := by simp [List.suffix_cons_iff]
  continues := by
    intro q s post hq hes
    simp only [List.suffix_cons_iff, List.suffix_nil] at hes
    rcases hes with hes | hes
    · cases hes
      omega
    · cases hes

/-- An action that fails itself, at a depth that is left to others. -/
theorem fails {p : Spot} {f : Failure} {s : Scene} (hp : within ⟨p, .fails f, s⟩)
    (hd : p.depth < d) : Orderly root d low within [⟨p, .fails f, s⟩] (some f) where
  located := by simpa using hp
  leaves := by
    rintro _ ⟨⟩
    exact ⟨[], p, s, rfl⟩
  caught := by
    intro x g s' post hes
    simp only [List.suffix_cons_iff, List.suffix_nil] at hes
    rcases hes with hes | hes
    · cases hes
      exact .inr ⟨fun q hq => Nat.lt_of_le_of_lt hq.covers.depth_le hd, rfl, rfl⟩
    · cases hes
  rescued := by simp [List.suffix_cons_iff]
  continues := by simp [List.suffix_cons_iff]

/-- A part from which no failure leaves is in order at any smaller depth. -/
theorem lift (h : Orderly root (d + 1) low within es none) : Orderly root d low within es none :=
  { h with
    leaves := by simp
    caught := by
      intro p f s post hp
      rcases h.caught p f s post hp with ⟨q, s', rest, hd, hq⟩ | ⟨_, _, hr⟩
      · exact .inl ⟨q, s', rest, by omega, hq⟩
      · cases hr }

/-- A part whose failures nothing answers to at depth `d`. -/
theorem pass {f : Failure} (h : Orderly root (d + 1) low within es (some f))
    (hpass : ∀ e ∈ es, ∀ q, Catches root q e.spot → q.depth ≠ d) :
    Orderly root d low within es (some f) :=
  { h with
    caught := by
      intro p g s post hp
      rcases h.caught p g s post hp with ⟨q, s', rest, hd, hq⟩ | ⟨hnone, hpost⟩
      · exact .inl ⟨q, s', rest, by omega, hq⟩
      · refine .inr ⟨?_, hpost⟩
        intro q hq
        have := hnone q hq
        have := hpass _ (hp.subset (List.mem_cons_self ..)) q hq
        omega }

/-- A part whose failures the action at `p` answers to, and its handler. -/
theorem handled {p : Spot} {f : Failure} {s : Scene} (hd : p.depth = d)
    (h : Orderly root (d + 1) low within es (some f)) (hcatch : ∀ e ∈ es, Catches root p e.spot)
    (hp : within ⟨p, .handles f, s⟩) (hrescued : Rescued p f s es')
    (h' : Orderly root d low within es' r)
    (apart : ∀ q g s', ⟨q, .handles g, s'⟩ ∈ es → ¬ q.Covers p ∧ ∀ e ∈ es', ¬ q.Covers e.spot) :
    Orderly root d low within (es ++ ⟨p, .handles f, s⟩ :: es') r where
  located := by
    intro e he
    rcases List.mem_append.1 he with he | he
    · exact h.located e he
    · rcases List.mem_cons.1 he with rfl | he
      · exact hp
      · exact h'.located e he
  leaves := by
    intro g hg
    obtain ⟨before, x, s', rfl⟩ := h'.leaves g hg
    exact ⟨es ++ ⟨p, .handles f, s⟩ :: before, x, s', by simp⟩
  caught := by
    intro x g s' post hx
    rcases cons_suffix_append.1 hx with ⟨post, hes, rfl⟩ | hes
    · rcases h.caught x g s' post hes with ⟨q, s'', rest, hq, hfirst, rfl⟩ | ⟨hnone, rfl, hg⟩
      · exact .inl ⟨q, s'', rest ++ ⟨p, .handles f, s⟩ :: es', by omega, hfirst, rfl⟩
      · cases hg
        -- nothing deeper answers to the failure, so `p` is the innermost action that does
        refine .inl ⟨p, s, es', by omega, ⟨hcatch _ (hes.subset (List.mem_cons_self ..)), ?_⟩, rfl⟩
        intro q hq
        have := hnone q hq
        omega
    · rcases List.suffix_cons_iff.1 hes with hes | hes
      · cases hes
      · exact h'.caught x g s' post hes
  rescued := by
    intro q g s' post hq
    rcases cons_suffix_append.1 hq with ⟨post, hes, rfl⟩ | hes
    · refine (h.rescued q g s' post hes).append ?_
      obtain ⟨hqp, hqes⟩ := apart q g s' (hes.subset (List.mem_cons_self ..))
      intro e he
      rcases List.mem_cons.1 he with rfl | he
      · exact hqp
      · exact hqes e he
    · rcases List.suffix_cons_iff.1 hes with hes | hes
      · cases hes
        exact hrescued
      · exact h'.rescued q g s' post hes
  continues := by
    intro q s' post hq hx
    rcases cons_suffix_append.1 hx with ⟨post, hes, rfl⟩ | hes
    · exact (h.continues q s' post hq hes).append _
    · rcases List.suffix_cons_iff.1 hes with hes | hes
      · cases hes
      · exact h'.continues q s' post hq hes

end Orderly

end BulletScript.Engine

/-! One action and its handler. If what happens in both is in order, so is the whole action. -/
namespace BulletScript.Engine

open Script

def failure? {α : Type} : Except Failure α → Option Failure
  | .ok _ => none
  | .error f => some f

/-- A run that is in order wherever it starts. -/
def InOrder {α : Type} (root : List Action) (d low : Nat) (within : Event → Prop)
    (w : Watched α) : Prop :=
  ∀ s, Orderly root d low within (w s).events (failure? (w s).result)

/-- What the own work of an action leaves: a step that is done, or a failure. -/
def Happening.IsWork : Happening → Prop
  | .does _ | .fails _ => True
  | .begins | .handles _ | .ends => False

/-- What can be in the trail of the body of the action at `p`: its own work, and all that happens in
sequences other than its handler. -/
def InBody (p : Spot) (e : Event) : Prop :=
  (e.spot = p ∧ e.what.IsWork) ∨ ∃ turn, turn ≠ .handler ∧ p.Above turn e.spot

namespace Watched

variable {α β : Type} {root : List Action} {p : Spot}

/-- A scene as the handler of an action finds it. -/
def noted (f : Failure) (s : Scene) : Scene :=
  { s with context := { s.context with
      error := some f, vars := s.context.vars.set "error" (.map (failureRecord f)) } }

theorem own_bind_ok {m : Act α} {a : α} {s s' : Scene} (h : m.run s = (.ok a, s'))
    (k : α → Watched β) : (own p m >>= k) s = k a s' := by
  simp [bind_apply, own, h, goOn]

theorem own_bind_error {m : Act α} {f : Failure} {s s' : Scene} (h : m.run s = (.error f, s'))
    (k : α → Watched β) : (own p m >>= k) s = ⟨[⟨p, .fails f, s'⟩], .error f, s'⟩ := by
  simp [bind_apply, own, h, goOn]

theorem quiet_bind_ok {m : Act α} {a : α} {s s' : Scene} (h : m.run s = (.ok a, s'))
    (k : α → Watched β) : (quiet m >>= k) s = k a s' := by
  simp [bind_apply, quiet, h, goOn]

/-- How an action goes: its body ends, or fails with no handler there, or fails and its handler ends,
or fails as its handler does. -/
inductive Attempted (p : Spot) (onError : List Action) (handler body : Watched Unit) (s : Scene) :
    Trail Unit → Prop
  | succeeded (h : (body s).result = .ok ()) :
    Attempted p onError handler body s
      ⟨[⟨p, .begins, s⟩] ++ ((body s).events ++ [⟨p, .ends, (body s).scene⟩]), .ok (),
        (body s).scene⟩
  | failed {f : Failure} (h : (body s).result = .error f) (hnone : onError = []) :
    Attempted p onError handler body s
      ⟨[⟨p, .begins, s⟩] ++ (body s).events, .error f, (body s).scene⟩
  | rescued {f : Failure} (h : (body s).result = .error f) (hsome : onError ≠ [])
      (hok : (handler (noted f (body s).scene)).result = .ok ()) :
    Attempted p onError handler body s
      ⟨[⟨p, .begins, s⟩] ++ ((body s).events ++ ⟨p, .handles f, noted f (body s).scene⟩ ::
          ((handler (noted f (body s).scene)).events ++
            [⟨p, .ends, (handler (noted f (body s).scene)).scene⟩])), .ok (),
        (handler (noted f (body s).scene)).scene⟩
  | lost {f g : Failure} (h : (body s).result = .error f) (hsome : onError ≠ [])
      (hg : (handler (noted f (body s).scene)).result = .error g) :
    Attempted p onError handler body s
      ⟨[⟨p, .begins, s⟩] ++ ((body s).events ++ ⟨p, .handles f, noted f (body s).scene⟩ ::
          (handler (noted f (body s).scene)).events), .error g,
        (handler (noted f (body s).scene)).scene⟩

theorem run_noteFailure (f : Failure) (s : Scene) :
    (Act.noteFailure f).run s = (.ok (), noted f s) := rfl

theorem attempted (p : Spot) (onError : List Action) (handler body : Watched Unit) (s : Scene) :
    Attempted p onError handler body s (attempt p onError handler body s) := by
  rcases hb : (body s).result with f | ⟨⟩
  · by_cases hnone : onError = []
    · have h : Attempted p onError handler body s _ := .failed hb hnone
      simpa [attempt, hnone, bind_apply, goOn, tell, hb] using h
    · rcases hh : (handler (noted f (body s).scene)).result with g | ⟨⟩
      · have h : Attempted p onError handler body s _ := .lost hb hnone hh
        simpa [attempt, hnone, bind_apply, goOn, tell, rescue, quiet, run_noteFailure, hb, hh]
          using h
      · have h : Attempted p onError handler body s _ := .rescued hb hnone hh
        simpa [attempt, hnone, bind_apply, goOn, tell, rescue, quiet, run_noteFailure, hb, hh]
          using h
  · have h : Attempted p onError handler body s _ := .succeeded hb
    by_cases hnone : onError = []
    · subst hnone
      simpa [attempt, bind_apply, goOn, tell, hb] using h
    · simpa [attempt, hnone, bind_apply, goOn, tell, rescue, hb] using h


end Watched

section Attempt

variable {root : List Action} {p : Spot} {a : Action}

theorem InBody.covers {e : Event} (h : InBody p e) : p.Covers e.spot := by
  rcases h with ⟨h, _⟩ | ⟨turn, _, h⟩
  · exact .inl h
  · exact .inr ⟨turn, h⟩

theorem InBody.catches {e : Event} (h : InBody p e) (ha : actionAt? root p = some a)
    (honError : a.onError ≠ []) : Catches root p e.spot := by
  refine ⟨⟨a, ha, honError⟩, ?_⟩
  rcases h with ⟨h, _⟩ | h
  · exact .inl h
  · exact .inr h

theorem InBody.above {q : Spot} {f : Failure} {s : Scene} (h : InBody p ⟨q, .handles f, s⟩) :
    ∃ turn, turn ≠ .handler ∧ p.Above turn q := by
  rcases h with ⟨_, hwork⟩ | h
  · exact hwork.elim
  · exact h

theorem not_catches_of_handler {x : Spot} (h : p.Above .handler x) : ¬ Catches root p x := by
  rintro ⟨_, rfl | ⟨turn, hturn, hx⟩⟩
  · exact absurd h.depth_lt (Nat.lt_irrefl _)
  · exact hturn (hx.unique h rfl).2

/-- At the depth of an action only the action itself can answer to what lies in it. -/
theorem Catches.eq_of_covers {q x : Spot} (h : Catches root q x) (hx : p.Covers x)
    (hd : q.depth = p.depth) : q = p := h.covers.unique hx hd

theorem not_inBody_ends {s : Scene} : ¬ InBody p ⟨p, .ends, s⟩ := by
  rintro (⟨_, hwork⟩ | ⟨turn, _, h⟩)
  · exact hwork
  · exact absurd h.depth_lt (Nat.lt_irrefl _)

theorem last_of_concat {es : List Event} {s s' : Scene} {post : List Event}
    (hes : ∀ s, ⟨p, .ends, s⟩ ∉ es) (h : ⟨p, .ends, s'⟩ :: post <:+ es ++ [⟨p, .ends, s⟩]) :
    post = [] ∧ s' = s := by
  rcases cons_suffix_append.1 h with ⟨post, hpost, rfl⟩ | h
  · exact absurd (hpost.subset (List.mem_cons_self ..)) (hes s')
  · rcases List.suffix_cons_iff.1 h with h | h
    · cases h
      exact ⟨rfl, rfl⟩
    · simp at h

/-- An action of which each part, wherever it starts, is in order. -/
structure Sound (root : List Action) (p : Spot) (a : Action) (handler body : Watched Unit) :
    Prop where
  here : actionAt? root p = some a
  inBody : InOrder root (p.depth + 1) (p.depth + 1) (InBody p) body
  inHandler : InOrder root (p.depth + 1) (p.depth + 1) (fun e => p.Above .handler e.spot) handler
  first : a.onError ≠ [] → ∀ s, s.context.shouldReturn = false →
    ∃ rest, (handler s).events = ⟨⟨p.inside .handler, 0⟩, .begins, s⟩ :: rest

namespace Sound

variable {handler body : Watched Unit} (h : Sound root p a handler body)
include h

open Watched (noted attempt attempted)

theorem not_ends_body (s s' : Scene) : ⟨p, .ends, s'⟩ ∉ (body s).events := fun hmem =>
  not_inBody_ends ((h.inBody s).located _ hmem)

theorem not_ends_handler (s s' : Scene) : ⟨p, .ends, s'⟩ ∉ (handler s).events := fun hmem =>
  absurd ((h.inHandler s).located _ hmem).depth_lt (Nat.lt_irrefl _)

theorem apart {q : Spot} {f : Failure} {s s' : Scene}
    (hq : ⟨q, .handles f, s'⟩ ∈ (body s).events) :
    ¬ q.Covers p ∧ ∀ x, p.Above .handler x → ¬ q.Covers x := by
  obtain ⟨turn, hturn, hq⟩ := ((h.inBody s).located _ hq).above
  exact ⟨hq.not_covers, fun x hx => hq.apart hx hturn⟩

/-- The body of an action with a handler, when it fails. -/
theorem body_caught {s : Scene} {f : Failure} (hf : (body s).result = .error f) :
    Orderly root (p.depth + 1) (p.depth + 1) (fun e => p.Covers e.spot) (body s).events (some f) := by
  have hb := h.inBody s
  rw [hf] at hb
  exact hb.mono fun e he => he.covers

/-- The body of an action without a handler, when it fails. -/
theorem body_passed (hnone : a.onError = []) {s : Scene} {f : Failure}
    (hf : (body s).result = .error f) :
    Orderly root p.depth (p.depth + 1) (fun e => p.Covers e.spot) (body s).events (some f) := by
  refine (h.body_caught hf).pass ?_
  intro e he q hq hd
  obtain rfl := hq.eq_of_covers ((h.inBody s).located e he).covers hd
  obtain ⟨⟨b, hb, hsome⟩, _⟩ := hq
  rw [h.here] at hb
  cases hb
  exact hsome hnone

/-- What a handler does is in order also for the action around it: that action does not answer to
failures in its own handler. -/
theorem handler_passed : InOrder root p.depth (p.depth + 1) (fun e => p.Covers e.spot) handler := by
  intro s
  have hh : Orderly root (p.depth + 1) (p.depth + 1) (fun e => p.Covers e.spot) _ _ :=
    (h.inHandler s).mono fun e he => .inr ⟨_, he⟩
  rcases hr : (handler s).result with f | ⟨⟩
  · rw [hr] at hh
    refine hh.pass ?_
    intro e he q hq hd
    have hx := (h.inHandler s).located e he
    obtain rfl := hq.eq_of_covers (.inr ⟨_, hx⟩) hd
    exact not_catches_of_handler hx hq
  · rw [hr] at hh
    exact hh.lift

theorem rescued_handler (honError : a.onError ≠ []) {f : Failure} {s : Scene} (tail : List Event)
    (hend : ((∃ s' rest, tail = ⟨p, .ends, s'⟩ :: rest ∧ ∀ e ∈ rest, ¬ p.Covers e.spot) ∨
      (∃ before x g s', (handler (noted f s)).events = before ++ [⟨x, .fails g, s'⟩]) ∧
        ∀ e ∈ tail, ¬ p.Covers e.spot)) :
    Rescued p f (noted f s) ((handler (noted f s)).events ++ tail) := by
  refine ⟨rfl, ?_, ?_, _, tail, rfl, (h.inHandler _).located, hend⟩
  · exact (Record.get?_set_str ..).trans (if_pos (by simp))
  · intro hs
    obtain ⟨rest, hrest⟩ := h.first honError _ hs
    exact ⟨rest ++ tail, by rw [hrest]; rfl⟩

theorem inOrder :
    InOrder root p.depth (p.depth + 1) (fun e => p.Covers e.spot)
      (attempt p a.onError handler body) := by
  intro s
  have hends (s' : Scene) : Orderly root p.depth (p.depth + 1) (fun e => p.Covers e.spot)
      [⟨p, .ends, s'⟩] none := .ends (.refl p) (Nat.lt_succ_self _)
  have hattempt := attempted p a.onError handler body s
  generalize attempt p a.onError handler body s = t at hattempt ⊢
  cases hattempt with
  | succeeded hok =>
    have hb := (h.inBody s).mono fun e he => InBody.covers he
    rw [hok] at hb
    refine (Orderly.begins (.refl p)).append (hb.lift.append (hends _) ?_) (by simp)
    intro q f s' hq e he
    rw [List.mem_singleton.1 he]
    exact (h.apart hq).1
  | failed hf hnone => exact (Orderly.begins (.refl p)).append (h.body_passed hnone hf) (by simp)
  | @rescued f hf hsome hok =>
    have hh := h.handler_passed (noted f (body s).scene)
    rw [hok] at hh
    refine (Orderly.begins (.refl p)).append (.handled rfl (h.body_caught hf)
      (fun e he => ((h.inBody s).located e he).catches h.here hsome) (.refl p) ?_
      (hh.append (hends _) ?_) ?_) (by simp)
    · exact h.rescued_handler hsome _ (.inl ⟨_, [], rfl, by simp⟩)
    · intro q g s' hq e he
      rw [List.mem_singleton.1 he]
      exact ((h.inHandler _).located _ hq).not_covers
    · intro q g s' hq
      refine ⟨(h.apart hq).1, ?_⟩
      intro e he
      rcases List.mem_append.1 he with he | he
      · exact (h.apart hq).2 _ ((h.inHandler _).located e he)
      · rw [List.mem_singleton.1 he]
        exact (h.apart hq).1
  | @lost f g hf hsome hg =>
    have hh := h.handler_passed (noted f (body s).scene)
    rw [hg] at hh
    refine (Orderly.begins (.refl p)).append (.handled rfl (h.body_caught hf)
      (fun e he => ((h.inBody s).located e he).catches h.here hsome) (.refl p) ?_ hh ?_) (by simp)
    · obtain ⟨before, x, s', hlast⟩ := hh.leaves g rfl
      have := h.rescued_handler hsome (f := f) (s := (body s).scene) []
        (.inr ⟨⟨before, x, g, s', hlast⟩, by simp⟩)
      simpa using this
    · intro q g s' hq
      exact ⟨(h.apart hq).1, fun e he => (h.apart hq).2 _ ((h.inHandler _).located e he)⟩

theorem last (s : Scene) {s' : Scene} {post : List Event}
    (hpost : ⟨p, .ends, s'⟩ :: post <:+ (attempt p a.onError handler body s).events) :
    post = [] ∧ s' = (attempt p a.onError handler body s).scene ∧
      (attempt p a.onError handler body s).result = .ok () := by
  have hattempt := attempted p a.onError handler body s
  generalize attempt p a.onError handler body s = t at hattempt hpost ⊢
  cases hattempt with
  | succeeded hok =>
    rw [← List.append_assoc] at hpost
    obtain ⟨rfl, rfl⟩ := last_of_concat (by simpa using h.not_ends_body s) hpost
    exact ⟨rfl, rfl, rfl⟩
  | failed hf hnone =>
    have := hpost.subset (List.mem_cons_self ..)
    simp [h.not_ends_body] at this
  | @rescued f hf hsome hok =>
    have hsplit (xs ys : List Event) (e e' e'' : Event) :
        [e] ++ (xs ++ e' :: (ys ++ [e''])) = ([e] ++ xs ++ e' :: ys) ++ [e''] := by simp
    rw [hsplit] at hpost
    obtain ⟨rfl, rfl⟩ := last_of_concat
      (by simpa [h.not_ends_body] using h.not_ends_handler (noted f (body s).scene)) hpost
    exact ⟨rfl, rfl, rfl⟩
  | @lost f g hf hsome hg =>
    have := hpost.subset (List.mem_cons_self ..)
    simp [h.not_ends_body, h.not_ends_handler] at this

/-- An action begins, then there is its body, then its handler or its end. -/
theorem events_eq (s : Scene) :
    ∃ rest, (attempt p a.onError handler body s).events =
        [⟨p, .begins, s⟩] ++ ((body s).events ++ rest) ∧
      ∀ e ∈ rest, (e.spot = p ∧ e.what ≠ .begins) ∨ p.Above .handler e.spot := by
  have hattempt := attempted p a.onError handler body s
  generalize attempt p a.onError handler body s = t at hattempt ⊢
  cases hattempt with
  | succeeded => exact ⟨_, rfl, by simp⟩
  | failed => exact ⟨[], by simp, by simp⟩
  | @rescued f =>
    refine ⟨_, rfl, ?_⟩
    simp only [List.forall_mem_cons, List.forall_mem_append]
    refine ⟨by simp, fun e he => .inr ((h.inHandler _).located e he), by simp⟩
  | @lost f =>
    refine ⟨_, rfl, ?_⟩
    simp only [List.forall_mem_cons]
    exact ⟨by simp, fun e he => .inr ((h.inHandler _).located e he)⟩

/-- Nothing happens in an action before it begins. -/
theorem first_begins {s s' : Scene} {before : List Event}
    (hbefore : before ++ [⟨p, .begins, s'⟩] <+: (attempt p a.onError handler body s).events) :
    before = [] ∧ s' = s := by
  obtain ⟨rest, hevents, hrest⟩ := h.events_eq s
  rw [hevents] at hbefore
  rcases concat_prefix_append hbefore with hbefore | ⟨inner, rfl, hinner⟩
  · rcases before with _ | ⟨e, before⟩
    · simpa using hbefore
    · simpa using hbefore.length_le
  · have hmem : ⟨p, .begins, s'⟩ ∈ (body s).events ++ rest := hinner.subset (by simp)
    rcases List.mem_append.1 hmem with hmem | hmem
    · rcases (h.inBody s).located _ hmem with ⟨_, hwork⟩ | ⟨turn, _, habove⟩
      · exact hwork.elim
      · exact absurd habove.depth_lt (Nat.lt_irrefl _)
    · rcases hrest _ hmem with ⟨_, hne⟩ | habove
      · exact absurd rfl hne
      · exact absurd habove.depth_lt (Nat.lt_irrefl _)

/-- Before what happens in the sequences of an action other than its handler, there is its beginning
and what its body did so far. -/
theorem before_inner {s : Scene} {e : Event} {turn : Turn} (hturn : turn ≠ .handler)
    (habove : p.Above turn e.spot) {before : List Event}
    (hbefore : before ++ [e] <+: (attempt p a.onError handler body s).events) :
    ∃ inner, before = ⟨p, .begins, s⟩ :: inner ∧ inner ++ [e] <+: (body s).events := by
  have hne : e.spot ≠ p := by
    rintro rfl
    exact absurd habove.depth_lt (Nat.lt_irrefl _)
  obtain ⟨rest, hevents, hrest⟩ := h.events_eq s
  rw [hevents] at hbefore
  rcases concat_prefix_append hbefore with hbegins | ⟨inner, rfl, hinner⟩
  · have hmem : e ∈ [⟨p, .begins, s⟩] := hbegins.subset (by simp)
    rw [List.mem_singleton.1 hmem] at hne
    exact absurd rfl hne
  rcases concat_prefix_append hinner with hinner | ⟨inner, rfl, hlater⟩
  · exact ⟨inner, rfl, hinner⟩
  · rcases hrest e (hlater.subset (by simp)) with ⟨heq, _⟩ | hhandler
    · exact absurd heq hne
    · exact absurd (hhandler.unique habove rfl).2.symm hturn

end Sound

end Attempt
end BulletScript.Engine
