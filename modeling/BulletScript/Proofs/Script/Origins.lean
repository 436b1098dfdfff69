import BulletScript.Proofs.Script.Authored
import BulletScript.Proofs.Script.Nodes

/-! Where actions come from. What an action is in itself depends on its own bullet alone; the
actions that are read are those of the bullets that are kept and stand in nothing that is left out.
-/
namespace BulletScript.Script

open Outline

/-- An action without those in its blocks. -/
inductive Core where
  | step (leaf : Step)
  | branch (condition : String)
  | loop (items : String) (itemName : Value) (indexName : Option Value)

def Action.core : Action → Core
  | .step leaf _ _ => .step leaf
  | .branch condition .. => .branch condition
  | .loop items itemName indexName .. => .loop items itemName indexName

/-- The main value and the options of an action, error handlers aside. -/
def headFor? (item : Item) : Option Head :=
  (headOf item.text item.line).toOption.map fun (keyword, value, pairs) =>
    headWith keyword value pairs item.children

def Head.core? (head : Head) : Option Core :=
  match head.keyword with
  | .if => some (.branch head.value)
  | .foreach => (head.required "an items variable").toOption.map fun items =>
    .loop items (head.givenOr "as" "item") (head.given? "index")
  | _ => (stepOf head).toOption.map .step

/-- What a bullet is read as, or nothing if it is left out. -/
def coreFor? (item : Item) : Option Core := (headFor? item).bind Head.core?

/-- A bullet with nothing left out that it stands in, and no block on the way written again. -/
def Bullet.Reached (b : Bullet) : Prop :=
  b.kept = true ∧ ∀ outer ∈ b.above, (coreFor? outer).isSome = true

instance (b : Bullet) : Decidable b.Reached := by
  unfold Bullet.Reached
  infer_instance

/-- What is read of a bullet. -/
def Bullet.core? (b : Bullet) : Option Core := if b.Reached then coreFor? b.item else none

section Cores

variable {head : Head} {leaf : Step}

theorem toOption_eq_some {ε α : Type} {x : Except ε α} {a : α} :
    x.toOption = some a ↔ x = .ok a := by
  cases x <;> simp [Except.toOption]

theorem stepOf_of_core? (h : head.core? = some (.step leaf)) : stepOf head = .ok leaf := by
  rw [Head.core?] at h
  split at h
  · cases h
  · obtain ⟨items, -, hcore⟩ := Option.map_eq_some_iff.1 h
    cases hcore
  · obtain ⟨leaf', hleaf, hcore⟩ := Option.map_eq_some_iff.1 h
    cases hcore
    exact toOption_eq_some.1 hleaf

end Cores

section Bullets

variable {item : Item} {core : Core} {b : Bullet} {bs : List Bullet}

theorem core?_keptIf (last : Bool) (b : Bullet) :
    (b.keptIf last).core? = if last then b.core? else none := by
  cases last <;> simp [Bullet.core?, Bullet.Reached, Bullet.keptIf]

theorem core?_under (b : Bullet) :
    (b.under item).core? = if (coreFor? item).isSome then b.core? else none := by
  by_cases h : (coreFor? item).isSome = true <;>
    simp [Bullet.core?, Bullet.Reached, Bullet.under, h]

theorem filterMap_keptIf (last : Bool) (bs : List Bullet) :
    (bs.map (·.keptIf last)).filterMap Bullet.core? =
      if last then bs.filterMap Bullet.core? else [] := by
  rw [List.filterMap_map]
  cases last <;> simp [core?_keptIf]

/-- What is left out takes what is in it along. -/
theorem filterMap_under (bs : List Bullet) :
    (({ item } : Bullet) :: bs.map (·.under item)).filterMap Bullet.core? =
      match coreFor? item with
      | some core => core :: bs.filterMap Bullet.core?
      | none => [] := by
  have hself : Bullet.core? { item } = coreFor? item := by simp [Bullet.core?, Bullet.Reached]
  rw [List.filterMap_cons, hself, List.filterMap_map]
  cases h : coreFor? item <;> simp [core?_under, h]

end Bullets

/-- The actions that are read are, in another order, what is read of the bullets. -/
def Mirrors (actions : List Action) (bs : List Bullet) : Prop :=
  ((Action.flattenAll actions).map Action.core).Perm (bs.filterMap Bullet.core?)

/-- A reading with actions that mirror some bullets. -/
def Yields {α : Type} (m : Reading α) (actionsOf : α → List Action) (bs : List Bullet) : Prop :=
  ∀ ws, Mirrors (actionsOf (m.run ws).1) bs

section Yields

variable {actions more : List Action} {bs cs : List Bullet} {item : Item}

theorem flattenAll_eq_flatMap (actions : List Action) :
    Action.flattenAll actions = actions.flatMap Action.flatten := by
  induction actions with
  | nil => rfl
  | cons action rest ih => rw [Action.flattenAll, ih, List.flatMap_cons]

namespace Mirrors

theorem nil : Mirrors [] [] := List.Perm.refl _

theorem append (h : Mirrors actions bs) (h' : Mirrors more cs) :
    Mirrors (actions ++ more) (bs ++ cs) := by
  rw [Mirrors, flattenAll_append, List.map_append, List.filterMap_append]
  exact List.Perm.append h h'

theorem perm (h : Mirrors actions bs) (hperm : more.Perm actions) : Mirrors more bs := by
  have hnodes : (Action.flattenAll more).Perm (Action.flattenAll actions) := by
    rw [flattenAll_eq_flatMap, flattenAll_eq_flatMap]
    exact hperm.flatMap_right _
  exact (hnodes.map _).trans h

/-- An action with what is in its blocks. -/
theorem under {action : Action} {inner : List Action} (h : Mirrors inner bs)
    (hcore : coreFor? item = some action.core)
    (hnodes : action.flatten.Perm (action :: Action.flattenAll inner)) :
    Mirrors [action] ({ item } :: bs.map (·.under item)) := by
  rw [Mirrors, flattenAll_singleton, filterMap_under, hcore]
  exact (hnodes.map _).trans (List.Perm.cons _ h)

theorem dropped (hcore : coreFor? item = none) : Mirrors [] (bullets item) := by
  obtain ⟨text, children, line⟩ := item
  rw [Mirrors, bullets, filterMap_under, hcore]
  exact List.Perm.refl _

end Mirrors

namespace Yields

/-- Two readings, the results of which are put together. -/
theorem join {α β γ : Type} {m : Reading α} {n : Reading β} {f : α → List Action}
    {g : β → List Action} {out : γ → List Action} {k : α → β → Reading γ} (hm : Yields m f bs)
    (hn : Yields n g cs) (hk : ∀ a b, ∃ c, k a b = pure c ∧ (out c).Perm (f a ++ g b)) :
    Yields (m >>= fun a => n >>= k a) out (bs ++ cs) := by
  intro ws
  obtain ⟨c, hpure, hperm⟩ := hk (m.run ws).1 (n.run (m.run ws).2).1
  rw [Reading.run_bind, Reading.run_bind, hpure]
  exact ((hm ws).append (hn _)).perm hperm

/-- An action whose blocks are read one after the other. -/
theorem under {β : Type} {m : Reading (List Action)} {n : Reading β} {g : β → List Action}
    {k : List Action → β → Reading (Option Action)} (hm : Yields m id bs) (hn : Yields n g cs)
    (hk : ∀ h b, ∃ action, k h b = pure (some action) ∧ coreFor? item = some action.core ∧
      action.flatten.Perm (action :: Action.flattenAll (h ++ g b))) :
    Yields (m >>= fun h => n >>= k h) Option.toList
      ({ item } :: (bs ++ cs).map (·.under item)) := by
  intro ws
  obtain ⟨action, hpure, hcore, hnodes⟩ := hk (m.run ws).1 (n.run (m.run ws).2).1
  rw [Reading.run_bind, Reading.run_bind, hpure]
  exact ((hm ws).append (hn _)).under hcore hnodes

/-- An action that is left out once its handlers are read. -/
theorem dropped {α : Type} {m : Reading α} {k : α → Reading (Option Action)}
    (hcore : coreFor? item = none) (hk : ∀ a ws, ((k a).run ws).1 = none) :
    Yields (m >>= k) Option.toList (bullets item) := by
  intro ws
  rw [Reading.run_bind, hk]
  exact .dropped hcore

end Yields

section Blocks

variable {text : String} {children : List Item} {line : Option Nat}

theorem flatten_branch_perm (condition : String) (yes no onError : List Action)
    (line : Option Nat) : (Action.branch condition yes no onError line).flatten.Perm
      (.branch condition yes no onError line :: Action.flattenAll (onError ++ (yes ++ no))) := by
  rw [Action.flatten, flattenAll_append, flattenAll_append]
  exact List.perm_append_comm.cons _

theorem flatten_loop_perm (items : String) (itemName : Value) (indexName : Option Value)
    (body onError : List Action) (line : Option Nat) :
    (Action.loop items itemName indexName body onError line).flatten.Perm
      (.loop items itemName indexName body onError line ::
        Action.flattenAll (onError ++ body)) := by
  rw [Action.flatten, flattenAll_append]
  exact List.perm_append_comm.cons _

/-- An action is read with what is in its blocks, or left out with it. -/
theorem yields_action_of
    (hhandler : Yields (readHandler [] children) id (handlerBullets children))
    (hbranches : Yields (readBranches false children) (fun r => r.1 ++ r.2)
      (branchBullets children))
    (hbody : Yields (readBody children) id (bodyBullets children)) :
    Yields (readAction ⟨text, children, line⟩) Option.toList
      (bullets ⟨text, children, line⟩) := by
  cases hhead : headOf text line with
  | error w =>
    have hcore : coreFor? ⟨text, children, line⟩ = none := by
      rw [coreFor?, headFor?, hhead]
      rfl
    rw [readAction, hhead]
    exact fun ws => .dropped hcore
  | ok head =>
    obtain ⟨keyword, value, pairs⟩ := head
    have hkeyword := keyword?_of_headOf hhead children
    have hcore : coreFor? ⟨text, children, line⟩ =
        (headWith keyword value pairs children).core? := by
      rw [coreFor?, headFor?, hhead]
      rfl
    rw [readAction, hhead]
    dsimp only
    split
    · rw [bullets, if_pos hkeyword]
      exact hhandler.under hbranches fun h branches =>
        ⟨_, rfl, hcore, flatten_branch_perm value branches.1 branches.2 h line⟩
    · split
      next fault hfault =>
        refine .dropped ?_ fun _ _ => rfl
        rw [← headWith] at hfault
        rw [hcore, Head.core?, hfault]
        rfl
      next items hitems =>
        rw [bullets, if_neg (by simp [hkeyword]), if_pos hkeyword]
        refine hhandler.under hbody fun h body =>
          ⟨_, rfl, ?_, flatten_loop_perm items _ _ body h line⟩
        rw [← headWith] at hitems
        rw [hcore, Head.core?, hitems]
        rfl
    next hif hforeach =>
      have hstep : coreFor? ⟨text, children, line⟩ =
          (stepOf (headWith keyword value pairs children)).toOption.map .step := by
        rw [hcore, Head.core?]
        split
        next heq => exact absurd heq hif
        next heq => exact absurd heq hforeach
        · rfl
      split
      next fault hfault =>
        refine .dropped ?_ fun _ _ => rfl
        rw [← headWith] at hfault
        rw [hstep, hfault]
        rfl
      next leaf hleaf =>
        rw [bullets, if_neg (by simpa [hkeyword] using hif),
          if_neg (by simpa [hkeyword] using hforeach), List.append_nil]
        intro ws
        refine (hhandler ws).under ?_ (by rw [Action.flatten]; rfl)
        rw [← headWith] at hleaf
        rw [hstep, hleaf]
        rfl

end Blocks

mutual

theorem yields_action : ∀ item : Item, Yields (readAction item) Option.toList (bullets item)
  | ⟨text, children, line⟩ => by
    refine yields_action_of (fun ws => ?_) (yields_branches false children) (yields_body children)
    have hhandler := yields_handler [] children ws
    split at hhandler
    · exact hhandler
    next hnone =>
      rw [id, hhandler, handlerBullets_eq_nil (Bool.eq_false_iff.2 hnone)]
      exact .nil

theorem yields_actions : ∀ items : List Item, Yields (readActions items) id (bulletsOf items)
  | [] => fun ws => .nil
  | item :: rest => by
    rw [readActions, bulletsOf]
    exact (yields_action item).join (yields_actions rest) fun _ _ => ⟨_, rfl, List.Perm.refl _⟩

/-- The last error handler is read as its actions, and the others are not kept. -/
theorem yields_handler (handler : List Action) : ∀ (items : List Item) (ws : List String),
    if items.any (hasKey "onError") then
      Mirrors ((readHandler handler items).run ws).1 (handlerBullets items)
    else ((readHandler handler items).run ws).1 = handler
  | [], ws => rfl
  | ⟨text, children, line⟩ :: rest, ws => by
    rw [readHandler, handlerBullets, List.any_cons]
    by_cases herror : hasKey "onError" ⟨text, children, line⟩ = true
    · have hblock := yields_actions children ws
      have hrest := yields_handler ((readActions children).run ws).1 rest
        ((readActions children).run ws).2
      rw [if_pos herror, if_pos herror, Reading.run_bind, herror, Bool.true_or, if_pos rfl]
      cases hlast : rest.any (hasKey "onError") with
      | true =>
        rw [hlast, if_pos rfl] at hrest
        rw [Mirrors, List.filterMap_append, filterMap_keptIf]
        exact hrest
      | false =>
        rw [hlast, if_neg Bool.false_ne_true] at hrest
        rw [hrest, handlerBullets_eq_nil hlast, List.append_nil, Mirrors, filterMap_keptIf]
        exact hblock
    · rw [if_neg herror, if_neg herror, Bool.eq_false_iff.2 herror, Bool.false_or, List.nil_append]
      exact yields_handler handler rest ws

theorem yields_branches (inElse : Bool) : ∀ items : List Item,
    Yields (readBranches inElse items) (fun r => r.1 ++ r.2) (branchBullets items)
  | [] => fun ws => .nil
  | ⟨text, children, line⟩ :: rest => by
    rw [readBranches, branchBullets]
    split
    · exact yields_branches inElse rest
    split
    · refine (yields_actions children).join (yields_branches true rest) fun actions (yes, no) => ?_
      refine ⟨_, rfl, ?_⟩
      exact List.perm_append_comm_assoc ..
    · refine (yields_action ⟨text, children, line⟩).join (yields_branches inElse rest)
        fun action (yes, no) => ⟨_, rfl, ?_⟩
      cases inElse with
      | true => exact List.perm_append_comm_assoc ..
      | false => exact List.Perm.of_eq (List.append_assoc ..)

theorem yields_body : ∀ items : List Item, Yields (readBody items) id (bodyBullets items)
  | [] => fun ws => .nil
  | ⟨text, children, line⟩ :: rest => by
    rw [readBody, bodyBullets]
    split
    · exact yields_body rest
    · exact (yields_action ⟨text, children, line⟩).join (yields_body rest) fun _ _ =>
        ⟨_, rfl, List.Perm.refl _⟩

end

/-- Whether an item is left out where it is read as an action, and named in a warning. -/
def IsDropped (item : Item) : Prop :=
  ∀ ws, ((readAction item).run ws).1 = none ∧ Named ((readAction item).run ws).2 item

theorem isSome_readAction (item : Item) (ws : List String) :
    ((readAction item).run ws).1.isSome = (coreFor? item).isSome := by
  have hmirrors := yields_action item ws
  obtain ⟨text, children, line⟩ := item
  rw [Mirrors, bullets, filterMap_under] at hmirrors
  have hlength := hmirrors.length_eq
  cases hread : ((readAction ⟨text, children, line⟩).run ws).1 with
  | none =>
    cases hcore : coreFor? ⟨text, children, line⟩ with
    | none => rfl
    | some core => simp [hread, hcore, Action.flattenAll] at hlength
  | some action =>
    cases hcore : coreFor? ⟨text, children, line⟩ with
    | none => cases action <;> simp [hread, hcore, Action.flattenAll, Action.flatten] at hlength
    | some core => rfl

theorem isDropped_iff : IsDropped item ↔ coreFor? item = none := by
  have hread (ws : List String) := isSome_readAction item ws
  constructor
  · intro h
    have hnone := (h []).1
    cases hcore : coreFor? item with
    | none => rfl
    | some core =>
      have hsome := hread []
      rw [hnone, hcore] at hsome
      cases hsome
  · intro hcore ws
    have hnone : ((readAction item).run ws).1 = none := by
      cases haction : ((readAction item).run ws).1 with
      | none => rfl
      | some action =>
        have hsome := hread ws
        rw [haction, hcore] at hsome
        cases hsome
    refine ⟨hnone, ?_⟩
    obtain ⟨-, hcovers⟩ := reads_action item ws
    rw [hnone] at hcovers
    have hself : { item } ∈ bullets item := by
      obtain ⟨text, children, line⟩ := item
      rw [bullets]
      exact List.mem_cons_self
    rcases hcovers.kept _ hself rfl with ⟨node, hnode, -⟩ | ⟨outer, houter, hnamed⟩
    · cases hnode
    · rwa [List.mem_singleton.1 houter] at hnamed

/-- The nodes of what was read, in themselves, are what is read of the bullets. -/
theorem exists_node_iff (items : List Item) (ws : List String) {core : Core} :
    (∃ node ∈ Action.flattenAll ((readActions items).run ws).1, node.core = core) ↔
      ∃ b ∈ bulletsOf items, b.core? = some core := by
  have hmem := (yields_actions items ws).mem_iff (a := core)
  rw [List.mem_map, List.mem_filterMap] at hmem
  exact hmem

end Yields

section Keywords

/-- An option that is read, or its default, and what is done with either. -/
theorem exists_of_default {α β : Type} {o : Option Value} {read : Value → Checked α} {a : α}
    {k : α → Checked β} {b : β} (h : (match o with
      | some v => read v >>= k
      | none => pure a >>= k) = .ok b) : ∃ a, k a = .ok b := by
  cases o with
  | none => exact ⟨a, h⟩
  | some v =>
    obtain ⟨a, -, hk⟩ := exists_of_bind h
    exact ⟨a, hk⟩

/-- Whether a reading gives steps of a keyword alone. -/
def Keyed (keyword : Keyword) (x : Checked Step) : Prop :=
  ∀ leaf, x = .ok leaf → leaf.keyword = keyword

namespace Keyed

variable {α : Type} {keyword : Keyword} {leaf : Step} {x y : Checked Step}

theorem ok (h : leaf.keyword = keyword) : Keyed keyword (.ok leaf) := by
  rintro _ ⟨⟩
  exact h

theorem error (fault : ParseFault) : Keyed keyword (.error fault) := nofun

theorem bind {m : Checked α} {k : α → Checked Step} (h : ∀ a, Keyed keyword (k a)) :
    Keyed keyword (m >>= k) := by
  intro leaf hleaf
  obtain ⟨a, -, hleaf⟩ := exists_of_bind hleaf
  exact h a leaf hleaf

theorem default {o : Option Value} {read : Value → Checked α} {a : α} {k : α → Checked Step}
    (h : ∀ a, Keyed keyword (k a)) : Keyed keyword (match o with
      | some v => read v >>= k
      | none => pure a >>= k) := by
  intro leaf hleaf
  obtain ⟨a, hleaf⟩ := exists_of_default hleaf
  exact h a leaf hleaf

theorem ite {p : Prop} [Decidable p] (hx : Keyed keyword x) (hy : Keyed keyword y) :
    Keyed keyword (if p then x else y) := by
  split
  · exact hx
  · exact hy

end Keyed

/-- A step has the keyword of its head. -/
theorem keyed_stepOf (head : Head) : Keyed head.keyword (stepOf head) := by
  cases hkeyword : head.keyword <;> rw [stepOf, hkeyword] <;> dsimp only
  case read =>
    unfold readStep
    exact .default fun _ => .default fun _ => .bind fun _ => .bind fun _ =>
      .default fun _ => .ok rfl
  case file => exact .ite (.ok rfl) (.error _)
  case fetch => exact .ite (.error _) (.bind fun _ => .bind fun _ => .ok rfl)
  case transform =>
    unfold transformStep
    dsimp only
    split
    · split
      · exact .bind fun _ => .ok rfl
      · exact .ok rfl
    · exact .ok rfl
  case task =>
    exact .bind fun _ => .bind fun _ => .ite (.error _) (.ite (.error _) (.ok rfl))
  case filter | map =>
    split
    · exact .ok rfl
    · exact .error _
  case «if» | foreach => exact .error _
  case shell | date => exact .bind fun _ => .bind fun _ => .ok rfl
  case build | set | extract | append | validate | delay | log | notify =>
    exact .bind fun _ => .ok rfl
  case query | «match» | «return» => exact .ok rfl

end Keywords

end BulletScript.Script
