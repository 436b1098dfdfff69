import BulletScript.Proofs.Outline.Descendants
import BulletScript.Script.Reader
import Mathlib.Data.List.Perm.Subperm
import Mathlib.Tactic.Tauto

/-! What becomes of the bullets of actions. Each is read as an action, or it or one that it stands in is
named in a warning, as long as no error handler on the way to it is followed by another of the same
action; and every action that is read comes from such a bullet. -/
namespace BulletScript.Script

open Outline

/-- The bullet of an action, with those that it stands in. It is kept if no block on the way to it is
written again later. -/
structure Bullet where
  item : Item
  above : List Item := []
  kept : Bool := true

namespace Bullet

def under (outer : Item) (b : Bullet) : Bullet := { b with above := outer :: b.above }

def keptIf (last : Bool) (b : Bullet) : Bullet := { b with kept := last && b.kept }

end Bullet

/-- The word that begins an action. -/
def keyword? (item : Item) : Option Keyword :=
  (keyValue? (Text.trim item.text)).bind fun (key, _) => Keyword.ofText? key

mutual

/-- The bullet of an action and those in its blocks: its error handlers, and the branches or the body
if it has any. -/
def bullets : Item → List Bullet
  | ⟨text, children, line⟩ =>
    let item : Item := ⟨text, children, line⟩
    let inner := if keyword? item = some .if then branchBullets children
      else if keyword? item = some .foreach then bodyBullets children
      else []
    { item } :: (handlerBullets children ++ inner).map (·.under item)

def bulletsOf : List Item → List Bullet
  | [] => []
  | item :: rest => bullets item ++ bulletsOf rest

/-- Those in error handlers. A handler with another behind it is not kept. -/
def handlerBullets : List Item → List Bullet
  | [] => []
  | ⟨text, children, line⟩ :: rest =>
    (if hasKey "onError" ⟨text, children, line⟩ then
      (bulletsOf children).map (·.keptIf (!rest.any (hasKey "onError")))
    else []) ++ handlerBullets rest

def branchBullets : List Item → List Bullet
  | [] => []
  | ⟨text, children, line⟩ :: rest =>
    (if hasKey "onError" ⟨text, children, line⟩ then []
    else if hasKey "else" ⟨text, children, line⟩ then bulletsOf children
    else bullets ⟨text, children, line⟩) ++ branchBullets rest

def bodyBullets : List Item → List Bullet
  | [] => []
  | ⟨text, children, line⟩ :: rest =>
    (if hasKey "onError" ⟨text, children, line⟩ || namesVariable ⟨text, children, line⟩ then []
    else bullets ⟨text, children, line⟩) ++ bodyBullets rest

end

/-- Whether an item is named in a warning: as no action, or as one that is left out. -/
def Named (warnings : List String) (item : Item) : Prop :=
  ∃ w ∈ warnings, headOf item.text item.line = .error w ∨
    ∃ keyword reason, keyword? item = some keyword ∧ w = dropNote keyword item.line reason

/-- Whether a bullet, or one that it stands in, is named in a warning. -/
def Bullet.Named (warnings : List String) (b : Bullet) : Prop :=
  ∃ item ∈ b.item :: b.above, Script.Named warnings item

/-- Whether one of the nodes of some actions stands for an item. -/
def Represented (actions : List Action) (item : Item) : Prop :=
  ∃ node ∈ Action.flattenAll actions, node.line = item.line

/-- What was read from some bullets: each that is kept is an action, or named in a warning, and each
action is one that is kept. -/
structure Covers (actions : List Action) (warnings : List String) (bs : List Bullet) : Prop where
  kept : ∀ b ∈ bs, b.kept = true → Represented actions b.item ∨ b.Named warnings
  source : ∀ node ∈ Action.flattenAll actions, ∃ b ∈ bs, b.kept = true ∧ node.line = b.item.line

section Bullets

variable {item : Item}

theorem mem_bullets_self {b : Bullet} (h : b ∈ bullets item) : item ∈ b.item :: b.above := by
  obtain ⟨text, children, line⟩ := item
  rw [bullets] at h
  rcases List.mem_cons.1 h with rfl | h
  · exact List.mem_cons_self
  · obtain ⟨inner, -, rfl⟩ := List.mem_map.1 h
    simp [Bullet.under]

theorem subperm_preorder (item : Item) : (preorder item.children).Subperm item.preorder := by
  cases item
  rw [Item.preorder]
  exact (List.sublist_cons_self ..).subperm

-- The handlers and the other blocks of an action are read one after the other, so their bullets come
-- in another order than they are written.
mutual

theorem items_bullets : ∀ item : Item, ((bullets item).map (·.item)).Subperm item.preorder
  | ⟨text, children, line⟩ => by
    have hinner : (preorder (children.filter (hasKey "onError")) ++
        preorder (children.filter (!hasKey "onError" ·))).Perm (preorder children) := by
      rw [preorder_eq_flatMap, preorder_eq_flatMap, preorder_eq_flatMap, ← List.flatMap_append]
      exact (List.filter_append_perm _ _).flatMap_right _
    have hitem (inner : List Bullet)
        (h : (inner.map (·.item)).Subperm (preorder (children.filter (!hasKey "onError" ·)))) :
        ((⟨⟨text, children, line⟩, [], true⟩ ::
          (handlerBullets children ++ inner).map (·.under ⟨text, children, line⟩)).map
            (·.item)).Subperm (Item.preorder ⟨text, children, line⟩) := by
      have hall := ((items_handlerBullets children).append h).trans hinner.subperm
      rw [List.map_cons, Item.preorder, List.subperm_cons]
      simpa [Bullet.under, Function.comp_def] using hall
    rw [bullets]
    split
    · exact hitem _ (items_branchBullets children)
    split
    · exact hitem _ (items_bodyBullets children)
    · exact hitem _ (List.nil_subperm)

theorem items_bulletsOf : ∀ items : List Item,
    ((bulletsOf items).map (·.item)).Subperm (preorder items)
  | [] => List.Subperm.refl _
  | item :: rest => by
    rw [bulletsOf, List.map_append, preorder]
    exact (items_bullets item).append (items_bulletsOf rest)

theorem items_handlerBullets : ∀ items : List Item,
    ((handlerBullets items).map (·.item)).Subperm (preorder (items.filter (hasKey "onError")))
  | [] => List.Subperm.refl _
  | ⟨text, children, line⟩ :: rest => by
    have hrest := items_handlerBullets rest
    rw [handlerBullets, List.map_append]
    split
    next herror =>
      have hblock : ((bulletsOf children).map (·.item)).Subperm (Item.preorder ⟨text, children, line⟩) :=
        (items_bulletsOf children).trans (subperm_preorder ⟨text, children, line⟩)
      rw [List.filter_cons_of_pos herror, preorder, List.map_map]
      exact hblock.append hrest
    next herror => rwa [List.filter_cons_of_neg herror]

theorem items_branchBullets : ∀ items : List Item,
    ((branchBullets items).map (·.item)).Subperm (preorder (items.filter (!hasKey "onError" ·)))
  | [] => List.Subperm.refl _
  | ⟨text, children, line⟩ :: rest => by
    have hrest := items_branchBullets rest
    rw [branchBullets, List.map_append]
    split
    next herror => rwa [List.filter_cons_of_neg (by simpa using herror)]
    next herror =>
      rw [List.filter_cons_of_pos (by simpa using herror), preorder]
      refine List.Subperm.append ?_ hrest
      split
      · exact (items_bulletsOf children).trans (subperm_preorder ⟨text, children, line⟩)
      · exact items_bullets ⟨text, children, line⟩

theorem items_bodyBullets : ∀ items : List Item,
    ((bodyBullets items).map (·.item)).Subperm (preorder (items.filter (!hasKey "onError" ·)))
  | [] => List.Subperm.refl _
  | ⟨text, children, line⟩ :: rest => by
    have hrest := items_bodyBullets rest
    rw [bodyBullets, List.map_append]
    by_cases herror : hasKey "onError" ⟨text, children, line⟩ = true
    · rwa [List.filter_cons_of_neg (by simpa using herror), if_pos (by simp [herror])]
    · rw [List.filter_cons_of_pos (by simpa using herror), preorder]
      refine List.Subperm.append ?_ hrest
      split
      · exact List.nil_subperm
      · exact items_bullets ⟨text, children, line⟩

end

end Bullets

section Reading

variable {actions more : List Action} {warnings later : List String} {bs cs : List Bullet}
  {item : Item} {action : Action}

theorem flattenAll_append (xs ys : List Action) :
    Action.flattenAll (xs ++ ys) = Action.flattenAll xs ++ Action.flattenAll ys := by
  induction xs with
  | nil => rfl
  | cons x xs ih => rw [List.cons_append, Action.flattenAll, Action.flattenAll, ih, List.append_assoc]

theorem flattenAll_singleton (action : Action) : Action.flattenAll [action] = action.flatten := by
  simp [Action.flattenAll]

theorem Named.mono (h : Named warnings item) (hle : warnings ⊆ later) : Named later item := by
  obtain ⟨w, hw, hnames⟩ := h
  exact ⟨w, hle hw, hnames⟩

theorem Bullet.Named.mono {b : Bullet} (h : b.Named warnings) (hle : warnings ⊆ later) :
    b.Named later := by
  obtain ⟨item, hitem, hnamed⟩ := h
  exact ⟨item, hitem, Script.Named.mono hnamed hle⟩

namespace Covers

theorem nil (warnings : List String) : Covers [] warnings [] :=
  ⟨List.forall_mem_nil _, List.forall_mem_nil _⟩

theorem mono (h : Covers actions warnings bs) (hle : warnings ⊆ later) : Covers actions later bs :=
  ⟨fun b hb hkept => (h.kept b hb hkept).imp_right (·.mono hle), h.source⟩

theorem append (h : Covers actions warnings bs) (h' : Covers more warnings cs) :
    Covers (actions ++ more) warnings (bs ++ cs) := by
  constructor
  · intro b hb hkept
    rw [Represented, flattenAll_append]
    rcases List.mem_append.1 hb with hb | hb
    · refine (h.kept b hb hkept).imp_left fun ⟨node, hnode, hline⟩ => ?_
      exact ⟨node, List.mem_append_left _ hnode, hline⟩
    · refine (h'.kept b hb hkept).imp_left fun ⟨node, hnode, hline⟩ => ?_
      exact ⟨node, List.mem_append_right _ hnode, hline⟩
  · intro node hnode
    rw [flattenAll_append] at hnode
    rcases List.mem_append.1 hnode with hnode | hnode
    · obtain ⟨b, hb, hkept, hline⟩ := h.source node hnode
      exact ⟨b, List.mem_append_left _ hb, hkept, hline⟩
    · obtain ⟨b, hb, hkept, hline⟩ := h'.source node hnode
      exact ⟨b, List.mem_append_right _ hb, hkept, hline⟩

/-- The same bullets, whichever of them are not kept, and the same nodes. -/
theorem congr (h : Covers actions warnings bs)
    (hnodes : ∀ node, node ∈ Action.flattenAll more ↔ node ∈ Action.flattenAll actions)
    (hbullets : ∀ b, b.kept = true → (b ∈ cs ↔ b ∈ bs)) : Covers more warnings cs := by
  constructor
  · intro b hb hkept
    refine (h.kept b ((hbullets b hkept).1 hb) hkept).imp_left fun ⟨node, hnode, hline⟩ => ?_
    exact ⟨node, (hnodes node).2 hnode, hline⟩
  · intro node hnode
    obtain ⟨b, hb, hkept, hline⟩ := h.source node ((hnodes node).1 hnode)
    exact ⟨b, (hbullets b hkept).2 hb, hkept, hline⟩

/-- An action that is left out is named, and so are all in it. -/
theorem named (h : Named warnings item) : Covers [] warnings (bullets item) :=
  ⟨fun _ hb _ => .inr ⟨item, mem_bullets_self hb, h⟩, List.forall_mem_nil _⟩

/-- An action, with what is in its blocks. -/
theorem under (h : Covers actions warnings bs) (hline : action.line = item.line)
    (hnodes : ∀ node, node ∈ action.flatten ↔ node = action ∨ node ∈ Action.flattenAll actions) :
    Covers [action] warnings ({ item } :: bs.map (·.under item)) := by
  constructor
  · intro b hb hkept
    rw [Represented, flattenAll_singleton]
    rcases List.mem_cons.1 hb with rfl | hb
    · exact .inl ⟨action, (hnodes action).2 (.inl rfl), hline⟩
    · obtain ⟨inner, hinner, rfl⟩ := List.mem_map.1 hb
      rcases h.kept inner hinner hkept with ⟨node, hnode, hline⟩ | ⟨outer, houter, hnamed⟩
      · exact .inl ⟨node, (hnodes node).2 (.inr hnode), hline⟩
      · refine .inr ⟨outer, ?_, hnamed⟩
        rcases List.mem_cons.1 houter with rfl | houter
        · exact List.mem_cons_self
        · exact List.mem_cons_of_mem _ (List.mem_cons_of_mem _ houter)
  · intro node hnode
    rw [flattenAll_singleton] at hnode
    rcases (hnodes node).1 hnode with rfl | hnode
    · exact ⟨{ item }, List.mem_cons_self, rfl, hline⟩
    · obtain ⟨b, hb, hkept, hline⟩ := h.source node hnode
      exact ⟨b.under item, List.mem_cons_of_mem _ (List.mem_map_of_mem hb), hkept, hline⟩

end Covers

theorem keyword?_of_headOf {text value : String} {line : Option Nat} {keyword : Keyword}
    {pairs : Record} (h : headOf text line = .ok (keyword, value, pairs)) (children : List Item) :
    keyword? ⟨text, children, line⟩ = some keyword := by
  rw [headOf] at h
  dsimp only at h
  split at h
  · cases h
  next hkey =>
    split at h
    · cases h
    next hkeyword =>
      obtain ⟨rfl, -⟩ := Prod.mk.inj (Except.ok.inj h)
      simp [keyword?, hkey, hkeyword]

/-- A reading from which bullets come, whatever was warned of before. -/
def Reads {α : Type} (m : Reading α) (actionsOf : α → List Action) (bs : List Bullet) : Prop :=
  ∀ ws, ws ⊆ (m.run ws).2 ∧ Covers (actionsOf (m.run ws).1) (m.run ws).2 bs

theorem Reading.run_bind {α β : Type} (m : Reading α) (k : α → Reading β) (ws : List String) :
    (m >>= k).run ws = (k (m.run ws).1).run (m.run ws).2 := rfl

theorem exists_of_bind {α β : Type} {x : Checked α} {f : α → Checked β} {b : β}
    (h : (x >>= f) = .ok b) : ∃ a, x = .ok a ∧ f a = .ok b := by
  cases x with
  | error => cases h
  | ok a => exact ⟨a, rfl, h⟩

/-- What two readings make of their bullets, one after the other. -/
theorem Reads.both {α β : Type} {m : Reading α} {n : Reading β} {f : α → List Action}
    {g : β → List Action} (hm : Reads m f bs) (hn : Reads n g cs) (ws : List String) :
    let second := n.run (m.run ws).2
    ws ⊆ second.2 ∧ Covers (f (m.run ws).1 ++ g second.1) second.2 (bs ++ cs) := by
  obtain ⟨hle, hm⟩ := hm ws
  obtain ⟨hle', hn⟩ := hn (m.run ws).2
  exact ⟨List.Subset.trans hle hle', (hm.mono hle').append hn⟩

/-- Two readings, the results of which are put together. -/
theorem Reads.join {α β γ : Type} {m : Reading α} {n : Reading β} {f : α → List Action}
    {g : β → List Action} {out : γ → List Action} {k : α → β → Reading γ} (hm : Reads m f bs)
    (hn : Reads n g cs) (hk : ∀ a b, ∃ c, k a b = pure c ∧ ∀ node,
      node ∈ Action.flattenAll (out c) ↔ node ∈ Action.flattenAll (f a ++ g b)) :
    Reads (m >>= fun a => n >>= k a) out (bs ++ cs) := by
  intro ws
  obtain ⟨hle, hcovers⟩ := hm.both hn ws
  obtain ⟨c, hpure, hnodes⟩ := hk (m.run ws).1 (n.run (m.run ws).2).1
  rw [Reading.run_bind, Reading.run_bind, hpure]
  exact ⟨hle, hcovers.congr hnodes fun _ _ => Iff.rfl⟩

/-- An action whose blocks are read one after the other. -/
theorem Reads.under {β : Type} {m : Reading (List Action)} {n : Reading β} {g : β → List Action}
    {k : List Action → β → Reading (Option Action)} (hm : Reads m id bs) (hn : Reads n g cs)
    (hk : ∀ h b, ∃ action, k h b = pure (some action) ∧ action.line = item.line ∧
      ∀ node, node ∈ action.flatten ↔ node = action ∨ node ∈ Action.flattenAll (h ++ g b)) :
    Reads (m >>= fun h => n >>= k h) Option.toList
      ({ item } :: (bs ++ cs).map (·.under item)) := by
  intro ws
  obtain ⟨hle, hcovers⟩ := hm.both hn ws
  obtain ⟨action, hpure, hline, hnodes⟩ := hk (m.run ws).1 (n.run (m.run ws).2).1
  rw [Reading.run_bind, Reading.run_bind, hpure]
  exact ⟨hle, hcovers.under hline hnodes⟩

/-- An action that is left out once its handlers are read. -/
theorem Reads.dropped {m : Reading (List Action)} {keyword : Keyword} (hm : Reads m id bs)
    (h : keyword? item = some keyword) (reason : String) :
    Reads (m >>= fun _ => do warn (dropNote keyword item.line reason); return none) Option.toList
      (bullets item) := by
  intro ws
  obtain ⟨hle, -⟩ := hm ws
  have hnamed : Named ((m.run ws).2 ++ [dropNote keyword item.line reason]) item :=
    ⟨_, List.mem_append_right _ (List.mem_singleton.2 rfl), .inr ⟨keyword, reason, h, rfl⟩⟩
  exact ⟨List.Subset.trans hle (List.subset_append_left ..), .named hnamed⟩

section Blocks

variable {text : String} {children : List Item} {line : Option Nat}

theorem handlerBullets_eq_nil {items : List Item} (h : items.any (hasKey "onError") = false) :
    handlerBullets items = [] := by
  induction items with
  | nil => rfl
  | cons item rest ih =>
    obtain ⟨text, children, line⟩ := item
    obtain ⟨herror, hrest⟩ := Bool.or_eq_false_iff.1 h
    rw [handlerBullets, herror, ih hrest]
    rfl

theorem mem_flatten_branch (condition : String) (yes no onError : List Action) (line : Option Nat)
    (node : Action) : node ∈ (Action.branch condition yes no onError line).flatten ↔
      node = .branch condition yes no onError line ∨
        node ∈ Action.flattenAll (onError ++ (yes ++ no)) := by
  rw [Action.flatten, List.mem_cons]
  simp only [flattenAll_append, List.mem_append]
  tauto

theorem mem_flatten_loop (items : String) (itemName : Value) (indexName : Option Value)
    (body onError : List Action) (line : Option Nat) (node : Action) :
    node ∈ (Action.loop items itemName indexName body onError line).flatten ↔
      node = .loop items itemName indexName body onError line ∨
        node ∈ Action.flattenAll (onError ++ body) := by
  rw [Action.flatten, List.mem_cons]
  simp only [flattenAll_append, List.mem_append]
  tauto

/-- An action is read with what is in its blocks, or left out with a warning. -/
theorem reads_action_of (hhandler : Reads (readHandler [] children) id (handlerBullets children))
    (hbranches : Reads (readBranches false children) (fun r => r.1 ++ r.2) (branchBullets children))
    (hbody : Reads (readBody children) id (bodyBullets children)) :
    Reads (readAction ⟨text, children, line⟩) Option.toList (bullets ⟨text, children, line⟩) := by
  cases hhead : headOf text line with
  | error w =>
    rw [readAction, hhead]
    refine fun ws => ⟨List.subset_append_left .., .named ⟨w, ?_, .inl hhead⟩⟩
    exact List.mem_append_right _ (List.mem_singleton.2 rfl)
  | ok head =>
    obtain ⟨keyword, value, pairs⟩ := head
    have hkeyword := keyword?_of_headOf hhead children
    rw [readAction, hhead]
    dsimp only
    split
    · rw [bullets, if_pos hkeyword]
      exact hhandler.under hbranches fun h (yes, no) =>
        ⟨_, rfl, rfl, mem_flatten_branch value yes no h line⟩
    · split
      · exact hhandler.dropped hkeyword _
      next items _ =>
        rw [bullets, if_neg (by simp [hkeyword]), if_pos hkeyword]
        exact hhandler.under hbody fun h body =>
          ⟨_, rfl, rfl, mem_flatten_loop items _ _ body h line⟩
    next hif hforeach =>
      split
      · exact hhandler.dropped hkeyword _
      · rw [bullets, if_neg (by simpa [hkeyword] using hif),
          if_neg (by simpa [hkeyword] using hforeach), List.append_nil]
        intro ws
        obtain ⟨hle, hcovers⟩ := hhandler ws
        refine ⟨hle, hcovers.under rfl fun node => ?_⟩
        rw [Action.flatten, List.mem_cons]
        rfl

end Blocks

mutual

theorem reads_action : ∀ item : Item, Reads (readAction item) Option.toList (bullets item)
  | ⟨text, children, line⟩ => by
    refine reads_action_of (fun ws => ?_) (reads_branches false children) (reads_body children)
    obtain ⟨hle, hcovers⟩ := reads_handler [] children ws
    refine ⟨hle, ?_⟩
    split at hcovers
    · exact hcovers
    next hnone =>
      rw [id, hcovers, handlerBullets_eq_nil (Bool.eq_false_iff.2 hnone)]
      exact .nil _

theorem reads_actions : ∀ items : List Item, Reads (readActions items) id (bulletsOf items)
  | [] => fun ws => ⟨List.Subset.refl _, .nil _⟩
  | item :: rest => by
    rw [readActions, bulletsOf]
    exact (reads_action item).join (reads_actions rest) fun _ _ => ⟨_, rfl, fun _ => Iff.rfl⟩

/-- The last error handler is read as its actions, and the others are not kept. -/
theorem reads_handler (handler : List Action) : ∀ (items : List Item) (ws : List String),
    ws ⊆ ((readHandler handler items).run ws).2 ∧
      if items.any (hasKey "onError") then
        Covers ((readHandler handler items).run ws).1 ((readHandler handler items).run ws).2
          (handlerBullets items)
      else ((readHandler handler items).run ws).1 = handler
  | [], ws => ⟨List.Subset.refl _, rfl⟩
  | ⟨text, children, line⟩ :: rest, ws => by
    rw [readHandler, handlerBullets, List.any_cons]
    split
    next herror =>
      obtain ⟨hle, hblock⟩ := reads_actions children ws
      obtain ⟨hle', hrest⟩ := reads_handler ((readActions children).run ws).1 rest
        ((readActions children).run ws).2
      rw [Reading.run_bind, herror, Bool.true_or, if_pos rfl]
      refine ⟨List.Subset.trans hle hle', ?_⟩
      cases hlast : rest.any (hasKey "onError") with
      | true =>
        rw [hlast, if_pos rfl] at hrest
        refine hrest.congr (fun _ => Iff.rfl) fun b hkept => ?_
        rw [List.mem_append, or_iff_right]
        intro hb
        obtain ⟨inner, -, rfl⟩ := List.mem_map.1 hb
        cases hkept
      | false =>
        rw [hlast, if_neg Bool.false_ne_true] at hrest
        rw [hrest, handlerBullets_eq_nil hlast, List.append_nil]
        simpa [Bullet.keptIf] using hblock.mono hle'
    next herror =>
      rw [Bool.eq_false_iff.2 herror, Bool.false_or, List.nil_append]
      exact reads_handler handler rest ws

theorem reads_branches (inElse : Bool) : ∀ items : List Item,
    Reads (readBranches inElse items) (fun r => r.1 ++ r.2) (branchBullets items)
  | [] => fun ws => ⟨List.Subset.refl _, .nil _⟩
  | ⟨text, children, line⟩ :: rest => by
    rw [readBranches, branchBullets]
    split
    · exact reads_branches inElse rest
    split
    · refine (reads_actions children).join (reads_branches true rest) fun actions (yes, no) => ?_
      refine ⟨_, rfl, fun node => ?_⟩
      simp only [id, flattenAll_append, List.mem_append]
      tauto
    · refine (reads_action ⟨text, children, line⟩).join (reads_branches inElse rest)
        fun action (yes, no) => ?_
      refine ⟨_, rfl, fun node => ?_⟩
      cases inElse <;> simp only [Bool.false_eq_true, if_true, if_false, flattenAll_append,
        List.mem_append] <;> tauto

theorem reads_body : ∀ items : List Item, Reads (readBody items) id (bodyBullets items)
  | [] => fun ws => ⟨List.Subset.refl _, .nil _⟩
  | ⟨text, children, line⟩ :: rest => by
    rw [readBody, bodyBullets]
    split
    · exact reads_body rest
    · exact (reads_action ⟨text, children, line⟩).join (reads_body rest) fun _ _ =>
        ⟨_, rfl, fun _ => Iff.rfl⟩

end

end Reading

end BulletScript.Script
