import BulletScript.Proofs.Script.Origins
import BulletScript.Proofs.Text.Search

/-! The lines that a transform writes below another. They have the shape of the items below its
bullet, but not always their texts: the bullet of an item is cut off when the outline is read, and
then a character like a bullet once more, whether or not a blank is behind it. -/
namespace BulletScript.Script

open Outline Text

section Items

/-- Items without a first one that names the mode of a transform. -/
def withoutMode : List Item → List Item
  | first :: rest => if hasKey "mode" first then rest else first :: rest
  | [] => []

/-- The items that a transform writes: those below it, without its error handlers and its mode. -/
def childItems (item : Item) : List Item :=
  withoutMode (item.children.filter (!hasKey "onError" ·))

/-- Templates in the shape of items, each as deep as its indent says, with a relation between them. -/
inductive Corresponds (R : Item → ChildTemplate → Prop) :
    Nat → List Item → List ChildTemplate → Prop
  | nil {depth : Nat} : Corresponds R depth [] []
  | cons {depth : Nat} {item : Item} {rest : List Item} {t : ChildTemplate}
    {ts : List ChildTemplate} : R item t → t.indent = depth →
    Corresponds R (depth + 1) item.children t.children → Corresponds R depth rest ts →
    Corresponds R depth (item :: rest) (t :: ts)

/-- A bullet with a blank behind it, as it begins the line of an item. -/
def IsMarked (text : String) : Prop :=
  ∃ c d rest, text.toList = c :: d :: rest ∧ isBullet c = true ∧ isBlank d = true

/-- A character like a bullet without a blank behind it. -/
def IsClipped (text : String) : Prop :=
  ∃ c rest, text.toList = c :: rest ∧ isBullet c = true ∧ ∀ d ∈ rest.head?, isBlank d = false

/-- A template with the whole text of an item, unless that begins with a bullet itself. -/
def KeepsText (item : Item) (t : ChildTemplate) : Prop :=
  ¬IsMarked item.text → t.template = Template.clean item.text

end Items

section Texts

variable {p : Char → Bool} {depth : Nat}

/-- What is neither a blank nor a backtick is as often in a text when it is cleaned. -/
theorem countP_clean (hblank : ∀ c, isBlank c → p c = false) (htick : p '\x60' = false)
    (s : String) : (Template.clean s).toList.countP p = s.toList.countP p := by
  have hlast (cs : List Char) :
      (if cs.getLast? = some '\x60' then cs.dropLast else cs).countP p = cs.countP p := by
    split
    next hlast =>
      have hne : cs ≠ [] := by
        rintro rfl
        cases hlast
      have hback : cs.getLast hne = '\x60' := by
        rw [List.getLast?_eq_some_getLast hne] at hlast
        exact Option.some.inj hlast
      conv => rhs; rw [← List.dropLast_append_getLast hne, List.countP_append, hback]
      simp [htick]
    · rfl
  have htrim := countP_trimChars hblank s.toList
  rw [Template.clean, String.toList_ofList, countP_trimChars hblank, hlast, ← htrim]
  split
  next rest hrest => simp [hrest, htick]
  · rfl

/-- A text without a character of its own is another when it is cleaned. -/
theorem clean_cons_ne {c : Char} (hblank : isBlank c = false) (htick : c ≠ '\x60')
    (cs : List Char) :
    Template.clean (.ofList (c :: cs)) ≠ Template.clean (.ofList cs) := by
  intro heq
  have hcount := congrArg (fun s : String => s.toList.countP fun d => !isBlank d && d != '\x60') heq
  have hp : ∀ c, isBlank c → (!isBlank c && c != '\x60') = false := fun c hc => by simp [hc]
  rw [countP_clean hp rfl, countP_clean hp rfl, String.toList_ofList,
    String.toList_ofList] at hcount
  simp [hblank, htick] at hcount

theorem plain_of_isBullet {c : Char} (h : isBullet c = true) : isBlank c = false ∧ c ≠ '\x60' := by
  simp only [isBullet, Bool.or_eq_true, decide_eq_true_eq] at h
  rcases h with (rfl | rfl) | rfl <;> decide

/-- The text of an item is kept if and only if nothing is clipped off it. -/
theorem keepsText_iff (depth : Nat) (item : Item) :
    KeepsText item (childTemplate depth item) ↔ ¬IsClipped item.text := by
  obtain ⟨text, children, line⟩ := item
  rw [KeepsText, childTemplate]
  dsimp only
  cases htext : text.toList with
  | nil => exact iff_of_true (fun _ => rfl) fun ⟨c, rest, h, _⟩ => by simp [htext] at h
  | cons c rest =>
    have htext' : text = .ofList (c :: rest) := by rw [← htext, String.ofList_toList]
    dsimp only
    by_cases hc : isBullet c = true
    · obtain ⟨hblank, htick⟩ := plain_of_isBullet hc
      rw [if_pos hc]
      by_cases hclipped : ∀ d ∈ rest.head?, isBlank d = false
      · -- the character is missing
        have hdrop : rest.dropWhile isBlank = rest := by
          cases rest with
          | nil => rfl
          | cons d rest => simp [hclipped d rfl]
        refine iff_of_false (fun hkeeps => ?_) (not_not_intro ⟨c, rest, htext, hc, hclipped⟩)
        rw [hdrop, htext'] at hkeeps
        refine clean_cons_ne hblank htick rest (hkeeps ?_).symm
        rintro ⟨c', d, rest', h, -, hd⟩
        rw [String.toList_ofList] at h
        obtain ⟨rfl, rfl⟩ := List.cons.inj h
        rw [hclipped d rfl] at hd
        cases hd
      · simp only [not_forall, Bool.not_eq_false] at hclipped
        obtain ⟨d, hhead, hd⟩ := hclipped
        obtain ⟨rest, rfl⟩ : ∃ more, rest = d :: more := by
          cases rest with
          | nil => cases hhead
          | cons e more => exact ⟨more, by rw [Option.some.inj hhead]⟩
        refine iff_of_true (fun hmarked => absurd ⟨c, d, rest, htext, hc, hd⟩ hmarked) ?_
        rintro ⟨c', rest', h, -, hplain⟩
        rw [htext] at h
        obtain ⟨rfl, rfl⟩ := List.cons.inj h
        rw [hplain d rfl] at hd
        cases hd
    · rw [if_neg hc]
      refine iff_of_true (fun _ => rfl) ?_
      rintro ⟨c', rest', h, hc', -⟩
      rw [htext] at h
      obtain ⟨rfl, rfl⟩ := List.cons.inj h
      exact hc hc'

/-- The templates of items correspond to them in shape, and in more if every item is as it takes. -/
theorem corresponds_childTemplates {R : Item → ChildTemplate → Prop} {P : Item → Prop}
    (hR : ∀ depth item, R item (childTemplate depth item) ↔ P item) (depth : Nat)
    (items : List Item) :
    Corresponds R depth items (childTemplates depth items) ↔ ∀ item ∈ preorder items, P item := by
  cases items with
  | nil =>
    rw [childTemplates]
    exact iff_of_true .nil (List.forall_mem_nil _)
  | cons item rest =>
    obtain ⟨text, children, line⟩ := item
    have hbelow := corresponds_childTemplates hR (depth + 1) children
    have hrest := corresponds_childTemplates hR depth rest
    rw [preorder, Item.preorder, List.forall_mem_append, List.forall_mem_cons, ← hrest, ← hbelow,
      ← hR depth, childTemplates]
    have hchildren : (childTemplate depth ⟨text, children, line⟩).children =
        childTemplates (depth + 1) children := by rw [childTemplate]
    have hindent : (childTemplate depth ⟨text, children, line⟩).indent = depth := by
      rw [childTemplate]
    rw [← hchildren]
    constructor
    · rintro (_ | ⟨hitem, -, hbelow, hrest⟩)
      exact ⟨⟨hitem, hbelow⟩, hrest⟩
    · rintro ⟨⟨hitem, hbelow⟩, hrest⟩
      exact .cons hitem hindent hbelow hrest

end Texts

section Transforms

variable {item : Item} {head : Head} {leaf : Step} {template : Option String} {mode : TransformMode}
  {cs : List ChildTemplate}

/-- A transform that is read writes the items below it. -/
theorem exists_mode (h : transformStep head = .ok leaf) : ∃ mode,
    leaf = .transform (nonEmpty? head.value) mode
      (childTemplates 0 (withoutMode head.children)) := by
  unfold transformStep at h
  dsimp only at h
  cases hchildren : head.children with
  | nil =>
    rw [hchildren] at h
    cases h
    exact ⟨_, rfl⟩
  | cons first rest =>
    rw [hchildren] at h
    dsimp only at h
    split at h
    next value hvalue =>
      obtain ⟨mode, -, h⟩ := exists_of_bind h
      cases h
      have hmode : hasKey "mode" first = true := by simp [hasKey, hvalue]
      exact ⟨mode, by rw [withoutMode, if_pos hmode]⟩
    next hvalue =>
      cases h
      have hmode : ¬hasKey "mode" first = true := by
        cases hfound : keyValue? first.text with
        | none => simp [hasKey, hfound]
        | some pair =>
          obtain ⟨key, value⟩ := pair
          have hkey : key ≠ "mode" := by
            rintro rfl
            exact hvalue value hfound
          simpa [hasKey, hfound] using hkey
      exact ⟨.replace, by rw [withoutMode, if_neg hmode]⟩

theorem eq_childTemplates
    (h : coreFor? item = some (.step (.transform template mode cs))) :
    cs = childTemplates 0 (childItems item) := by
  obtain ⟨head, hhead, hcore⟩ := Option.bind_eq_some_iff.1 h
  obtain ⟨⟨keyword, value, pairs⟩, -, rfl⟩ := Option.map_eq_some_iff.1 hhead
  have hstep := stepOf_of_core? hcore
  have hkeyword := keyed_stepOf _ _ hstep
  rw [stepOf, ← hkeyword] at hstep
  obtain ⟨mode', hleaf⟩ := exists_mode hstep
  cases hleaf
  rfl

/-- The children of a transform that is read have the shape of the items below its bullet, each as deep
as its indent says; and they keep the texts of these if and only if nothing is clipped off any. -/
theorem child_texts_kept_iff (items : List Item) (ws : List String) :
    (∀ node ∈ Action.flattenAll ((readActions items).run ws).1, ∀ template mode cs,
      node.core = .step (.transform template mode cs) →
        ∃ b ∈ bulletsOf items, b.core? = some node.core) ∧
    ∀ b ∈ bulletsOf items, ∀ template mode cs,
      b.core? = some (.step (.transform template mode cs)) →
        (∃ node ∈ Action.flattenAll ((readActions items).run ws).1,
          node.core = .step (.transform template mode cs)) ∧
        Corresponds (fun _ _ => True) 0 (childItems b.item) cs ∧
        (Corresponds KeepsText 0 (childItems b.item) cs ↔
          ∀ item ∈ preorder (childItems b.item), ¬IsClipped item.text) := by
  refine ⟨fun node hnode _ _ _ _ => (exists_node_iff items ws).1 ⟨node, hnode, rfl⟩, ?_⟩
  intro b hb template mode cs hcore
  refine ⟨(exists_node_iff items ws).2 ⟨b, hb, hcore⟩, ?_⟩
  rw [Bullet.core?] at hcore
  split at hcore
  · rw [eq_childTemplates hcore]
    constructor
    · exact (corresponds_childTemplates (fun _ _ => Iff.rfl) 0 _).2 fun _ _ => trivial
    · exact corresponds_childTemplates keepsText_iff 0 _
  · cases hcore

/-- A transform with a mode, and with two lines, one below the other. -/
def listing : Item :=
  ⟨"transform: T", [⟨"mode: append", [], some 1⟩, ⟨"list", [⟨"x", [], some 3⟩], some 2⟩], some 0⟩

theorem child_texts_kept_listing : ∃ template mode cs,
    Bullet.core? { item := listing } = some (.step (.transform template mode cs)) ∧
      Corresponds KeepsText 0 (childItems listing) cs := by
  have hread : (Bullet.core? { item := listing }).any
      (fun | .step (.transform ..) => true | _ => false) = true := by
    decide +kernel
  obtain ⟨template, mode, cs, hcore⟩ : ∃ template mode cs,
      Bullet.core? { item := listing } = some (.step (.transform template mode cs)) := by
    revert hread
    cases Bullet.core? { item := listing } with
    | none => nofun
    | some core => cases core with
      | step leaf => cases leaf <;> simp
      | branch | loop => nofun
  have hmem : ({ item := listing } : Bullet) ∈ bulletsOf [listing] := by
    rw [bulletsOf, listing, bullets]
    exact List.mem_append_left _ (List.mem_cons_self ..)
  refine ⟨template, mode, cs, hcore, ?_⟩
  have hkept := ((child_texts_kept_iff [listing] []).2 _ hmem template mode cs hcore).2.2
  have hitems : (preorder (childItems listing)).map (·.text) = ["list", "x"] := by decide +kernel
  refine hkept.2 fun item hitem => ?_
  have htext := hitems ▸ List.mem_map_of_mem hitem
  rintro ⟨c, rest, h, hc, -⟩
  have hbullet : (item.text.toList.head?.any isBullet) = true := by rw [h]; exact hc
  revert hbullet
  generalize item.text = text at htext
  revert text
  decide

/-- The bullet of a line is cut off once; its text still begins with a character like one, without a
blank. -/
def emphasis : String := "- transform: T\n    - **bold** x"

theorem emphasis_clipped :
    (preorder (Outline.ofText emphasis)).map (·.text) = ["transform: T", "**bold** x"] ∧
      ¬IsMarked "**bold** x" ∧ Template.clean "**bold** x" = "**bold** x" ∧
      ((readActions (Outline.ofText emphasis)).run []).1.map (fun action => match action.core with
        | .step (.transform _ _ cs) => cs.map (·.template)
        | _ => []) = [["*bold** x"]] := by
  refine ⟨by decide +kernel, ?_, by decide +kernel, by decide +kernel⟩
  rintro ⟨c, d, rest, h, -, hd⟩
  have hsecond : d = '*' := (Option.some.inj (congrArg (·[1]?) h)).symm
  rw [hsecond] at hd
  cases hd

end Transforms

end BulletScript.Script
