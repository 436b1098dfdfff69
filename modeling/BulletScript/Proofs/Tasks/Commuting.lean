import BulletScript.Proofs.Tasks.Appending

/-! Edits of two items of one document that add lines below them. Edited first, the lower item
leaves the other where it was. Edited first, the upper item moves the other, and both edits only
commute if the other is found again. -/
namespace BulletScript.Tasks

open Text Outline Files

/-- The document of two items once both were edited, one after the other. -/
def Editor.afterBoth (editor : Editor) (tree : Tree) (first second : WorkItem × Update) :
    Result String := do
  let (_, edited) := editor.update tree first.1 first.2
  let (_, edited) := editor.update (← edited) second.1 second.2
  editor.store.read (← edited) second.1.path

/-- Lines with others behind the line at an index. -/
def putBehind (ls : List String) (index : Nat) (added : List String) : List String :=
  ls.take (index + 1) ++ added ++ ls.drop (index + 1)

variable {unit s line : String} {before after added below : List String}
  {children : List ChildLine} {width : Nat}

/-- Lines at the end of a block are behind its last line. -/
theorem putBehind_blockEnd (before after : List String) (line : String) (added : List String) :
    putBehind (before ++ line :: after) (blockEnd (before ++ line :: after) before.length) added =
      before ++ line :: extendBlock (indentWidth line) added after := by
  rw [putBehind, drop_blockEnd_append, blockEnd_append, Nat.add_assoc, List.take_length_add_append,
    List.take_succ_cons, extendBlock]
  simp

theorem Editor.afterBoth_eq {editor : Editor} {tree tree₁ tree₂ : Tree}
    {first second item₁ item₂ : WorkItem} {u v : Update}
    (hfirst : editor.update tree first u = (item₁, .ok tree₁))
    (hsecond : editor.update tree₁ second v = (item₂, .ok tree₂)) :
    editor.afterBoth tree (first, u) (second, v) = editor.store.read tree₂ second.path := by
  simp only [afterBoth, hfirst, hsecond, bind, Except.bind]

theorem length_append_cons (before between : List String) (line : String) :
    (before ++ line :: between).length = before.length + 1 + between.length := by
  rw [List.length_append, List.length_cons]
  omega

/-- Where lines were put, if other lines were put further down with the same outcome. -/
theorem getElem?_of_inserted {α : Type} {p q : Nat} {xs ys zs : List α} {y : α} (hpq : p < q)
    (hq : q ≤ xs.length)
    (h : xs.take p ++ (y :: ys) ++ xs.drop p = xs.take q ++ zs ++ xs.drop q) :
    xs[p]? = some y := by
  have hp : (xs.take p).length = p := by rw [List.length_take]; omega
  have hleft : (xs.take p ++ (y :: ys) ++ xs.drop p)[p]? = some y := by
    rw [List.append_assoc, List.getElem?_append_right (by omega), hp]
    simp
  rw [h, List.append_assoc, List.getElem?_append_left (by rw [List.length_take]; omega),
    List.getElem?_take_of_lt hpq] at hleft
  exact hleft

/-- The line behind a block is not one that is put at its end. -/
theorem getElem?_bodyLength_ne (h : isBlankText line = false ∧ width < indentWidth line) :
    below[bodyLength width below]? ≠ some line := by
  intro hget
  have hdrop : below.drop (bodyLength width below) =
      line :: below.drop (bodyLength width below + 1) := by
    obtain ⟨hlt, rfl⟩ := List.getElem?_eq_some_iff.1 hget
    exact List.drop_eq_getElem_cons hlt
  have hzero := bodyLength_drop width below
  rw [hdrop, bodyLength_cons h.1 h.2] at hzero
  cases hzero

/-- Lines put at the end of the block of a line above are elsewhere than lines put at the end of
the block of a line further down, as they are indented by the line they are put below. -/
theorem extendBlock_ne {upper lower : String} (hunit : IndentUnit unit) (hne : children ≠ [])
    (hchildren : ∀ child ∈ children, child.Nested) (hlower : isBlankText lower = false) :
    extendBlock (indentWidth upper) (rendered unit upper children)
        (before ++ lower :: after) ≠
      before ++ lower :: extendBlock (indentWidth lower)
        (rendered unit lower children) after := by
  obtain ⟨child, more, rfl⟩ := List.exists_cons_of_ne_nil hne
  have hchild : child.Nested := hchildren child (by simp)
  let p := bodyLength (indentWidth upper) (before ++ lower :: after)
  let q := before.length + (bodyLength (indentWidth lower) after + 1)
  have hp : p ≤ (before ++ lower :: after).length := bodyLength_le _ _
  have hq : q ≤ (before ++ lower :: after).length := by
    have := bodyLength_le (indentWidth lower) after
    simp only [q, List.length_append, List.length_cons]
    omega
  have hright (added : List String) :
      before ++ lower :: extendBlock (indentWidth lower) added after =
        (before ++ lower :: after).take q ++ added ++ (before ++ lower :: after).drop q := by
    rw [List.take_length_add_append, List.take_succ_cons, List.drop_length_add_append,
      List.drop_succ_cons]
    simp [extendBlock]
  rw [hright, extendBlock, rendered, rendered, List.map_cons, List.map_cons]
  intro heq
  rcases Nat.lt_trichotomy p q with hlt | hpq | hgt
  · exact getElem?_bodyLength_ne (hchild.inside hunit upper) (getElem?_of_inserted hlt hq heq)
  · -- the lines are at one place, so the upper block has the lower line in it
    have hinside : before.length < p := by omega
    have hdeeper := ((lt_bodyLength_iff hlower).1 hinside).2
    change List.take p _ ++ _ ++ List.drop p _ = _ at heq
    rw [hpq, List.append_left_inj, List.append_right_inj] at heq
    have hblanks : leadingBlanks upper = leadingBlanks lower := by
      have hline := congrArg String.toList (List.cons.inj heq).1
      simp only [ChildLine.line, String.toList_append, List.append_assoc,
        List.append_left_inj] at hline
      exact String.toList_injective hline
    rw [indentWidth, indentWidth, hblanks] at hdeeper
    exact Nat.lt_irrefl _ hdeeper
  · have hget := getElem?_of_inserted hgt hp heq.symm
    rw [List.getElem?_append_right (by omega), Nat.add_sub_cancel_left,
      List.getElem?_cons_succ] at hget
    exact getElem?_bodyLength_ne (hchild.inside hunit lower) hget

/-- The lines of a document with lines put at the end of the blocks of two of its lines. -/
def extendBoth (unit : String) (before : List String) (upper : String) (xs : List ChildLine)
    (between : List String) (lower : String) (ys : List ChildLine) (after : List String) :
    List String :=
  before ++ upper :: (extendBlock (indentWidth upper) (rendered unit upper xs) between ++
    lower :: extendBlock (indentWidth lower) (rendered unit lower ys) after)

section Pair

variable {editor : Editor} {tree : Tree} {path upper lower : String}
  {between : List String} {a b : WorkItem} {xs ys : List ChildLine}
  (h : Holds editor.store tree path (before ++ upper :: (between ++ lower :: after)))
  (ha : WorkItem.ofLine? upper path before.length = some a)
  (hb : WorkItem.ofLine? lower path (before.length + 1 + between.length : Nat) = some b)
  (hapart : bodyLength (indentWidth upper) (between ++ lower :: after) ≤ between.length)
  (hunit : IndentUnit editor.indentUnit)
  (hxs : ∀ child ∈ xs, child.Single) (hys : ∀ child ∈ ys, child.Single)

include h ha hb hapart hunit hxs hys in
/-- Where the lower item is edited first, each line is put below its own item. -/
theorem afterBoth_lower_first :
    let ls := extendBoth editor.indentUnit before upper xs between lower ys after
    editor.afterBoth tree (b, appending ys) (a, appending xs) = .ok (unlines ls) ∧
      lines (unlines ls) = ls := by
  intro ls
  obtain ⟨hapath, haline, hatext, halist⟩ := ofLine?_eq_some ha
  obtain ⟨hbpath, hbline, hbtext, hblist⟩ := ofLine?_eq_some hb
  obtain ⟨_, hbullet⟩ := Option.isSome_iff_exists.1 hblist
  have hlower := not_isBlankText_of_bullet hbullet
  rw [show before ++ upper :: (between ++ lower :: after) =
    (before ++ upper :: between) ++ lower :: after by simp, ← hbpath] at h
  obtain ⟨_, tree₁, hfirst, h₁⟩ := h.update_appending_list
    (locate_append (by rw [hbline, length_append_cons]) hbtext.symm) hblist hunit hys
  rw [List.append_assoc, List.cons_append, hbpath, ← hapath] at h₁
  obtain ⟨_, tree₂, hsecond, h₂⟩ := h₁.update_appending_list
    (locate_append haline hatext.symm) halist hunit hxs
  rw [extendBlock_append hlower hapart] at h₂
  rw [Editor.afterBoth_eq hfirst hsecond]
  exact ⟨h₂.read, h₂.split⟩

include h ha hapart hunit hxs in
/-- The document once the upper item was edited. -/
theorem exists_edited_upper (hlower : isBlankText lower = false) :
    ∃ item tree₁, editor.update tree a (appending xs) = (item, .ok tree₁) ∧
      Holds editor.store tree₁ path (before ++ upper ::
        extendBlock (indentWidth upper) (rendered editor.indentUnit upper xs) between ++
        lower :: after) := by
  obtain ⟨hapath, haline, hatext, halist⟩ := ofLine?_eq_some ha
  rw [← hapath] at h ⊢
  obtain ⟨item, tree₁, hfirst, h₁⟩ := h.update_appending_list
    (locate_append haline hatext.symm) halist hunit hxs
  rw [extendBlock_append hlower hapart] at h₁
  exact ⟨item, tree₁, hfirst, by simpa using h₁⟩

theorem length_edited_upper : (before ++ upper ::
    extendBlock (indentWidth upper) (rendered unit upper xs) between).length =
      before.length + 1 + between.length + xs.length := by
  rw [length_append_cons, length_extendBlock, rendered, List.length_map]
  omega

theorem mem_edited_upper {l : String} : l ∈ before ++ upper ::
    extendBlock (indentWidth upper) (rendered unit upper xs) between ↔
      l ∈ before ++ upper :: between ++ rendered unit upper xs := by
  simp only [List.append_assoc, List.cons_append, List.mem_append, List.mem_cons,
    mem_extendBlock]

include h ha hb hapart hunit hxs hys in
/-- Where the upper item is edited first and the other is found again, each line is put below its
own item. -/
theorem afterBoth_upper_first
    (hfound : xs = [] ∨ ∀ l ∈ before ++ upper :: between ++ rendered editor.indentUnit upper xs,
      (ListLine.ofText l).content ≠ b.text) :
    editor.afterBoth tree (a, appending xs) (b, appending ys) =
      .ok (unlines (extendBoth editor.indentUnit before upper xs between lower ys after)) := by
  obtain ⟨hbpath, hbline, hbtext, hblist⟩ := ofLine?_eq_some hb
  obtain ⟨_, hbullet⟩ := Option.isSome_iff_exists.1 hblist
  obtain ⟨_, tree₁, hfirst, h₁⟩ :=
    exists_edited_upper h ha hapart hunit hxs (not_isBlankText_of_bullet hbullet)
  have hlength := @length_edited_upper editor.indentUnit before upper between xs
  have hlocate : locate (before ++ upper :: extendBlock (indentWidth upper)
      (rendered editor.indentUnit upper xs) between ++ lower :: after) b =
        some (before ++ upper :: extendBlock (indentWidth upper)
          (rendered editor.indentUnit upper xs) between).length := by
    rcases hfound with rfl | hfound
    · exact locate_append (by rw [hbline, hlength]; rfl) hbtext.symm
    · exact locate_append_of_first (fun l hl => hfound l (mem_edited_upper.1 hl)) hbtext.symm
        (by omega)
  rw [← hbpath] at h₁
  obtain ⟨_, tree₂, hsecond, h₂⟩ := h₁.update_appending_list hlocate hblist hunit hys
  rw [Editor.afterBoth_eq hfirst hsecond, h₂.read, List.append_assoc, List.cons_append,
    extendBoth]

include h ha hb hapart hunit hxs hys in
/-- Where the upper item is edited first and a line above the other has the other's text, lines are
put below that one. -/
theorem afterBoth_ne_of_double (hxsne : xs ≠ []) (hysne : ys ≠ [])
    (hnested : ∀ child ∈ ys, child.Nested)
    (hdouble : ∃ l ∈ before ++ upper :: between ++ rendered editor.indentUnit upper xs,
      (ListLine.ofText l).content = b.text) :
    editor.afterBoth tree (a, appending xs) (b, appending ys) ≠
      .ok (unlines (extendBoth editor.indentUnit before upper xs between lower ys after)) := by
  obtain ⟨hbpath, hbline, hbtext, hblist⟩ := ofLine?_eq_some hb
  obtain ⟨_, hbullet⟩ := Option.isSome_iff_exists.1 hblist
  have hlower := not_isBlankText_of_bullet hbullet
  obtain ⟨_, tree₁, hfirst, h₁⟩ := exists_edited_upper h ha hapart hunit hxs hlower
  have hlength := @length_edited_upper editor.indentUnit before upper between xs
  have hpos : 0 < xs.length := List.length_pos_iff.2 hxsne
  obtain ⟨l, hl, hcontent⟩ := hdouble
  obtain ⟨front, double, back, hsplit, htext, hlocate⟩ :=
    locate_of_double (lower :: after) (by omega) ⟨l, mem_edited_upper.2 hl, hcontent⟩
  have hsingle : SingleLine (ListLine.ofText double).content := by
    have hline : SingleLine lower := h.singleLine lower (by simp)
    rw [← decoration_append_content hblist hline.1] at hline
    rw [htext, hbtext]
    exact (singleLine_append.1 hline).2
  rw [hsplit, List.append_assoc, List.cons_append] at hlocate
  rw [hsplit, List.append_assoc, List.cons_append, ← hbpath] at h₁
  obtain ⟨_, tree₂, hsecond, h₂⟩ :=
    h₁.update_appending hlocate (fun hnil => by simp at hnil) hsingle hunit hys
  rw [Editor.afterBoth_eq hfirst hsecond, h₂.read]
  intro heq
  have hlines := congrArg lines (Except.ok.inj heq)
  rw [h₂.split, (afterBoth_lower_first h ha hb hapart hunit hxs hys).2, extendBoth,
    ← List.cons_append, ← List.append_assoc, hsplit, List.append_assoc, List.cons_append,
    List.append_right_inj] at hlines
  exact extendBlock_ne hunit hysne hnested hlower (List.cons.inj hlines).2

end Pair

theorem rendered_deep (hunit : IndentUnit unit) (h : ∀ child ∈ children, child.Nested)
    (line : String) : ∀ l ∈ rendered unit line children,
      isBlankText l = false ∧ indentWidth line < indentWidth l := by
  intro l hl
  obtain ⟨child, hchild, rfl⟩ := List.mem_map.1 hl
  exact (h child hchild).inside hunit line

section Blocks

variable {upper lower : String} {between : List String} {xs ys : List ChildLine}
  (hlower : isBlankText lower = false)
  (hapart : bodyLength (indentWidth upper) (between ++ lower :: after) ≤ between.length)

include hlower hapart in
theorem extendBoth_eq (unit : String) (xs ys : List ChildLine) :
    let ls := before ++ upper :: (between ++ lower :: after)
    putBehind (putBehind ls (blockEnd ls (before.length + 1 + between.length))
        (rendered unit lower ys)) (blockEnd ls before.length) (rendered unit upper xs) =
      extendBoth unit before upper xs between lower ys after := by
  intro ls
  have hls : ls = before ++ upper :: between ++ lower :: after := by simp [ls]
  have hlow : putBehind ls (blockEnd ls (before.length + 1 + between.length))
      (rendered unit lower ys) = before ++ upper :: (between ++ lower ::
        extendBlock (indentWidth lower) (rendered unit lower ys) after) := by
    rw [hls, ← length_append_cons _ _ upper, putBehind_blockEnd, List.append_assoc, List.cons_append]
  have hend (others : List String) : blockEnd ls before.length =
      blockEnd (before ++ upper :: (between ++ lower :: others)) before.length := by
    rw [blockEnd_append, blockEnd_append, bodyLength_append_of_le hlower hapart,
      bodyLength_append_of_le hlower hapart]
  rw [hlow, hend, putBehind_blockEnd, extendBlock_append hlower hapart, extendBoth]

include hlower hapart in
/-- The block of each of the two lines ends with the lines that were put there. -/
theorem blockBelow_extendBoth (hunit : IndentUnit unit) (hxs : ∀ child ∈ xs, child.Nested)
    (hys : ∀ child ∈ ys, child.Nested) :
    let ls := before ++ upper :: (between ++ lower :: after)
    let both := extendBoth unit before upper xs between lower ys after
    blockBelow both before.length =
        blockBelow ls before.length ++ rendered unit upper xs ∧
      blockBelow both (before.length + 1 + between.length + xs.length) =
        blockBelow ls (before.length + 1 + between.length) ++ rendered unit lower ys := by
  intro ls both
  have hlow : ls = before ++ upper :: between ++ lower :: after := by simp [ls]
  have hbothlow : both = before ++ upper ::
      extendBlock (indentWidth upper) (rendered unit upper xs) between ++
        lower :: extendBlock (indentWidth lower) (rendered unit lower ys) after := by
    simp [both, extendBoth]
  constructor
  · have hle := bodyLength_le (indentWidth upper) between
    have hup : both = before ++ upper :: extendBlock (indentWidth upper)
        (rendered unit upper xs) (between ++ lower ::
          extendBlock (indentWidth lower) (rendered unit lower ys) after) := by
      rw [extendBlock_append hlower hapart]
      rfl
    rw [hup, blockBelow_append, blockBelow_append,
      take_extendBlock (rendered_deep hunit hxs upper), bodyLength_append_of_le hlower hapart,
      bodyLength_append_of_le hlower hapart, List.take_append_of_le_length hle,
      List.take_append_of_le_length hle]
  · rw [← @length_edited_upper unit, hbothlow, blockBelow_append,
      take_extendBlock (rendered_deep hunit hys lower), hlow, ← length_append_cons _ _ upper,
      blockBelow_append]

end Blocks

/-- Lines are put below two items of a document, the second of which is below the block of the
first. If the lower item is edited first, each line is put at the end of its own item's block. If
the upper item is edited first, and gets a line at all, the same document is written exactly if no
line above the lower item then has that item's text, be it an older line or one of those that were
put below the upper item. -/
theorem appending_commutes_iff {editor : Editor} {tree tree' : Tree} {path : String}
    {a b : WorkItem} {i j : Nat} {xs ys : List ChildLine}
    (hunit : IndentUnit editor.indentUnit)
    (hread : editor.store.read tree path = .ok s)
    (hwrite : editor.store.write tree path s = .ok tree')
    (ha : (lines s)[i]?.bind (WorkItem.ofLine? · path i) = some a)
    (hb : (lines s)[j]?.bind (WorkItem.ofLine? · path j) = some b)
    (hapart : blockEnd (lines s) i < j)
    (hxs : ∀ child ∈ xs, child.Single) (hys : ∀ child ∈ ys, child.Single) :
    let ls := lines s
    let unit := editor.indentUnit
    let upper := rendered unit (ls.getD i "") xs
    let lower := rendered unit (ls.getD j "") ys
    let both := putBehind (putBehind ls (blockEnd ls j) lower) (blockEnd ls i) upper
    let found := xs = [] ∨ ∀ l ∈ ls.take j ++ upper, (ListLine.ofText l).content ≠ b.text
    let upperFirst := editor.afterBoth tree (a, appending xs) (b, appending ys)
    let lowerFirst := editor.afterBoth tree (b, appending ys) (a, appending xs)
    lines (unlines both) = both ∧
      ((∀ child ∈ xs, child.Nested) → (∀ child ∈ ys, child.Nested) →
        blockBelow both i = blockBelow ls i ++ upper ∧
          blockBelow both (j + xs.length) = blockBelow ls j ++ lower) ∧
      lowerFirst = .ok (unlines both) ∧
      (found → upperFirst = .ok (unlines both)) ∧
      (ys ≠ [] → (∀ child ∈ ys, child.Nested) → upperFirst = .ok (unlines both) → found) := by
  have hholds : Holds editor.store tree path (lines s) := .of_read hread hwrite
  obtain ⟨la, hla, ha⟩ := Option.bind_eq_some_iff.1 ha
  obtain ⟨lb, hlb, hb⟩ := Option.bind_eq_some_iff.1 hb
  obtain ⟨front, after, hsplit, rfl⟩ := exists_split hlb
  have hij : i < front.length := Nat.lt_of_le_of_lt (Nat.le_add_right _ _) hapart
  rw [hsplit, List.getElem?_append_left hij] at hla
  obtain ⟨before, between, rfl, rfl⟩ := exists_split hla
  have hlength := length_append_cons before between la
  obtain ⟨_, hbullet⟩ := Option.isSome_iff_exists.1 (ofLine?_eq_some hb).2.2.2
  have hlower := not_isBlankText_of_bullet hbullet
  have htake : (lines s).take (before.length + 1 + between.length) = before ++ la :: between := by
    rw [hsplit, ← hlength, List.take_left]
  have hgetb : (lines s).getD (before.length + 1 + between.length) "" = lb := by
    rw [hsplit, ← hlength, getD_length_append]
  have hlines : lines s = before ++ la :: (between ++ lb :: after) := by simp [hsplit]
  have hgeta : (lines s).getD before.length "" = la := by rw [hlines, getD_length_append]
  rw [hlength] at hb hapart ⊢
  rw [hlines, blockEnd_append] at hapart
  rw [hlines] at hholds
  replace hapart : bodyLength (indentWidth la) (between ++ lb :: after) ≤ between.length := by
    omega
  obtain ⟨hfirst, hagain⟩ := afterBoth_lower_first hholds ha hb hapart hunit hxs hys
  dsimp only
  rw [hgeta, hgetb, htake, hlines, extendBoth_eq hlower hapart]
  refine ⟨hagain, blockBelow_extendBoth hlower hapart hunit, hfirst,
    afterBoth_upper_first hholds ha hb hapart hunit hxs hys, fun hysne hnested hsecond => ?_⟩
  rw [Classical.or_iff_not_imp_left]
  intro hxsne l hl hcontent
  exact afterBoth_ne_of_double hholds ha hb hapart hunit hxs hys hxsne hysne hnested
    ⟨l, hl, hcontent⟩ hsecond

/-- Two items with a text of their own. -/
def inboxText : String := "- [ ] A #x\n- [ ] B #x\n"

def inboxTree : Tree := { root := "/", files := [(["a.md"], .text inboxText)] }

def inboxItem (text : String) (line : Int) : WorkItem :=
  { text, path := "a.md", line, status := " ", tags := findTags text, indent := "" }

def inboxEditor : Editor := { store := {}, indentUnit := "  " }

theorem appending_commutes_iff_inbox :
    let a := (inboxItem "A #x" 0, appending [{ text := "a1" }])
    let b := (inboxItem "B #x" 1, appending [{ text := "b1" }])
    let both := ["- [ ] A #x", "  - a1", "- [ ] B #x", "  - b1", ""]
    (lines inboxText)[0]?.bind (WorkItem.ofLine? · "a.md" 0) = some a.1 ∧
      (lines inboxText)[1]?.bind (WorkItem.ofLine? · "a.md" 1) = some b.1 ∧
      inboxEditor.afterBoth inboxTree b a = .ok (unlines both) ∧
      inboxEditor.afterBoth inboxTree a b = .ok (unlines both) ∧
      blockBelow both 0 = ["  - a1"] ∧ blockBelow both 2 = ["  - b1"] := by
  intro a b both
  have hunit : IndentUnit inboxEditor.indentUnit := ⟨by decide, by decide, by decide, by decide⟩
  have hread : inboxEditor.store.read inboxTree "a.md" = .ok inboxText :=
    eq_ok_of_toOption (by decide +kernel)
  obtain ⟨tree', hwrite⟩ : ∃ tree', inboxEditor.store.write inboxTree "a.md" inboxText =
      .ok tree' := exists_eq_ok_of_isSome (by decide +kernel)
  have ha : (lines inboxText)[0]?.bind (WorkItem.ofLine? · "a.md" (0 : Nat)) = some a.1 := by
    decide +kernel
  have hb : (lines inboxText)[1]?.bind (WorkItem.ofLine? · "a.md" (1 : Nat)) = some b.1 := by
    decide +kernel
  have hapart : blockEnd (lines inboxText) 0 < 1 := by decide +kernel
  have hdash : SingleLine "-" := ⟨by decide, by decide⟩
  have hsingle (text : String) (h : SingleLine text) :
      ∀ child ∈ ([{ text }] : List ChildLine), child.Single := by
    intro child hchild
    rw [List.mem_singleton.1 hchild]
    exact ⟨h, hdash⟩
  have hnested (text : String) : ∀ child ∈ ([{ text }] : List ChildLine), child.Nested := by
    intro child hchild
    rw [List.mem_singleton.1 hchild]
    exact ⟨show isBlankText "-" = false by decide, Int.le_refl 0⟩
  have hboth := appending_commutes_iff hunit hread hwrite ha hb hapart
    (hsingle "a1" ⟨by decide, by decide⟩) (hsingle "b1" ⟨by decide, by decide⟩)
  dsimp only at hboth
  rw [show putBehind (putBehind (lines inboxText) (blockEnd (lines inboxText) 1)
      (rendered inboxEditor.indentUnit ((lines inboxText).getD 1 "") [{ text := "b1" }]))
      (blockEnd (lines inboxText) 0)
      (rendered inboxEditor.indentUnit ((lines inboxText).getD 0 "") [{ text := "a1" }]) = both by
    decide +kernel] at hboth
  obtain ⟨-, hblocks, hlower, hupper, -⟩ := hboth
  obtain ⟨hfirst, hsecond⟩ := hblocks (hnested "a1") (hnested "b1")
  refine ⟨ha, hb, hlower, hupper (.inr (by decide +kernel)), hfirst.trans ?_, hsecond.trans ?_⟩
  · decide +kernel
  · decide +kernel

/-- A line that is put below the upper item has the text of the lower item, and is taken for it. -/
theorem appending_below_double :
    let tree : Tree := { root := "/", files := [(["a.md"], .text "- [ ] A\n- [ ] B\n")] }
    let a := (inboxItem "A" 0, appending [{ text := "B" }])
    let b := (inboxItem "B" 1, appending [{ text := "y" }])
    (lines "- [ ] A\n- [ ] B\n")[0]?.bind (WorkItem.ofLine? · "a.md" 0) = some a.1 ∧
      (lines "- [ ] A\n- [ ] B\n")[1]?.bind (WorkItem.ofLine? · "a.md" 1) = some b.1 ∧
      blockEnd (lines "- [ ] A\n- [ ] B\n") 0 = 0 ∧
      blockEnd (lines "- [ ] A\n- [ ] B\n") 1 = 1 ∧
      (inboxEditor.afterBoth tree b a).toOption =
        some "- [ ] A\n  - B\n- [ ] B\n  - y\n" ∧
      (inboxEditor.afterBoth tree a b).toOption =
        some "- [ ] A\n  - B\n    - y\n- [ ] B\n" ∧
      blockBelow (lines "- [ ] A\n  - B\n    - y\n- [ ] B\n") 3 = [] := by
  decide +kernel

end BulletScript.Tasks
