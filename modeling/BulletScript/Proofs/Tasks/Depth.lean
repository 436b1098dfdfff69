import BulletScript.Proofs.Tasks.Finding

/-! Lines that are written below an item, read back. Their texts and markers are read as they were
written. Their depths are read from columns, and every unit of indentation counts for as many columns
as it takes at the start of a line: where a tab takes more or fewer columns than there, a depth is
read back as another. -/
namespace BulletScript.Text

variable {cs xs : List Char} {column other : Nat}

/-- Characters that stay on their line. -/
def Inline (cs : List Char) : Prop := ∀ c ∈ cs, c ≠ '\n' ∧ c ≠ '\r'

/-- The number of columns that characters take from a column on. -/
def columnsFrom (column : Nat) (cs : List Char) : Nat :=
  (expandTabsFrom Outline.tabWidth column cs).length

theorem SingleLine.inline {s : String} (h : SingleLine s) : Inline s.toList := by
  rintro c hc
  refine ⟨?_, ?_⟩
  · rintro rfl
    exact h.1 hc
  · rintro rfl
    exact h.2 hc

@[simp] theorem columnsFrom_nil : columnsFrom column [] = 0 := rfl

/-- A tab takes the columns up to the next tab stop. -/
theorem columnsFrom_tab (column : Nat) (cs : List Char) :
    columnsFrom column ('\t' :: cs) =
      (4 - column % 4) + columnsFrom (column + (4 - column % 4)) cs := by
  simp [columnsFrom, expandTabsFrom, Outline.tabWidth]

theorem columnsFrom_cons {c : Char} (htab : c ≠ '\t') (hline : c ≠ '\n' ∧ c ≠ '\r')
    (column : Nat) (cs : List Char) :
    columnsFrom column (c :: cs) = 1 + columnsFrom (column + 1) cs := by
  simp [columnsFrom, expandTabsFrom, htab, hline, Nat.add_comm]

theorem columnsFrom_append (hxs : Inline xs) (column : Nat) (cs : List Char) :
    columnsFrom column (xs ++ cs) =
      columnsFrom column xs + columnsFrom (column + columnsFrom column xs) cs := by
  induction xs generalizing column with
  | nil => simp
  | cons c rest ih =>
    obtain ⟨hc, hrest⟩ := List.forall_mem_cons.1 hxs
    by_cases htab : c = '\t'
    · subst htab
      rw [List.cons_append, columnsFrom_tab, columnsFrom_tab, ih hrest]
      simp only [Nat.add_assoc]
    · rw [List.cons_append, columnsFrom_cons htab hc, columnsFrom_cons htab hc, ih hrest]
      simp only [Nat.add_assoc]

/-- Columns repeat at every tab stop. -/
theorem columnsFrom_add (hcs : Inline cs) (column n : Nat) :
    columnsFrom (column + 4 * n) cs = columnsFrom column cs := by
  induction cs generalizing column with
  | nil => rfl
  | cons c rest ih =>
    obtain ⟨hc, hrest⟩ := List.forall_mem_cons.1 hcs
    by_cases htab : c = '\t'
    · subst htab
      rw [columnsFrom_tab, columnsFrom_tab, Nat.add_mul_mod_self_left, Nat.add_right_comm, ih hrest]
    · rw [columnsFrom_cons htab hc, columnsFrom_cons htab hc, Nat.add_right_comm, ih hrest]

theorem columnsFrom_of_mod_eq (hcs : Inline cs) (h : column % 4 = other % 4) :
    columnsFrom column cs = columnsFrom other cs := by
  rw [← Nat.mod_add_div column 4, ← Nat.mod_add_div other 4, columnsFrom_add hcs,
    columnsFrom_add hcs, h]

theorem columnsFrom_of_no_tab (hcs : Inline cs) (htab : '\t' ∉ cs) (column : Nat) :
    columnsFrom column cs = cs.length := by
  induction cs generalizing column with
  | nil => rfl
  | cons c rest ih =>
    obtain ⟨hc, hrest⟩ := List.forall_mem_cons.1 hcs
    obtain ⟨hne, htab⟩ := List.ne_and_not_mem_of_not_mem_cons htab
    rw [columnsFrom_cons (Ne.symm hne) hc, ih hrest htab, List.length_cons, Nat.add_comm]

/-- Behind a tab it is the same whatever column the characters began at, tab stops apart. -/
theorem columnsFrom_aligned (hcs : Inline cs) (htab : '\t' ∈ cs) (column other : Nat) :
    (column + columnsFrom column cs) % 4 = (other + columnsFrom other cs) % 4 := by
  induction cs generalizing column other with
  | nil => cases htab
  | cons c rest ih =>
    obtain ⟨hc, hrest⟩ := List.forall_mem_cons.1 hcs
    by_cases hne : c = '\t'
    · subst hne
      have hstop (column : Nat) : (column + (4 - column % 4)) % 4 = 0 := by omega
      have hsame := columnsFrom_of_mod_eq hrest ((hstop column).trans (hstop other).symm)
      rw [columnsFrom_tab, columnsFrom_tab, ← hsame]
      omega
    · have htab := (List.mem_cons.1 htab).resolve_left (Ne.symm hne)
      rw [columnsFrom_cons hne hc, columnsFrom_cons hne hc, ← Nat.add_assoc, ← Nat.add_assoc]
      exact ih hrest htab _ _

/-- Characters that begin further to the right do not end further to the left. -/
theorem columnsFrom_mono (hcs : Inline cs) (h : column ≤ other) :
    column + columnsFrom column cs ≤ other + columnsFrom other cs := by
  induction cs generalizing column other with
  | nil => exact h
  | cons c rest ih =>
    obtain ⟨hc, hrest⟩ := List.forall_mem_cons.1 hcs
    by_cases hne : c = '\t'
    · subst hne
      have hstop : column + (4 - column % 4) ≤ other + (4 - other % 4) := by omega
      rw [columnsFrom_tab, columnsFrom_tab, ← Nat.add_assoc, ← Nat.add_assoc]
      exact ih hrest hstop
    · rw [columnsFrom_cons hne hc, columnsFrom_cons hne hc, ← Nat.add_assoc, ← Nat.add_assoc]
      exact ih hrest (Nat.succ_le_succ h)

/-- Characters with a tab end behind the next tab stop. -/
theorem le_columnsFrom (hcs : Inline cs) (htab : '\t' ∈ cs) (column : Nat) :
    4 ≤ column % 4 + columnsFrom column cs := by
  induction cs generalizing column with
  | nil => cases htab
  | cons c rest ih =>
    obtain ⟨hc, hrest⟩ := List.forall_mem_cons.1 hcs
    by_cases hne : c = '\t'
    · subst hne
      rw [columnsFrom_tab]
      omega
    · have htab := (List.mem_cons.1 htab).resolve_left (Ne.symm hne)
      have hle := ih hrest htab (column + 1)
      rw [columnsFrom_cons hne hc]
      omega

/-- From where they end, characters take as many columns again as from where they end when they begin
at the start of a line. -/
theorem columnsFrom_again (hcs : Inline cs) (column : Nat) :
    columnsFrom (column + columnsFrom column cs) cs = columnsFrom (columnsFrom 0 cs) cs := by
  by_cases htab : '\t' ∈ cs
  · refine columnsFrom_of_mod_eq hcs ?_
    rw [columnsFrom_aligned hcs htab column 0, Nat.zero_add]
  · rw [columnsFrom_of_no_tab hcs htab, columnsFrom_of_no_tab hcs htab]

/-- From no column on characters take twice as many columns as from the start of a line. -/
theorem columnsFrom_lt (hcs : Inline cs) (hne : cs ≠ []) (column : Nat) :
    columnsFrom column cs < 2 * columnsFrom 0 cs := by
  by_cases htab : '\t' ∈ cs
  · have hmod : columnsFrom column cs = columnsFrom (column % 4) cs :=
      columnsFrom_of_mod_eq hcs (Nat.mod_mod _ _).symm
    have hnext := columnsFrom_mono hcs (Nat.le_of_lt (Nat.mod_lt column (by decide : 0 < 4)))
    have hstart := columnsFrom_add hcs 0 1
    have hle := le_columnsFrom hcs htab 0
    rcases Nat.eq_zero_or_pos (column % 4) with hzero | hpos
    · rw [hmod, hzero]
      omega
    · rw [Nat.zero_add, Nat.mul_one] at hstart
      omega
  · have hpos := List.length_pos_iff.2 hne
    rw [columnsFrom_of_no_tab hcs htab, columnsFrom_of_no_tab hcs htab]
    omega

/-- Behind the first of some equal pieces, each of the others takes as many columns. -/
theorem columnsFrom_replicate (hcs : Inline cs) (column n : Nat) :
    columnsFrom column (List.replicate (n + 1) cs).flatten =
      columnsFrom column cs + n * columnsFrom (columnsFrom 0 cs) cs := by
  induction n generalizing column with
  | zero => simp
  | succ n ih =>
    rw [List.replicate_succ, List.flatten_cons, columnsFrom_append hcs, ih, columnsFrom_again hcs,
      Nat.add_mul, Nat.one_mul, Nat.add_comm (columnsFrom (columnsFrom 0 cs) cs)]

end BulletScript.Text

namespace BulletScript.Tasks

open Text Outline Files

variable {unit s line base : String} {before after : List String}

/-- The depth that is read back where a line was written at another one. -/
def readDepth (unit line : String) (n : Nat) : Nat :=
  (expandedLength tabWidth (leadingBlanks line ++ repeated unit (n + 1)) - indentWidth line) /
    max 1 (expandedLength tabWidth unit) - 1

/-- A unit of indentation that takes the columns it takes at the start of a line wherever it is
written below a line: again behind itself, and no fewer of them behind the line's indentation. -/
structure Level (unit line : String) : Prop where
  again : expandedLength tabWidth (unit ++ unit) = 2 * expandedLength tabWidth unit
  first : indentWidth line + expandedLength tabWidth unit ≤
    expandedLength tabWidth (leadingBlanks line ++ unit)

/-- Quotients that count the steps behind the first one come out exactly if the steps are as long as
the divisor, and the first one is long enough. -/
theorem forall_div_eq_iff {first again step : Nat} (hstep : 0 < step) (hfirst : first < 2 * step) :
    (∀ n, (first + n * again) / step - 1 = n) ↔ again = step ∧ step ≤ first := by
  constructor
  · intro h
    have hbounds (n : Nat) (hn : 0 < n) :
        (n + 1) * step ≤ first + n * again ∧ first + n * again < (n + 2) * step := by
      have hdiv : (first + n * again) / step = n + 1 := by
        have := h n
        omega
      exact ⟨(Nat.le_div_iff_mul_le hstep).1 (Nat.le_of_eq hdiv.symm),
        (Nat.div_lt_iff_lt_mul hstep).1 (by omega)⟩
    have hagain : again = step := by
      rcases Nat.lt_trichotomy again step with hlt | heq | hgt
      · obtain ⟨hle, -⟩ := hbounds (first + 1) (by omega)
        have := Nat.mul_le_mul_left (first + 1) (Nat.succ_le_of_lt hlt)
        rw [Nat.mul_succ] at this
        rw [Nat.add_mul (first + 1), Nat.one_mul] at hle
        omega
      · exact heq
      · obtain ⟨-, hlt⟩ := hbounds (2 * step) (by omega)
        have := Nat.mul_le_mul_left (2 * step) (Nat.succ_le_of_lt hgt)
        rw [Nat.mul_succ] at this
        rw [Nat.add_mul] at hlt
        omega
    refine ⟨hagain, ?_⟩
    obtain ⟨hle, -⟩ := hbounds 1 (by decide)
    omega
  · rintro ⟨rfl, hle⟩ n
    have hone : first / again = 1 := Nat.div_eq_of_lt_le (by omega) (by omega)
    rw [Nat.add_mul_div_right _ _ hstep, hone]
    omega

theorem expandedLength_eq (s : String) : expandedLength tabWidth s = columnsFrom 0 s.toList := rfl

/-- The columns of what is written behind the indentation of a line. -/
theorem expandedLength_indent_append (hline : SingleLine line) (t : String) :
    expandedLength tabWidth (leadingBlanks line ++ t) =
      indentWidth line + columnsFrom (indentWidth line) t.toList := by
  have happend := columnsFrom_append (singleLine_leadingBlanks hline).inline 0 t.toList
  rw [Nat.zero_add] at happend
  rw [expandedLength_eq, String.toList_append]
  exact happend

namespace IndentUnit

theorem columnsFrom_pos (h : IndentUnit unit) (column : Nat) : 0 < columnsFrom column unit.toList := by
  have hle := length_expandTabsFrom (show 0 < tabWidth by decide) unit.toList column
  have hpos : 0 < unit.toList.length := by
    rw [String.length_toList]
    exact Nat.pos_of_ne_zero fun hzero => h.nonempty (String.length_eq_zero_iff.1 hzero)
  exact Nat.lt_of_lt_of_le hpos hle

theorem columnsFrom_lt (h : IndentUnit unit) (column : Nat) :
    columnsFrom column unit.toList < 2 * columnsFrom 0 unit.toList :=
  Text.columnsFrom_lt h.single.inline (by simpa using h.nonempty) column

/-- The columns of the first unit count once, and those of each further one as behind the first. -/
theorem readDepth_eq (h : IndentUnit unit) (hline : SingleLine line) (n : Nat) :
    readDepth unit line n =
      (columnsFrom (indentWidth line) unit.toList +
        n * columnsFrom (columnsFrom 0 unit.toList) unit.toList) / columnsFrom 0 unit.toList - 1 := by
  have hunits := columnsFrom_replicate h.single.inline (indentWidth line) n
  have hone : max 1 (columnsFrom 0 unit.toList) = columnsFrom 0 unit.toList :=
    Nat.max_eq_right (h.columnsFrom_pos 0)
  rw [readDepth, expandedLength_indent_append hline, expandedLength_eq, hone, Nat.add_sub_cancel_left,
    repeated, String.toList_ofList, hunits]

/-- Lines directly below the item are read as such. -/
theorem readDepth_zero (h : IndentUnit unit) (hline : SingleLine line) :
    readDepth unit line 0 = 0 := by
  have hdiv := (Nat.div_lt_iff_lt_mul (h.columnsFrom_pos 0)).2 (h.columnsFrom_lt (indentWidth line))
  rw [h.readDepth_eq hline, Nat.zero_mul, Nat.add_zero]
  omega

/-- Every depth is read back exactly if the unit is level below the line. -/
theorem readDepth_iff (h : IndentUnit unit) (hline : SingleLine line) :
    (∀ n, readDepth unit line n = n) ↔ Level unit line := by
  have hlt := h.columnsFrom_lt (indentWidth line)
  have hagain : expandedLength tabWidth (unit ++ unit) =
      columnsFrom 0 unit.toList + columnsFrom (columnsFrom 0 unit.toList) unit.toList := by
    rw [expandedLength_eq, String.toList_append, columnsFrom_append h.single.inline, Nat.zero_add]
  have hfirst := expandedLength_indent_append hline unit
  simp only [h.readDepth_eq hline, forall_div_eq_iff (h.columnsFrom_pos 0) hlt]
  constructor
  · rintro ⟨hsame, hle⟩
    refine ⟨?_, ?_⟩
    · rw [hagain, hsame, expandedLength_eq]
      omega
    · rw [hfirst, expandedLength_eq]
      omega
  · rintro ⟨hsame, hle⟩
    rw [hagain, expandedLength_eq] at hsame
    rw [hfirst, expandedLength_eq] at hle
    omega

/-- A unit without a tab is level below every line. -/
theorem level_of_no_tab (h : IndentUnit unit) (hline : SingleLine line) (htab : '\t' ∉ unit.toList) :
    Level unit line := by
  refine ⟨?_, ?_⟩
  · rw [expandedLength_eq, expandedLength_eq, String.toList_append, columnsFrom_append h.single.inline,
      columnsFrom_of_no_tab h.single.inline htab, columnsFrom_of_no_tab h.single.inline htab]
    omega
  · rw [expandedLength_indent_append hline, expandedLength_eq,
      columnsFrom_of_no_tab h.single.inline htab, columnsFrom_of_no_tab h.single.inline htab]

end IndentUnit

/-- A line to write below an item whose text is read as it stands: it is on one line, and begins
neither with a blank nor with the brackets of a task. -/
structure ChildLine.Plain (child : ChildLine) : Prop where
  depth : 0 ≤ child.indent
  marker : child.marker ∈ ["-", "*", "+"]
  single : SingleLine child.text
  start : ∀ c ∈ child.text.toList.head?, isBlank c = false
  unboxed : ∀ mark rest, child.text.toList ≠ '[' :: mark :: ']' :: rest

namespace ChildLine.Plain

variable {child : ChildLine}

theorem exists_bullet (h : child.Plain) :
    ∃ b, isBullet b = true ∧ child.marker = b.toString := by
  have hmarker := h.marker
  simp only [List.mem_cons, List.not_mem_nil, or_false] at hmarker
  rcases hmarker with hmarker | hmarker | hmarker
  · exact ⟨'-', by decide, hmarker⟩
  · exact ⟨'*', by decide, hmarker⟩
  · exact ⟨'+', by decide, hmarker⟩

theorem toSingle (h : child.Plain) : child.Single := by
  refine ⟨h.single, ?_⟩
  obtain ⟨b, hb, hmarker⟩ := h.exists_bullet
  rw [hmarker]
  constructor <;>
    · simp only [Char.toString, String.toList_singleton, List.mem_singleton]
      rintro rfl
      exact absurd hb (by decide)

theorem toNested (h : child.Plain) : child.Nested := by
  refine ⟨?_, h.depth⟩
  obtain ⟨b, hb, hmarker⟩ := h.exists_bullet
  have hmem : b ∈ child.marker.toList := by simp [hmarker]
  exact not_isBlankText_of_mem hmem (not_isBlank_of_isBullet hb)

theorem cutStatus? (h : child.Plain) : cutStatus? child.text.toList = none := by
  refine Option.eq_none_iff_forall_ne_some.2 fun ⟨mark, text⟩ hsome => ?_
  obtain ⟨-, behind, heq, -⟩ := cutStatus?_eq_some hsome
  exact h.unboxed mark behind heq

/-- The line of a text is read as its indentation, its marker and the text. -/
theorem ofText_line (h : child.Plain) (hunit : IndentUnit unit) (hbase : isBlankText base = true) :
    let indent := base ++ repeated unit (child.indent + 1).toNat
    leadingBlanks (child.line unit base) = indent ∧
      ∃ b, child.marker = b.toString ∧
        ListLine.ofText (child.line unit base) = ⟨indent, some b, none, child.text⟩ := by
  intro indent
  obtain ⟨b, hb, hmarker⟩ := h.exists_bullet
  have hline : (child.line unit base).toList = indent.toList ++ b :: ' ' :: child.text.toList := by
    simp [ChildLine.line, hmarker, indent]
  have hindent : ∀ c ∈ indent.toList, isBlank c = true := by
    intro c hc
    rcases List.mem_append.1 (String.toList_append ▸ hc) with hc | hc
    · exact List.all_eq_true.1 hbase c hc
    · exact isBlank_of_mem_units hunit.blank _ hc
  have hstart : child.text.toList.dropWhile isBlank = child.text.toList := by
    cases htext : child.text.toList with
    | nil => rfl
    | cons c rest => exact List.dropWhile_cons_of_neg (by simp [h.start c (by simp [htext])])
  have hcut : cutBullet? (child.line unit base).toList =
      some (indent.toList, b, child.text.toList) := by
    rw [hline, cutBullet?_append hindent hb (by decide), hstart]
  have htask : taskLine? (child.line unit base) = none := by
    simp [taskLine?, hcut, h.cutStatus?]
  have hitem : itemLine? (child.line unit base) = some ⟨indent, some b, none, child.text⟩ := by
    simp [itemLine?, hcut, oneLine?_of_no_newline h.single.1]
  refine ⟨?_, b, hmarker, ?_⟩
  · rw [leadingBlanks_of_eq hline hindent (not_isBlank_of_isBullet hb), String.ofList_toList]
  · rw [ListLine.ofText, htask, hitem, Option.none_or, Option.getD_some]

end ChildLine.Plain

/-- An edit that puts lines in the place of those below an item, and does nothing else. -/
def replacing (children : List ChildLine) : Update := { replaceChildren := some children }

/-- Lines that were put below a line are read back with the depths that their columns show. -/
theorem childLines_rendered {rest : List String} {children : List ChildLine}
    (hunit : IndentUnit unit) (hchildren : ∀ child ∈ children, child.Plain)
    (hrest : bodyLength (indentWidth line) rest = 0) :
    childLines unit (before ++ line :: (rendered unit line children ++ rest)) before.length =
      children.map fun child => { child with indent := readDepth unit line child.indent.toNat } := by
  have hadded : ∀ l ∈ rendered unit line children,
      isBlankText l = false ∧ indentWidth line < indentWidth l := by
    intro l hl
    obtain ⟨child, hchild, rfl⟩ := List.mem_map.1 hl
    exact (hchildren child hchild).toNested.inside hunit line
  have hblock : (rendered unit line children ++ rest).take
      (bodyLength (indentWidth line) (rendered unit line children ++ rest)) =
      rendered unit line children := by
    rw [bodyLength_append_of_deep rest hadded, hrest, Nat.add_zero, List.take_left]
  have hshown : (rendered unit line children).filter (!isBlankText ·) = rendered unit line children :=
    List.filter_eq_self.2 fun l hl => by simp [(hadded l hl).1]
  rw [childLines]
  simp only [drop_take_blockEnd_append, getD_length_append, hblock, hshown]
  rw [rendered, List.map_map]
  refine List.map_congr_left fun child hchild => ?_
  have hplain := hchildren child hchild
  have hbase : isBlankText (leadingBlanks line) = true := List.all_eq_true.2 (leadingBlanks_blank line)
  obtain ⟨hindent, b, hmarker, hparsed⟩ := hplain.ofText_line hunit hbase
  have hdepth : (child.indent + 1).toNat = child.indent.toNat + 1 := by
    have := hplain.depth
    omega
  rw [hdepth] at hindent hparsed
  simp only [Function.comp, hparsed, indentWidth, hindent, readDepth, Option.map_some,
    Option.getD_some, hmarker]

section Documents

variable {editor : Editor} {tree : Tree} {item : WorkItem} {children : List ChildLine}

/-- Lines that take the place of those below a list line are its block. -/
theorem Holds.update_replacing (h : Holds editor.store tree item.path (before ++ line :: after))
    (hlocate : locate (before ++ line :: after) item = some before.length)
    (hlist : (ListLine.ofText line).bullet.isSome) (hunit : IndentUnit editor.indentUnit)
    (hchildren : ∀ child ∈ children, child.Single) :
    ∃ item' tree', editor.update tree item (replacing children) = (item', .ok tree') ∧
      item'.path = item.path ∧ item'.line = before.length ∧ item'.text = item.text ∧
      Holds editor.store tree' item.path (before ++ line ::
        (rendered editor.indentUnit line children ++
          after.drop (bodyLength (indentWidth line) after))) := by
  obtain ⟨tree', hupdate, hwrite⟩ := h.update hlocate (replacing children)
  have hsingle := h.singleLine line (by simp)
  have hlast : after = [] → line ≠ "" := by
    rintro - rfl
    exact absurd hlist (by decide)
  have htext := editText_eq_of_ne editor.indentUnit (replacing children) h.split hlast
  have hcontent (old : String) : (replacing children).content old = old := by
    simp [Update.content, replacing]
  have hrendered (old : List String) :
      (replacing children).children editor.indentUnit (leadingBlanks line) old =
        rendered editor.indentUnit line children := by
    simp [Update.children, Update.arrange, replacing, rendered]
  rw [h.split, editLines_append, hcontent, hrendered, decoration_append_content hlist hsingle.1,
    List.append_assoc, List.cons_append] at htext
  refine ⟨_, tree', hupdate, rfl, rfl, hcontent item.text, Holds.of_write (htext ▸ hwrite) (by simp) ?_⟩
  intro l hl
  simp only [List.mem_append, List.mem_cons] at hl
  rcases hl with hl | rfl | hl | hl
  · exact h.singleLine l (by simp [hl])
  · exact hsingle
  · exact singleLine_rendered hunit hsingle hchildren l hl
  · exact h.singleLine l (by simp [List.mem_of_mem_drop hl])

/-- Lines that took the place of those below an item are read back in their order with their texts and
markers, and with the depths that their columns show. -/
theorem Holds.children_replaced (h : Holds editor.store tree item.path (before ++ line :: after))
    (hlocate : locate (before ++ line :: after) item = some before.length)
    (hlist : (ListLine.ofText line).bullet.isSome) (hunit : IndentUnit editor.indentUnit)
    (hchildren : ∀ child ∈ children, child.Plain) :
    ∃ item' tree', editor.update tree item (replacing children) = (item', .ok tree') ∧
      editor.children tree' item' = (item', .ok (children.map fun child =>
        { child with indent := readDepth editor.indentUnit line child.indent.toNat })) := by
  obtain ⟨item', tree', hupdate, hpath, hindex, htext, hwritten⟩ :=
    h.update_replacing hlocate hlist hunit fun child hchild => (hchildren child hchild).toSingle
  refine ⟨item', tree', hupdate, ?_⟩
  rw [← hpath] at hwritten
  have hfind := hwritten.find_eq_ok
    (locate_append hindex ((content_of_locate hlocate).trans htext.symm))
  unfold Editor.children
  rw [hfind]
  dsimp only
  rw [hwritten.split, childLines_rendered hunit hchildren (bodyLength_drop _ _), ← hindex]

end Documents

/-- A list of lines is the same with the depths that are read back exactly if these are its own. -/
theorem map_readDepth_iff {children : List ChildLine} (h : ∀ child ∈ children, child.Plain) :
    (children.map fun child => { child with indent := readDepth unit line child.indent.toNat }) =
      children ↔ ∀ child ∈ children, readDepth unit line child.indent.toNat = child.indent.toNat := by
  have hsame : ∀ child ∈ children,
      ({ child with indent := readDepth unit line child.indent.toNat } : ChildLine) = child ↔
        readDepth unit line child.indent.toNat = child.indent.toNat := by
    intro child hchild
    have hdepth := (h child hchild).depth
    cases child
    simp only [ChildLine.mk.injEq, and_true, true_and] at hdepth ⊢
    omega
  nth_rewrite 2 [← List.map_id children]
  rw [List.map_inj_left]
  exact ⟨fun heq child hchild => (hsame child hchild).1 (heq child hchild),
    fun heq child hchild => (hsame child hchild).2 (heq child hchild)⟩

/-- A line at some depth. -/
def plainAt (n : Nat) : ChildLine := { text := "a", indent := n }

theorem plain_plainAt (n : Nat) : (plainAt n).Plain where
  depth := Int.natCast_nonneg n
  marker := by simp [plainAt]
  single := ⟨by simp [plainAt], by simp [plainAt]⟩
  start := by
    intro c hc
    obtain rfl : 'a' = c := by simpa [plainAt] using hc
    decide
  unboxed := by simp [plainAt]

/-- Lines that are written below a task are read back in their order with their texts and markers,
and with the depths that their columns show; those at depth 0 with their depth. All of them are read
back as they were written, whatever they are, exactly if the unit of indentation takes as many columns
behind itself as at the start of a line, and no fewer behind the indentation of the task: with a unit
without a tab always. -/
theorem children_replaced_iff {editor : Editor} {tree : Tree} {item : WorkItem} {index : Nat}
    {place : Place} (hfind : editor.find tree item = .ok (s, index))
    (htask : (taskLine? ((lines s).getD index "")).isSome)
    (hplace : editor.store.place tree item.path = .ok place) (hwritable : tree.Writable place)
    (hunit : IndentUnit editor.indentUnit) :
    let line := (lines s).getD index ""
    let unit := editor.indentUnit
    (∀ children : List ChildLine, (∀ child ∈ children, child.Plain) →
      ∃ item' tree', editor.update tree item (replacing children) = (item', .ok tree') ∧
        editor.children tree' item' = (item', .ok (children.map fun child =>
          { child with indent := readDepth unit line child.indent.toNat }))) ∧
      readDepth unit line 0 = 0 ∧
      ((∀ children : List ChildLine, (∀ child ∈ children, child.Plain) →
          ∃ item' tree', editor.update tree item (replacing children) = (item', .ok tree') ∧
            editor.children tree' item' = (item', .ok children)) ↔ Level unit line) ∧
      ('\t' ∉ unit.toList → Level unit line) := by
  intro line unit
  obtain ⟨before, found, after, hs, rfl⟩ := Editor.find_split hfind
  obtain ⟨hread, hlocate⟩ := Editor.find_eq_ok.1 hfind
  have hline : line = found := by simp only [line, hs, getD_length_append]
  have hwrite : editor.store.write tree item.path "" = .ok (tree.put place (.text "")) :=
    Documents.Store.write_eq_ok.2 ⟨place, hplace, hwritable, rfl⟩
  have hholds := Holds.of_read hread hwrite
  rw [hs] at hlocate hholds
  have hsingle : SingleLine line := hline ▸ hholds.singleLine found (by simp)
  have hall (children : List ChildLine) (hchildren : ∀ child ∈ children, child.Plain) :
      ∃ item' tree', editor.update tree item (replacing children) = (item', .ok tree') ∧
        editor.children tree' item' = (item', .ok (children.map fun child =>
          { child with indent := readDepth unit line child.indent.toNat })) := by
    rw [hline]
    exact hholds.children_replaced hlocate (bullet_of_task (hline ▸ htask)) hunit hchildren
  refine ⟨hall, hunit.readDepth_zero hsingle, ?_, hunit.level_of_no_tab hsingle⟩
  rw [← hunit.readDepth_iff hsingle]
  constructor
  · intro h n
    have hplain : ∀ child ∈ [plainAt n], child.Plain := by simpa using plain_plainAt n
    obtain ⟨item', tree', hupdate, hback⟩ := h [plainAt n] hplain
    obtain ⟨item'', tree'', hupdate', hback'⟩ := hall [plainAt n] hplain
    rw [hupdate] at hupdate'
    cases hupdate'
    rw [hback] at hback'
    have hsame := Except.ok.inj (Prod.mk.inj hback').2
    simpa [plainAt] using (map_readDepth_iff hplain).1 hsame.symm
  · intro h children hchildren
    obtain ⟨item', tree', hupdate, hback⟩ := hall children hchildren
    rw [(map_readDepth_iff hchildren).2 fun child _ => h child.indent.toNat] at hback
    exact ⟨item', tree', hupdate, hback⟩

def tabEditor : Editor := { store := {}, indentUnit := "\t" }

/-- A tab takes four columns wherever it stands below a task that is indented by one. -/
theorem children_replaced_iff_tab :
    let children := [plainAt 0, plainAt 1]
    let tree := noteTree "\t- [ ] T\n"
    tabEditor.find tree pairItem = .ok ("\t- [ ] T\n", 0) ∧
      (taskLine? ((lines "\t- [ ] T\n").getD 0 "")).isSome ∧
      tabEditor.store.place tree pairItem.path = .ok ["a.md"] ∧ tree.Writable ["a.md"] ∧
      IndentUnit tabEditor.indentUnit ∧
      ∃ item' tree', tabEditor.update tree pairItem (replacing children) = (item', .ok tree') ∧
        tabEditor.children tree' item' = (item', .ok children) := by
  intro children tree
  have hfind : tabEditor.find tree pairItem = .ok ("\t- [ ] T\n", 0) :=
    eq_ok_of_toOption (by decide +kernel)
  have htask : (taskLine? ((lines "\t- [ ] T\n").getD 0 "")).isSome := by decide +kernel
  have hplace : tabEditor.store.place tree pairItem.path = .ok ["a.md"] :=
    eq_ok_of_toOption (by decide +kernel)
  have hwritable : tree.Writable ["a.md"] :=
    ⟨by decide +kernel, by decide +kernel, by decide +kernel⟩
  have hunit : IndentUnit tabEditor.indentUnit :=
    ⟨by decide, by decide, by decide, by decide⟩
  have hlevel : Level tabEditor.indentUnit ((lines "\t- [ ] T\n").getD 0 "") :=
    ⟨by decide +kernel, by decide +kernel⟩
  refine ⟨hfind, htask, hplace, hwritable, hunit, ?_⟩
  have hplain : ∀ child ∈ children, child.Plain := by
    rw [List.forall_mem_cons, List.forall_mem_singleton]
    exact ⟨plain_plainAt 0, plain_plainAt 1⟩
  exact (children_replaced_iff hfind htask hplace hwritable hunit).2.2.1.2 hlevel children hplain

/-- Below a task that is indented by a blank, the first tab takes three columns, and a line at depth 1
is read back as one at depth 0. -/
theorem nested_child_read_flat :
    let children : List ChildLine := [{ text := "a" }, { text := "b", indent := 1 }]
    let edited := tabEditor.update (noteTree " - [ ] T\n") pairItem (replacing children)
    (edited.2.toOption.bind fun tree => (tabEditor.store.read tree "a.md").toOption) =
        some " - [ ] T\n \t- a\n \t\t- b\n" ∧
      (edited.2.toOption.bind fun tree => (tabEditor.children tree edited.1).2.toOption) =
        some [{ text := "a" }, { text := "b" }] := by
  decide +kernel

end BulletScript.Tasks
