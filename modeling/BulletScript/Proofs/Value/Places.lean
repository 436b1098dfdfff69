import BulletScript.Proofs.Expr.Paths
import BulletScript.Proofs.Json.Readback

/-! The parts of a value and the paths that are written to them. A path to a part leads there, whichever
way its steps are written, and one that ends where there is no part leads nowhere; but no path is read
that has an index with more digits than are read. -/
namespace BulletScript

section Parts

/-- A step to a part of a value: to an item of a list or to an entry of a mapping. -/
inductive Value.Place where
  | item (i : Nat)
  | entry (key : String)

/-- Where steps lead from a value: to a part of it, or, with the last of them, to where there is
none. -/
inductive Value.Leads : Value → List Value.Place → Option Value → Prop
  | here (v : Value) : Leads v [] (some v)
  | item {items : List Value} {i : Nat} {v : Value} {places : List Value.Place}
      {found : Option Value} : items[i]? = some v → Leads v places found →
      Leads (.list items) (.item i :: places) found
  | entry {entries : Record} {key : String} {v : Value} {places : List Value.Place}
      {found : Option Value} : (.str key, v) ∈ entries → Leads v places found →
      Leads (.map entries) (.entry key :: places) found
  | noItem {items : List Value} {i : Nat} : items.length ≤ i → Leads (.list items) [.item i] none
  | noEntry {entries : Record} {key : String} : (∀ v, (.str key, v) ∉ entries) →
      Leads (.map entries) [.entry key] none

/-- A text that can stand between the quotes of a path. -/
def IsQuotable (key : String) : Prop := '"' ∉ key.toList ∧ '\n' ∉ key.toList

/-- Values that are built of scalars, lists and mappings to any depth. The keys of a mapping are
texts, each there once. -/
inductive Value.IsTree : Value → Prop
  | scalar {v : Value} : v.isList = false → v.isMap = false → IsTree v
  | list {items : List Value} : (∀ v ∈ items, IsTree v) → IsTree (.list items)
  | map {fields : List (String × Value)} : (fields.map (·.1)).Nodup →
      (∀ field ∈ fields, IsQuotable field.1) → (∀ field ∈ fields, IsTree field.2) →
      IsTree (.map (fields.map fun e => (.str e.1, e.2)))

def Value.Place.step : Value.Place → PathStep
  | .item i => .index i
  | .entry key => .name key

variable {v : Value} {places : List Value.Place} {found : Option Value}

theorem Record.get?_fields {fields : List (String × Value)} (hnodup : (fields.map (·.1)).Nodup)
    {key : String} {v : Value} (h : (key, v) ∈ fields) :
    Record.get? (fields.map fun e => (.str e.1, e.2)) (.str key) = some v := by
  induction fields with
  | nil => cases h
  | cons e rest ih =>
    rw [List.map_cons, List.nodup_cons] at hnodup
    rcases List.mem_cons.1 h with rfl | hrest
    · simp [Record.get?]
    · have hne : e.1 ≠ key := fun heq => hnodup.1 (heq ▸ List.mem_map_of_mem hrest)
      have hfound := ih hnodup.2 hrest
      simpa [Record.get?, beq_false_of_ne hne] using hfound

/-- The steps of places lead where the places do. -/
theorem Value.Leads.steps?_eq (h : v.Leads places found) (hv : v.IsTree) :
    v.steps? (places.map Value.Place.step) = .ok found := by
  induction h with
  | here v => rfl
  | @item items i w places found hitem hrest ih =>
    have hstep : (Value.list items).step? (Value.Place.item i).step = .ok (some w) := by
      simpa [Value.Place.step, Value.step?, Value.itemAt?] using hitem
    have hw : w.IsTree := by
      cases hv with
      | scalar hlist => cases hlist
      | list hitems => exact hitems w (List.mem_of_getElem? hitem)
    rw [List.map_cons, Value.steps?, hstep]
    exact ih hw
  | @entry entries key w places found hentry hrest ih =>
    cases hv with
    | scalar _ hmap => cases hmap
    | @map fields hnodup _ hfields =>
      obtain ⟨field, hfield, heq⟩ := List.mem_map.1 hentry
      obtain ⟨rfl, rfl⟩ : field.1 = key ∧ field.2 = w := by simpa using heq
      have hstep : (Value.map (fields.map fun e => (.str e.1, e.2))).step?
          (Value.Place.entry field.1).step = .ok (some field.2) :=
        congrArg Except.ok (Record.get?_fields hnodup hfield)
      rw [List.map_cons, Value.steps?, hstep]
      exact ih (hfields field hfield)
  | @noItem items i hbeyond =>
    have hstep : (Value.list items).step? (Value.Place.item i).step = .ok none := by
      simpa [Value.Place.step, Value.step?, Value.itemAt?] using hbeyond
    rw [List.map_cons, Value.steps?, hstep]
    rfl
  | @noEntry entries key hlacks =>
    have hstep : (Value.map entries).step? (Value.Place.entry key).step = .ok none :=
      congrArg Except.ok (Record.get?_eq_none hlacks)
    rw [List.map_cons, Value.steps?, hstep]
    rfl

end Parts

section Written

/-- A text that can stand behind a point of a path, such as an identifier. -/
def IsPlainWord (s : String) : Prop := s.toList ≠ [] ∧ ∀ c ∈ s.toList, Expr.IsPlain c

/-- The ways to write a step: the number of an item in brackets, the key of an entry between quotes in
brackets, or behind a point. -/
inductive Value.Place.IsWritten : Value.Place → List Char → Prop
  | index (i : Nat) : IsWritten (.item i) ('[' :: Number.digitChars i ++ [']'])
  | quoted {key : String} : IsQuotable key →
      IsWritten (.entry key) ('[' :: '"' :: key.toList ++ ['"', ']'])
  | plain {key : String} : IsPlainWord key → IsWritten (.entry key) ('.' :: key.toList)

/-- The step that is read where a place is written. -/
def Value.Place.read : Value.Place → Result PathStep
  | .item i => do return .index (← digitsNumber (Number.digitChars i))
  | .entry key => .ok (.name key)

variable {v : Value} {places : List Value.Place} {found : Option Value} {pieces : List (List Char)}
  {fuel : Nat} {rest : List Char}

theorem Text.decimalValue?_of_isDigit {c : Char} (h : c.isDigit) :
    Text.decimalValue? c = some (c.toNat - 48) := by
  have hlow : c.toNat < 128 := by
    simp only [Char.isDigit, Bool.and_eq_true, decide_eq_true_eq] at h
    have hhigh : c.toNat ≤ 57 := h.2
    omega
  rw [Text.decimalValue?, if_pos hlow, if_pos h]

/-- The digits of a number are read as it, unless they are too many. -/
theorem digitsNumber_digitChars (n : Nat) :
    digitsNumber (Number.digitChars n) =
      if Number.isWritable n then .ok n
      else .error (.internal (.tooManyDigits (Number.digitChars n).length)) := by
  have hmap {cs : List Char} (h : ∀ c ∈ cs, c.isDigit) :
      cs.mapM Text.decimalValue? = some (cs.map fun c => c.toNat - 48) := by
    induction cs with
    | nil => rfl
    | cons c cs ih =>
      obtain ⟨hc, hcs⟩ := List.forall_mem_cons.1 h
      rw [List.mapM_cons, Text.decimalValue?_of_isDigit hc, ih hcs]
      rfl
  have hvalue := Json.decimalNumber_digitChars n
  rw [Number.decimalNumber] at hvalue
  rw [digitsNumber, hmap fun c hc => Json.isDigit_of_mem_digitChars hc]
  simp only [List.length_map, List.foldl_map, hvalue, Number.isWritable, Int.natAbs_natCast,
    decide_eq_true_eq]
  split
  · next hlong => rw [if_neg (Nat.not_le.2 hlong)]
  · next hshort => rw [if_pos (Nat.not_lt.1 hshort)]

/-- Quotes are closed by the first that a bracket follows. -/
theorem cutQuotedFrom_quotable {cs : List Char} (hquote : '"' ∉ cs) (hline : '\n' ∉ cs) :
    cutQuotedFrom '"' (cs ++ '"' :: ']' :: rest) = some (cs, rest) := by
  induction cs with
  | nil => simp [cutQuotedFrom]
  | cons c cs ih =>
    rw [List.mem_cons, not_or] at hquote hline
    rw [List.cons_append, cutQuotedFrom, if_neg fun h => hquote.1 h.1.symm, if_neg (Ne.symm hline.1),
      ih hquote.2 hline.2]
    rfl

/-- A written step is read up to the next one. -/
theorem pathSteps_isWritten {place : Value.Place} {piece : List Char} (h : place.IsWritten piece)
    (hfuel : (piece ++ rest).length ≤ fuel) (hrest : ∀ c ∈ rest.head?, isNameChar c = false) :
    ∃ less, rest.length ≤ less ∧ pathSteps fuel (piece ++ rest) =
      do return (← place.read) :: (← pathSteps less rest) := by
  rw [List.length_append] at hfuel
  cases h with
  | index i =>
    have hcut : cutIndex ('[' :: Number.digitChars i ++ ']' :: rest) =
        some (Number.digitChars i, rest) :=
      cutIndex_bracket Nat.toDigits_ne_nil fun c hc => by
        rw [Text.isDecimal, Text.decimalValue?_of_isDigit (Json.isDigit_of_mem_digitChars hc)]
        rfl
    simp only [List.cons_append, List.length_cons, List.length_append] at hfuel
    obtain ⟨less, rfl⟩ : ∃ n, fuel = n + 1 := ⟨fuel - 1, by omega⟩
    refine ⟨less, by omega, ?_⟩
    rw [List.cons_append] at hcut
    rw [List.append_assoc, List.cons_append, List.singleton_append, pathSteps, hcut,
      Value.Place.read]
    dsimp only
    cases digitsNumber (Number.digitChars i) <;> rfl
  | @quoted key hkey =>
    have hindex : cutIndex ('[' :: '"' :: (key.toList ++ '"' :: ']' :: rest)) = none := by
      simp [cutIndex, List.span_eq_takeWhile_dropWhile, show Text.isDecimal '"' = false by decide]
    have hcut : cutQuoted ('[' :: '"' :: (key.toList ++ '"' :: ']' :: rest)) =
        some (key.toList, rest) := cutQuotedFrom_quotable hkey.1 hkey.2
    simp only [List.cons_append, List.length_cons, List.length_append] at hfuel
    obtain ⟨less, rfl⟩ : ∃ n, fuel = n + 1 := ⟨fuel - 1, by omega⟩
    refine ⟨less, by omega, ?_⟩
    simp only [List.cons_append, List.append_assoc, List.nil_append]
    rw [pathSteps, hindex, hcut]
    dsimp only
    rw [String.ofList_toList]
    rfl
  | @plain key hkey =>
    have hpos := List.length_pos_iff.2 hkey.1
    rw [List.length_cons] at hfuel
    obtain ⟨less, rfl⟩ : ∃ n, fuel = n + 2 := ⟨fuel - 2, by omega⟩
    refine ⟨less, by omega, ?_⟩
    rw [List.cons_append, Expr.pathSteps_point, Expr.pathSteps_plain hkey.1 hkey.2 hrest]
    rfl

theorem head_flatten (h : List.Forall₂ Value.Place.IsWritten places pieces) :
    ∀ c ∈ pieces.flatten.head?, isNameChar c = false := by
  cases h with
  | nil => simp
  | cons hpiece _ => cases hpiece <;> simp [isNameChar]

/-- The steps of a written path are those of its places. -/
theorem pathSteps_flatten (h : List.Forall₂ Value.Place.IsWritten places pieces)
    (hfuel : pieces.flatten.length ≤ fuel) :
    pathSteps fuel pieces.flatten = places.mapM Value.Place.read := by
  induction h generalizing fuel with
  | nil => cases fuel <;> rfl
  | cons hpiece hrest ih =>
    obtain ⟨less, hless, hsteps⟩ := pathSteps_isWritten hpiece hfuel (head_flatten hrest)
    rw [List.flatten_cons, hsteps, ih hless, List.mapM_cons]

theorem splitPath_written {x : String} (hx : IsPlainWord x)
    (h : List.Forall₂ Value.Place.IsWritten places pieces) :
    splitPath (x ++ .ofList pieces.flatten) = do
      return .name x :: (← places.mapM Value.Place.read) := by
  have hlength : (x ++ .ofList pieces.flatten).length = x.toList.length + pieces.flatten.length := by
    rw [String.length_append, String.length_ofList, String.length_toList]
  obtain ⟨n, hn⟩ := Nat.exists_eq_add_of_le' (List.length_pos_iff.2 hx.1)
  rw [splitPath, hlength, hn, String.toList_append, String.toList_ofList,
    show n + 1 + pieces.flatten.length = n + pieces.flatten.length + 1 by omega,
    Expr.pathSteps_plain hx.1 hx.2 (head_flatten h), pathSteps_flatten h (by omega)]

/-- The steps of places are read, or one of them has an index that is too long. -/
theorem mapM_read_cases (places : List Value.Place) :
    ((∀ i : Nat, .item i ∈ places → Number.isWritable i) ∧
        places.mapM Value.Place.read = .ok (places.map Value.Place.step)) ∨
      (∃ i : Nat, .item i ∈ places ∧ ¬Number.isWritable i) ∧
        ∃ failure, places.mapM Value.Place.read = .error failure := by
  induction places with
  | nil => exact .inl ⟨by simp, rfl⟩
  | cons place places ih =>
    have hplace : (∀ i : Nat, .item i = place → Number.isWritable i) ∧
          place.read = .ok place.step ∨
        (∃ i : Nat, .item i = place ∧ ¬Number.isWritable i) ∧
          ∃ failure, place.read = .error failure := by
      cases place with
      | entry key => exact .inl ⟨by simp, rfl⟩
      | item i =>
        rw [Value.Place.read, digitsNumber_digitChars]
        by_cases hi : Number.isWritable i
        · exact .inl ⟨by simpa using hi, by rw [if_pos hi]; rfl⟩
        · exact .inr ⟨⟨i, rfl, hi⟩, _, by rw [if_neg hi]; rfl⟩
    rw [List.mapM_cons]
    rcases hplace with ⟨hhere, hread⟩ | ⟨⟨i, rfl, hi⟩, failure, hread⟩
    · rcases ih with ⟨hall, hreads⟩ | ⟨⟨i, hmem, hi⟩, failure, hreads⟩
      · refine .inl ⟨fun i hmem => ?_, by rw [hread, hreads]; rfl⟩
        exact (List.mem_cons.1 hmem).elim (hhere i) (hall i)
      · exact .inr ⟨⟨i, List.mem_cons_of_mem _ hmem, hi⟩, failure, by rw [hread, hreads]; rfl⟩
    · exact .inr ⟨⟨i, List.mem_cons_self, hi⟩, failure, by rw [hread]; rfl⟩

/-- A way to write the path to a part of a value. -/
theorem Value.Leads.exists_written (h : v.Leads places found) (hv : v.IsTree)
    (hfound : found.isSome) : ∃ pieces, List.Forall₂ Value.Place.IsWritten places pieces := by
  induction h with
  | here v => exact ⟨[], .nil⟩
  | @item items i w places found hitem hrest ih =>
    cases hv with
    | scalar hlist => cases hlist
    | list hitems =>
      obtain ⟨pieces, hpieces⟩ := ih (hitems w (List.mem_of_getElem? hitem)) hfound
      exact ⟨_, .cons (.index i) hpieces⟩
  | @entry entries key w places found hentry hrest ih =>
    cases hv with
    | scalar _ hmap => cases hmap
    | @map fields hnodup hkeys hfields =>
      obtain ⟨field, hfield, heq⟩ := List.mem_map.1 hentry
      obtain ⟨rfl, rfl⟩ : field.1 = key ∧ field.2 = w := by simpa using heq
      obtain ⟨pieces, hpieces⟩ := ih (hfields field hfield) hfound
      exact ⟨_, .cons (.quoted (hkeys field hfield)) hpieces⟩
  | noItem | noEntry => cases hfound

end Written

section Resolved

variable {x : String} {v : Value} {places : List Value.Place} {found : Option Value}

/-- There is a path to every part of a value, and whichever way it is written, it leads to this part,
and with one step more to nothing where the value has no such item or entry. This is so for exactly
those paths that have no index with more digits than are read. -/
theorem resolvePath_written_iff (hx : IsPlainWord x) (hv : v.IsTree)
    (hleads : v.Leads places found) :
    (found.isSome → ∃ pieces, List.Forall₂ Value.Place.IsWritten places pieces) ∧
      ∀ pieces, List.Forall₂ Value.Place.IsWritten places pieces →
        (resolvePath [(.str x, v)] (x ++ .ofList pieces.flatten) = .ok found ↔
          ∀ i : Nat, .item i ∈ places → Number.isWritable i) := by
  refine ⟨hleads.exists_written hv, fun pieces hpieces => ?_⟩
  have hname : (Value.map [(.str x, v)]).step? (.name x) = .ok (some v) := by
    simp [Value.step?, Record.get?]
  rw [resolvePath, splitPath_written hx hpieces]
  rcases mapM_read_cases places with ⟨hall, hreads⟩ | ⟨⟨i, hmem, hi⟩, failure, hreads⟩
  · refine iff_of_true ?_ hall
    rw [hreads]
    change (Value.map [(.str x, v)]).steps? (.name x :: places.map Value.Place.step) = .ok found
    rw [Value.steps?, hname]
    exact hleads.steps?_eq hv
  · refine iff_of_false ?_ fun hall => hi (hall i hmem)
    rw [hreads]
    intro hok
    cases hok

theorem isPlainWord_of_isName {s : String} (h : Expr.IsName s.toList) : IsPlainWord s := by
  refine ⟨?_, Expr.isPlain_of_isName h⟩
  obtain ⟨c, rest, hcons, -⟩ := h
  simp [hcons]

/-- A list under a key that is no identifier, with a mapping in it. -/
def shelf : Value :=
  .map [(.str "my books", .list [.null, .map [(.str "title", .str "Dune")]])]

theorem isTree_shelf : shelf.IsTree := by
  have hone {key : String} {v : Value} (hkey : IsQuotable key) (hv : v.IsTree) :
      Value.IsTree (.map [(.str key, v)]) :=
    @Value.IsTree.map [(key, v)] (by simp) (by simpa using hkey) (by simpa using hv)
  have hbook : Value.IsTree (.map [(.str "title", .str "Dune")]) :=
    hone (by simp [IsQuotable]) (.scalar rfl rfl)
  have hbooks : Value.IsTree (.list [.null, .map [(.str "title", .str "Dune")]]) := by
    refine .list fun v hv => ?_
    rcases List.mem_cons.1 hv with rfl | hv
    · exact .scalar rfl rfl
    · exact List.mem_singleton.1 hv ▸ hbook
  exact hone (by simp [IsQuotable]) hbooks

/-- `a["my books"][1].title` is the title of the second book, and there is no third one. -/
theorem resolvePath_written_shelf :
    resolvePath [(.str "a", shelf)] "a[\"my books\"][1].title" = .ok (some (.str "Dune")) ∧
      resolvePath [(.str "a", shelf)] "a[\"my books\"][2]" = .ok none := by
  have hname : IsPlainWord "a" := isPlainWord_of_isName ⟨'a', [], rfl, by decide, by simp⟩
  have htitle : IsPlainWord "title" :=
    isPlainWord_of_isName ⟨'t', ['i', 't', 'l', 'e'], rfl, by decide, by simp [Expr.isNameRest]⟩
  have hbooks : IsQuotable "my books" := by simp [IsQuotable]
  have hsecond : shelf.Leads [.entry "my books", .item 1, .entry "title"] (some (.str "Dune")) :=
    .entry (List.mem_singleton_self _) (.item rfl (.entry (List.mem_singleton_self _) (.here _)))
  have hthird : shelf.Leads [.entry "my books", .item 2] none :=
    .entry (List.mem_singleton_self _) (.noItem (Nat.le_refl 2))
  refine ⟨((resolvePath_written_iff hname isTree_shelf hsecond).2 _
    (.cons (.quoted hbooks) (.cons (.index 1) (.cons (.plain htitle) .nil)))).2 ?_,
    ((resolvePath_written_iff hname isTree_shelf hthird).2 _
      (.cons (.quoted hbooks) (.cons (.index 2) .nil))).2 ?_⟩
  · intro i hi
    obtain rfl : i = 1 := by simpa using hi
    rfl
  · intro i hi
    obtain rfl : i = 2 := by simpa using hi
    rfl

/-- An empty list has no item `10 ^ 4300`, but the path to it is not read. -/
theorem resolvePath_long_index :
    (Value.list []).Leads [.item (10 ^ Number.digitLimit)] none ∧
      resolvePath [(.str "a", .list [])]
          ("a" ++ .ofList ('[' :: Number.digitChars (10 ^ Number.digitLimit) ++ [']'])) =
        .error (.internal (.tooManyDigits 4301)) := by
  have hname : IsPlainWord "a" := isPlainWord_of_isName ⟨'a', [], rfl, by decide, by simp⟩
  have hlength : (Number.digitChars (10 ^ Number.digitLimit)).length = 4301 := by
    have hlong : ¬(Number.digitChars (10 ^ Number.digitLimit)).length ≤ Number.digitLimit := by
      rw [Number.digitChars, Nat.length_toDigits_le_iff (by decide) (by decide)]
      exact Nat.lt_irrefl _
    have hfits : (Number.digitChars (10 ^ Number.digitLimit)).length ≤ Number.digitLimit + 1 := by
      rw [Number.digitChars, Nat.length_toDigits_le_iff (by decide) (by decide)]
      exact Nat.pow_lt_pow_right (by decide) (Nat.lt_succ_self _)
    rw [Number.digitLimit] at hlong hfits ⊢
    omega
  have hwritable : ¬Number.isWritable ((10 ^ Number.digitLimit : Nat) : Int) := by
    rw [Number.isWritable, Int.natAbs_natCast, hlength]
    decide
  have hpieces : List.Forall₂ Value.Place.IsWritten [.item (10 ^ Number.digitLimit)]
      ['[' :: Number.digitChars (10 ^ Number.digitLimit) ++ [']']] := .cons (.index _) .nil
  have hsplit := splitPath_written hname hpieces
  rw [List.flatten_singleton, List.mapM_cons, Value.Place.read, digitsNumber_digitChars,
    if_neg hwritable, hlength] at hsplit
  refine ⟨.noItem (Nat.zero_le _), ?_⟩
  rw [resolvePath, hsplit]
  rfl

end Resolved

end BulletScript
