import BulletScript.Json.Writer
import BulletScript.Proofs.Json.Consumed
import BulletScript.Proofs.Text.Search
import BulletScript.Proofs.Value.Record
import Mathlib.Tactic.IntervalCases

/-! JSON text read back. What is written for null, truth values, whole numbers, texts, and lists and
mappings of these to any depth is read as the value it was written for, whatever closes it. -/
namespace BulletScript

/-- Values that JSON text holds without loss. The keys of a mapping are texts, each there once. -/
inductive Value.IsData : Value → Prop
  | null : IsData .null
  | bool (b : Bool) : IsData (.bool b)
  | int {n : Int} : Number.isWritable n → IsData (.int n)
  | str (s : String) : IsData (.str s)
  | list {items : List Value} : (∀ v ∈ items, IsData v) → IsData (.list items)
  | map {fields : List (String × Value)} : (fields.map (·.1)).Nodup →
      (∀ field ∈ fields, IsData field.2) → IsData (.map (fields.map fun e => (.str e.1, e.2)))

namespace Json

section Digits

theorem decimalNumber_digitChars (n : Nat) :
    Number.decimalNumber (Number.digitChars n) = n := Nat.ofDigitChars_ten_toDigits

theorem isDigit_of_mem_digitChars {n : Nat} {c : Char} (h : c ∈ Number.digitChars n) :
    c.isDigit = true :=
  Nat.isDigit_of_mem_toDigits (by decide) (by decide) h

/-- Zero is the only number that is written with a zero in front. -/
theorem digitChars_zero_cons {n : Nat} {more : List Char}
    (h : Number.digitChars n = '0' :: more) : more = [] := by
  by_contra hmore
  have hdigits : ∀ c ∈ more, c.isDigit := fun c hc =>
    isDigit_of_mem_digitChars (n := n) (h ▸ List.mem_cons_of_mem _ hc)
  have hvalue : Number.decimalNumber more = n := by
    have hall := decimalNumber_digitChars n
    rw [h, Number.decimalNumber, List.foldl_cons] at hall
    exact hall
  have hlong : (Nat.toDigits 10 n).length ≤ more.length :=
    (Nat.length_toDigits_le_iff (by decide) (List.length_pos_iff.2 hmore)).2
      (hvalue ▸ Number.decimalNumber_lt hdigits)
  have hlength := congrArg List.length h
  rw [Number.digitChars, List.length_cons] at hlength
  omega

theorem ne_of_isDigit {c d : Char} (hc : c.isDigit) (hd : d.isDigit = false) : c ≠ d := by
  rintro rfl
  rw [hc] at hd
  cases hd

/-- A whole number is written with a digit in front, behind a sign if it has one. -/
theorem intText_cons (n : Int) : ∃ d ds, d.isDigit ∧
    Number.digitChars n.natAbs = d :: ds ∧
    (Number.intText n).toList = if n < 0 then '-' :: d :: ds else d :: ds := by
  obtain ⟨d, ds, hdigits⟩ := List.exists_cons_of_ne_nil (Nat.toDigits_ne_nil (b := 10)
    (n := n.natAbs))
  have hd : d.isDigit := isDigit_of_mem_digitChars (n := n.natAbs)
    (by rw [Number.digitChars, hdigits]; exact List.mem_cons_self ..)
  refine ⟨d, ds, hd, hdigits, ?_⟩
  rw [Number.intText, String.toList_ofList, Number.signed, Number.digitChars, hdigits]
  by_cases hneg : n < 0 <;> simp [hneg]

/-- What stands behind a value: nothing, a comma, a bracket or a brace. -/
def Closing (rest : List Char) : Prop := ∀ c ∈ rest.head?, c = ',' ∨ c = ']' ∨ c = '\x7d'

theorem Closing.head {rest : List Char} (h : Closing rest) {p : Char → Bool}
    (hcomma : p ',' = false) (hbracket : p ']' = false) (hbrace : p '\x7d' = false) :
    ∀ c ∈ rest.head?, p c = false := by
  intro c hc
  rcases h c hc with rfl | rfl | rfl <;> assumption

theorem Closing.skipSpace {rest : List Char} (h : Closing rest) : skipSpace rest = rest := by
  cases rest with
  | nil => rfl
  | cons c rest =>
    have hc := h.head (p := isSpace) (by decide) (by decide) (by decide) c rfl
    rw [Json.skipSpace, List.dropWhile_cons, hc]
    rfl

theorem cutWhole_digitChars (n : Nat) {rest : List Char} (hrest : Closing rest) :
    cutWhole (Number.digitChars n ++ rest) = (Number.digitChars n, rest) := by
  have hspan : Number.spanDigits (Number.digitChars n ++ rest) = (Number.digitChars n, rest) :=
    Text.span_append (fun c hc => isDigit_of_mem_digitChars hc)
      (hrest.head (by decide) (by decide) (by decide))
  unfold cutWhole
  rw [hspan]
  dsimp only
  split
  · next more heq =>
    obtain rfl := digitChars_zero_cons heq
    rw [heq]
    rfl
  · rfl

theorem readExponent_closing {rest : List Char} (h : Closing rest) :
    Number.readExponent rest = (0, rest) := by
  cases rest with
  | nil => rfl
  | cons c rest =>
    unfold Number.readExponent
    dsimp only
    rw [if_neg]
    rcases h c rfl with rfl | rfl | rfl <;> decide

theorem cutFraction_closing {rest : List Char} (h : Closing rest) :
    cutFraction rest = ([], rest) := by
  cases rest with
  | nil => rfl
  | cons c rest => rcases h c rfl with rfl | rfl | rfl <;> rfl

/-- A whole number that can be written is read back. -/
theorem readNumber_intText {n : Int} (hn : Number.isWritable n) {rest : List Char}
    (hrest : Closing rest) :
    readNumber ((Number.intText n).toList ++ rest) = .ok (.int n, rest) := by
  have hne : Number.digitChars n.natAbs ≠ [] := Nat.toDigits_ne_nil
  have hfew : ¬ Number.digitLimit < (Number.digitChars n.natAbs).length :=
    Nat.not_lt.2 (of_decide_eq_true hn)
  have hminus : cutMinus ((Number.intText n).toList ++ rest) =
      (decide (n < 0), Number.digitChars n.natAbs ++ rest) := by
    obtain ⟨d, ds, hd, hdigits, htext⟩ := intText_cons n
    rw [htext, hdigits]
    by_cases hneg : n < 0
    · simp [hneg, cutMinus]
    · simp [hneg, cutMinus, ne_of_isDigit hd (d := '-') (by decide)]
  rw [readNumber_eq, hminus]
  dsimp only
  rw [cutWhole_digitChars _ hrest, if_neg hne]
  simp only [cutFraction_closing hrest, readExponent_closing hrest, true_and, if_true, if_neg hfew,
    decimalNumber_digitChars]
  have habs : (if decide (n < 0) then -(n.natAbs : Int) else n.natAbs) = n := by
    by_cases hneg : n < 0
    · rw [if_pos (decide_eq_true hneg)]
      omega
    · rw [if_neg (by simpa using hneg)]
      omega
  rw [habs]

end Digits

section Texts

theorem readUnit_control {n : Nat} (hn : n < 32) {rest : List Char} (hrest : rest ≠ []) :
    readUnit (Text.hexDigits 4 n ++ rest) = .ok (n, rest) := by
  obtain ⟨c, more, rfl⟩ := List.exists_cons_of_ne_nil hrest
  interval_cases n <;> rfl

theorem joinUnits_control {n : Nat} (hn : n < 32) (rest : List Char) :
    joinUnits n rest = .ok (Char.ofNat n, rest) := by
  unfold joinUnits
  rw [if_neg (by omega), if_neg (by omega)]
  rfl

/-- One step reads a character as it is written. -/
theorem readString_charText (c : Char) (start fuel : Nat) (read : List Char) {rest : List Char}
    (hrest : rest ≠ []) : readString start (fuel + 1) read (charText false c ++ rest) =
      readString start fuel (c :: read) rest := by
  have hcode {n : Nat} (h : c.toNat = n) : c = Char.ofNat n := by rw [← h, Char.ofNat_toNat]
  unfold charText
  dsimp only
  split
  · next h => rcases h with rfl | rfl <;> rfl
  split
  · next h => subst h; rfl
  split
  · next h => subst h; rfl
  split
  · next h => subst h; rfl
  split
  · next h => rw [hcode h]; rfl
  split
  · next h => rw [hcode h]; rfl
  split
  · next h =>
    rw [unitEscape, List.cons_append, List.cons_append, readString, readUnit_control h hrest]
    simp only [bind, Except.bind, joinUnits_control h, Char.ofNat_toNat]
  · next hmark _ _ _ _ _ hlow =>
    rw [if_neg (by simp), List.singleton_append]
    rw [not_or] at hmark
    conv_lhs => unfold readString
    split <;> simp_all

theorem charText_ne_nil (c : Char) : charText false c ≠ [] := by
  unfold charText
  dsimp only
  repeat' split
  all_goals simp_all [unitEscape]

theorem length_le_charTexts (cs : List Char) :
    cs.length ≤ (cs.flatMap (charText false)).length := by
  induction cs with
  | nil => exact Nat.le_refl _
  | cons c cs ih =>
    have hc := List.length_pos_iff.2 (charText_ne_nil c)
    rw [List.flatMap_cons, List.length_append, List.length_cons]
    omega

theorem readString_charTexts (start : Nat) {fuel : Nat} (read : List Char) {cs : List Char}
    (rest : List Char) (hfuel : cs.length < fuel) :
    readString start fuel read (cs.flatMap (charText false) ++ '"' :: rest) =
      .ok (.ofList (read.reverse ++ cs), rest) := by
  induction cs generalizing fuel read with
  | nil =>
    obtain ⟨fuel, rfl⟩ := Nat.exists_eq_add_one.2 hfuel
    rw [List.append_nil]
    rfl
  | cons c cs ih =>
    obtain ⟨fuel, rfl⟩ := Nat.exists_eq_add_one.2 (Nat.zero_lt_of_lt hfuel)
    rw [List.flatMap_cons, List.append_assoc, readString_charText _ _ _ _ (by simp),
      ih (c :: read) (Nat.lt_of_succ_lt_succ hfuel), List.reverse_cons, List.append_assoc]
    rfl

theorem toList_stringText (s : String) :
    (stringText false s).toList = '"' :: s.toList.flatMap (charText false) ++ ['"'] :=
  String.toList_ofList

/-- A text is read back from its JSON string. -/
theorem readQuoted_stringText (s : String) (rest : List Char) :
    readQuoted ((stringText false s).toList ++ rest) = .ok (s, rest) := by
  have hlength := length_le_charTexts s.toList
  have htext : (stringText false s).toList ++ rest =
      '"' :: (s.toList.flatMap (charText false) ++ '"' :: rest) := by
    simp [toList_stringText]
  rw [htext, readQuoted, List.drop_one, List.tail_cons,
    readString_charTexts _ [] _ (by simp only [List.length_cons, List.length_append]; omega),
    List.reverse_nil, List.nil_append, String.ofList_toList]

end Texts

section Values

/-- The first character of a value's text is no blank, no mark of a byte order, and no bracket or
brace that closes. -/
def IsOpening (c : Char) : Bool := !isSpace c && c != '\ufeff' && c != ']' && c != '\x7d'

/-- A text that is read as a value, whatever closes it. -/
structure Spells (text : List Char) (v : Value) : Prop where
  head : ∃ c ∈ text.head?, IsOpening c
  reads : ∀ {fuel : Nat} {rest : List Char}, text.length ≤ fuel → Closing rest →
    readValue fuel (text ++ rest) = .ok (v, rest)

variable {text : List Char} {v : Value} {fuel : Nat}

theorem skipSpace_of_head {c : Char} (hc : c ∈ text.head?) (hopen : IsOpening c)
    (rest : List Char) : skipSpace (text ++ rest) = text ++ rest := by
  obtain ⟨cs, rfl⟩ := List.head?_eq_some_iff.1 hc
  have hspace : isSpace c = false := by
    simp only [IsOpening, Bool.and_eq_true, Bool.not_eq_true'] at hopen
    exact hopen.1.1.1
  rw [List.cons_append, skipSpace, List.dropWhile_cons, hspace]
  rfl

theorem Spells.skipSpace (h : Spells text v) (rest : List Char) :
    skipSpace (text ++ rest) = text ++ rest := by
  obtain ⟨c, hc, hopen⟩ := h.head
  exact skipSpace_of_head hc hopen rest

theorem Closing.cons {c : Char} (hc : c = ',' ∨ c = ']' ∨ c = '\x7d') (rest : List Char) :
    Closing (c :: rest) := by
  intro d hd
  rwa [← Option.some.inj hd]

theorem Closing.comma (rest : List Char) : Closing (',' :: rest) := .cons (.inl rfl) rest

/-- Texts in a row with commas between them. -/
def commaed (texts : List (List Char)) : List Char := [','].intercalate texts

@[simp] theorem commaed_singleton (text : List Char) : commaed [text] = text :=
  List.intercalate_singleton

@[simp] theorem commaed_cons_cons (text next : List Char) (texts : List (List Char)) :
    commaed (text :: next :: texts) = text ++ ',' :: commaed (next :: texts) := by
  simp [commaed, List.intercalate_cons_cons]

theorem head?_commaed {c : Char} (hc : c ∈ text.head?) (texts : List (List Char)) :
    c ∈ (commaed (text :: texts)).head? := by
  cases texts <;> simp [Option.mem_def.1 hc]

/-- The items of a list are read one after the other, each with a step of its own. -/
theorem readItems_spelled {texts : List (List Char)} {items : List Value}
    (h : List.Forall₂ Spells texts items) (hne : texts ≠ []) (read : List Value) (rest : List Char)
    (hfuel : (commaed texts).length < fuel) :
    readItems fuel read (commaed texts ++ ']' :: rest) =
      .ok (.list (read.reverse ++ items), rest) := by
  induction h generalizing fuel read with
  | nil => exact absurd rfl hne
  | @cons text item texts items hitem hitems ih =>
    obtain ⟨fuel, rfl⟩ := Nat.exists_eq_add_one.2 (Nat.zero_lt_of_lt hfuel)
    cases hitems with
    | nil =>
      have hclosing : Closing (']' :: rest) := .cons (by simp) rest
      rw [commaed_singleton] at hfuel ⊢
      rw [readItems, hitem.reads (by omega) hclosing]
      simp only [bind, Except.bind, hclosing.skipSpace, List.reverse_cons]
    | @cons next item' texts items hnext =>
      obtain ⟨c, hc, hopen⟩ := hnext.head
      rw [commaed_cons_cons] at hfuel ⊢
      rw [List.length_append, List.length_cons] at hfuel
      rw [List.append_assoc, List.cons_append, readItems, hitem.reads (by omega) (.comma _)]
      simp only [bind, Except.bind, (Closing.comma _).skipSpace,
        skipSpace_of_head (head?_commaed hc _) hopen]
      rw [ih (List.cons_ne_nil _ _) (item :: read) (by omega), List.reverse_cons,
        List.append_assoc, List.singleton_append]

/-- A text that is read as an entry of a mapping: its key, a colon and its value. -/
def SpellsEntry (text : List Char) (field : String × Value) : Prop :=
  ∃ spelled, Spells spelled field.2 ∧ text = (stringText false field.1).toList ++ ':' :: spelled

theorem SpellsEntry.head {field : String × Value} (h : SpellsEntry text field) :
    '"' ∈ text.head? := by
  obtain ⟨spelled, -, rfl⟩ := h
  simp [toList_stringText]

/-- One step reads an entry, and then what follows it. -/
theorem readEntries_entry {field : String × Value} (h : SpellsEntry text field)
    (hfuel : text.length ≤ fuel) (read : Record) {rest : List Char} :
    Closing rest → readEntries (fuel + 1) read (text ++ rest) =
      match rest with
      | ',' :: rest => readEntries fuel (read.set (.str field.1) field.2) (skipSpace rest)
      | '\x7d' :: rest => .ok (.map (read.set (.str field.1) field.2), rest)
      | rest => misread .noComma rest := by
  intro hrest
  obtain ⟨spelled, hspelled, rfl⟩ := h
  have hquoted := readQuoted_stringText field.1 (':' :: spelled ++ rest)
  have hcolon (more : List Char) : skipSpace (':' :: more) = ':' :: more := rfl
  simp only [List.length_append, List.length_cons] at hfuel
  rw [List.append_assoc]
  generalize hkey : (stringText false field.1).toList ++ (':' :: spelled ++ rest) = cs at hquoted ⊢
  obtain ⟨behind, rfl⟩ : ∃ behind, cs = '"' :: behind := ⟨_, by rw [← hkey, toList_stringText]; rfl⟩
  rw [readEntries]
  simp only [hquoted, bind, Except.bind, List.cons_append, hcolon, hspelled.skipSpace,
    hspelled.reads (show spelled.length ≤ fuel by omega) hrest]
  exact hrest.skipSpace.symm ▸ rfl

/-- The entries of a mapping are read one after the other. A key that is new goes to the end. -/
theorem readEntries_spelled {texts : List (List Char)} {fields : List (String × Value)}
    (h : List.Forall₂ SpellsEntry texts fields) (hne : texts ≠ [])
    (hnodup : (fields.map (·.1)).Nodup) (read : Record)
    (hnew : ∀ entry ∈ read, ∀ field ∈ fields, entry.1.same (.str field.1) = false)
    (rest : List Char) (hfuel : (commaed texts).length < fuel) :
    readEntries fuel read (commaed texts ++ '\x7d' :: rest) =
      .ok (.map (read ++ fields.map fun e => (.str e.1, e.2)), rest) := by
  induction h generalizing fuel read with
  | nil => exact absurd rfl hne
  | @cons text field texts fields hentry hentries ih =>
    obtain ⟨fuel, rfl⟩ := Nat.exists_eq_add_one.2 (Nat.zero_lt_of_lt hfuel)
    rw [List.map_cons, List.nodup_cons] at hnodup
    have hset : read.set (.str field.1) field.2 = read ++ [(.str field.1, field.2)] :=
      Record.set_of_not_mem fun entry he => hnew entry he field (List.mem_cons_self ..)
    cases hentries with
    | nil =>
      rw [commaed_singleton] at hfuel ⊢
      rw [readEntries_entry hentry (by omega) read (.cons (by simp) rest), hset]
      rfl
    | @cons next field' texts fields hnext hrest =>
      have hfresh : ∀ entry ∈ read ++ [(Key.str field.1, field.2)], ∀ e ∈ field' :: fields,
          entry.1.same (.str e.1) = false := by
        intro entry hentry e he
        rcases List.mem_append.1 hentry with h | h
        · exact hnew entry h e (List.mem_cons_of_mem _ he)
        · rw [List.mem_singleton.1 h, Key.same_str, beq_eq_false_iff_ne]
          exact fun heq => hnodup.1 (heq ▸ List.mem_map_of_mem he)
      rw [commaed_cons_cons] at hfuel ⊢
      rw [List.length_append, List.length_cons] at hfuel
      rw [List.append_assoc, List.cons_append,
        readEntries_entry hentry (by omega) read (.comma _)]
      simp only [skipSpace_of_head (head?_commaed hnext.head _) (by decide), hset]
      rw [ih (List.cons_ne_nil _ _) hnodup.2 _ hfresh (by omega), List.append_assoc]
      rfl

theorem spells_null : Spells "null".toList .null where
  head := ⟨'n', rfl, rfl⟩
  reads := by
    intro fuel rest hfuel _
    obtain ⟨fuel, rfl⟩ := Nat.exists_eq_add_one.2 (Nat.zero_lt_of_lt hfuel)
    rfl

theorem spells_bool (b : Bool) : Spells (if b then "true" else "false").toList (.bool b) where
  head := by cases b <;> simp [IsOpening, isSpace]
  reads := by
    intro fuel rest hfuel _
    cases b
    all_goals
      obtain ⟨fuel, rfl⟩ := Nat.exists_eq_add_one.2 (Nat.zero_lt_of_lt hfuel)
      rfl

theorem spells_stringText (s : String) : Spells (stringText false s).toList (.str s) where
  head := ⟨'"', by simp [toList_stringText], rfl⟩
  reads := by
    intro fuel rest hfuel _
    have hquoted := readQuoted_stringText s rest
    rw [toList_stringText] at hfuel hquoted ⊢
    obtain ⟨fuel, rfl⟩ := Nat.exists_eq_add_one.2 (Nat.zero_lt_of_lt hfuel)
    rw [List.cons_append, List.cons_append] at hquoted ⊢
    rw [readValue, hquoted]
    rfl

/-- No word begins with a digit, and none with a sign and a digit. -/
theorem readWord?_of_isDigit {d : Char} (hd : d.isDigit) (cs : List Char) :
    readWord? (d :: cs) = none ∧ readWord? ('-' :: d :: cs) = none := by
  have hne {c : Char} (hc : c.isDigit = false) : (c == d) = false :=
    beq_eq_false_iff_ne.2 (ne_of_isDigit hd hc).symm
  constructor <;> simp [readWord?, words, List.isPrefixOf, hne]

theorem spells_intText {n : Int} (hn : Number.isWritable n) :
    Spells (Number.intText n).toList (.int n) := by
  obtain ⟨d, ds, hd, -, htext⟩ := intText_cons n
  have hne {c : Char} (hc : c.isDigit = false) : d ≠ c := ne_of_isDigit hd hc
  refine ⟨?_, fun {fuel rest} hfuel hrest => ?_⟩
  · rw [htext]
    split
    · exact ⟨'-', rfl, rfl⟩
    · exact ⟨d, rfl, by simp [IsOpening, isSpace, hne]⟩
  · have hread := readNumber_intText hn hrest
    obtain ⟨hword, hsigned⟩ := readWord?_of_isDigit hd (ds ++ rest)
    by_cases hneg : n < 0
    all_goals
      simp only [htext, hneg, if_true, if_false, List.cons_append, List.length_cons] at *
      obtain ⟨fuel, rfl⟩ := Nat.exists_eq_add_one.2 (Nat.zero_lt_of_lt hfuel)
    · simp [readValue, hsigned, hread]
    · simp [readValue, hword, hread, hne]

theorem spells_list {texts : List (List Char)} {items : List Value}
    (h : List.Forall₂ Spells texts items) :
    Spells ('[' :: commaed texts ++ [']']) (.list items) where
  head := ⟨'[', rfl, rfl⟩
  reads := by
    intro fuel rest hfuel _
    obtain ⟨fuel, rfl⟩ := Nat.exists_eq_add_one.2 (Nat.zero_lt_of_lt hfuel)
    cases h with
    | nil => rfl
    | @cons text item texts items hitem hitems =>
      obtain ⟨c, hc, hopen⟩ := hitem.head
      obtain ⟨cs, hcs⟩ := List.head?_eq_some_iff.1 (head?_commaed hc texts)
      have hitems := readItems_spelled (.cons hitem hitems) (List.cons_ne_nil _ _) [] rest
        (show (commaed (text :: texts)).length < fuel by simp at hfuel; omega)
      have hskip := skipSpace_of_head (head?_commaed hc texts) hopen (']' :: rest)
      rw [List.cons_append, List.cons_append, List.append_assoc, List.singleton_append, readValue,
        hskip]
      rw [hcs, List.cons_append] at *
      split
      · next heq => simp_all [IsOpening]
      · exact hitems

theorem spells_map {texts : List (List Char)} {fields : List (String × Value)}
    (h : List.Forall₂ SpellsEntry texts fields) (hnodup : (fields.map (·.1)).Nodup) :
    Spells ('\x7b' :: commaed texts ++ ['\x7d']) (.map (fields.map fun e => (.str e.1, e.2))) where
  head := ⟨'\x7b', rfl, rfl⟩
  reads := by
    intro fuel rest hfuel _
    obtain ⟨fuel, rfl⟩ := Nat.exists_eq_add_one.2 (Nat.zero_lt_of_lt hfuel)
    cases h with
    | nil => rfl
    | @cons text field texts fields hentry hentries =>
      obtain ⟨cs, hcs⟩ := List.head?_eq_some_iff.1 (head?_commaed hentry.head texts)
      have hentries := readEntries_spelled (.cons hentry hentries) (List.cons_ne_nil _ _) hnodup
        [] (List.forall_mem_nil _) rest
        (show (commaed (text :: texts)).length < fuel by simp at hfuel; omega)
      have hskip := skipSpace_of_head (head?_commaed hentry.head texts) (by decide) ('\x7d' :: rest)
      rw [List.cons_append, List.cons_append, List.append_assoc, List.singleton_append, readValue,
        hskip]
      rw [hcs, List.cons_append] at *
      exact hentries

/-- A value has a text from which it is read. -/
def Written (v : Value) : Prop :=
  ∃ text, write compact plainString v = .ok text ∧ Spells text.toList v

theorem writeItems_spells {items : List Value} (h : ∀ v ∈ items, Written v) :
    ∃ texts, writeItems compact plainString items = .ok texts ∧
      List.Forall₂ Spells (texts.map String.toList) items := by
  induction items with
  | nil => exact ⟨[], rfl, .nil⟩
  | cons item items ih =>
    obtain ⟨⟨text, htext, hitem⟩, hrest⟩ := List.forall_mem_cons.1 h
    obtain ⟨texts, htexts, hitems⟩ := ih hrest
    refine ⟨text :: texts, ?_, .cons hitem hitems⟩
    simp only [writeItems, htext, htexts, bind, Except.bind, pure, Except.pure]

theorem writeEntries_spells {fields : List (String × Value)} (h : ∀ e ∈ fields, Written e.2) :
    ∃ texts, writeEntries compact plainString (fields.map fun e => (.str e.1, e.2)) = .ok texts ∧
      List.Forall₂ SpellsEntry (texts.map String.toList) fields := by
  induction fields with
  | nil => exact ⟨[], rfl, .nil⟩
  | cons field fields ih =>
    obtain ⟨⟨text, htext, hvalue⟩, hrest⟩ := List.forall_mem_cons.1 h
    obtain ⟨texts, htexts, hentries⟩ := ih hrest
    have hentry : SpellsEntry (stringText false field.1 ++ ":" ++ text).toList field :=
      ⟨text.toList, hvalue, by simp [String.toList_append]⟩
    refine ⟨(stringText false field.1 ++ ":" ++ text) :: texts, ?_, .cons hentry hentries⟩
    simp only [List.map_cons, writeEntries, keyText, htext, htexts, bind, Except.bind, pure,
      Except.pure]
    rfl

/-- What is written for data is read as that data. -/
theorem written_of_isData (h : v.IsData) : Written v := by
  induction h with
  | null => exact ⟨_, rfl, spells_null⟩
  | bool b => exact ⟨_, rfl, spells_bool b⟩
  | int hn => exact ⟨_, rfl, spells_intText hn⟩
  | str s => exact ⟨_, rfl, spells_stringText s⟩
  | list _ ih =>
    obtain ⟨texts, hwritten, hspelled⟩ := writeItems_spells ih
    refine ⟨_, by rw [write, hwritten]; rfl, ?_⟩
    simpa [compact, commaed, String.toList_intercalate] using spells_list hspelled
  | map hnodup _ ih =>
    obtain ⟨texts, hwritten, hspelled⟩ := writeEntries_spells ih
    refine ⟨_, by rw [write, hwritten]; rfl, ?_⟩
    simpa [compact, commaed, String.toList_intercalate] using spells_map hspelled hnodup

/-- A text that stands for a value by itself is that value. -/
theorem Spells.read? {s : String} (h : Spells s.toList v) : read? s = some v := by
  obtain ⟨c, hc, hopen⟩ := h.head
  have hmark : s.toList.head? ≠ some '\ufeff' := by
    intro hmark
    obtain rfl := Option.some.inj (hmark.symm.trans hc)
    cases hopen
  have hclosing : Closing [] := by simp [Closing]
  have hread : readValue (2 * s.toList.length + 2) (s.toList ++ []) = .ok (v, []) :=
    h.reads (by omega) hclosing
  have hskip := skipSpace_of_head hc hopen []
  rw [List.append_nil] at hread hskip
  rw [Json.read?, readChars, if_neg hmark, hskip, hread]
  rfl

end Values

end Json

end BulletScript
