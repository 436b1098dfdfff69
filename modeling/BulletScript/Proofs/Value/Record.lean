import BulletScript.Value.Shown
import Mathlib.Tactic.SplitIfs

/-! Records that are put together from entries. Those with different names are kept as they are; of those
with one name the last is. No key but a text is written with the first letter of a field's name, so that
turning keys into their texts changes nothing under such a name. -/
namespace BulletScript

/-- A value that is there and not null. -/
def Value.present (found : Option Value) : Option Value := found.filter (!·.isNull)

theorem Value.present_eq_some_iff {found : Option Value} {v : Value} :
    present found = some v ↔ found = some v ∧ v ≠ .null := by
  rw [present, Option.filter_eq_some_iff]
  cases v <;> simp [Value.isNull]

theorem Key.same_str_iff {k : Key} {s : String} : k.same (.str s) = true ↔ k = .str s := by
  cases k <;> simp [Key.same, Key.number?]

namespace Record

theorem lookup_of_not_mem {entries : List (String × Value)} {name : String}
    (h : name ∉ entries.map (·.1)) : entries.lookup name = none := by
  rw [List.lookup_eq_none_iff]
  intro e he
  rw [bne_iff_ne]
  rintro rfl
  exact h (List.mem_map.2 ⟨e, he, rfl⟩)

/-- Among entries with different names, those that are null can be left out before looking. -/
theorem lookup_filter_present {entries : List (String × Value)}
    (hnodup : (entries.map (·.1)).Nodup) (name : String) :
    (entries.filter fun e => !e.2.isNull).lookup name = Value.present (entries.lookup name) := by
  induction entries with
  | nil => rfl
  | cons e rest ih =>
    obtain ⟨key, v⟩ := e
    rw [List.map_cons, List.nodup_cons] at hnodup
    rw [List.lookup_cons, List.filter_cons]
    by_cases hname : name = key
    · subst hname
      have hnone := lookup_of_not_mem hnodup.1
      cases hv : v.isNull
      · simp [hv, Value.present, Option.filter_some]
      · simp [hv, Value.present, Option.filter_some, ih hnodup.2, hnone]
    · cases hv : v.isNull <;> simp [List.lookup_cons, ih hnodup.2, beq_false_of_ne hname]

variable {values : Record} {name : String}

theorem get?_eq_none (h : ∀ v, (.str name, v) ∉ values) : values.get? (.str name) = none := by
  rw [Record.get?, Option.map_eq_none_iff, List.find?_eq_none]
  intro entry hentry hsame
  exact h entry.2 (Key.same_str_iff.1 hsame ▸ hentry)

/-- A new name goes to the end of a record. -/
theorem set_of_not_mem {value : Value} (h : ∀ entry ∈ values, entry.1.same (.str name) = false) :
    values.set (.str name) value = values ++ [(.str name, value)] := by
  induction values with
  | nil => rfl
  | cons entry rest ih =>
    obtain ⟨key, old⟩ := entry
    have hkey := h (key, old) (List.mem_cons_self ..)
    rw [Record.set, if_neg (by simpa using hkey), ih fun e he => h e (List.mem_cons_of_mem _ he)]
    rfl

/-- Entries with names of their own are added as they are. -/
theorem update_of_nodup {entries : List (String × Value)} (hnodup : (entries.map (·.1)).Nodup)
    (hnew : ∀ entry ∈ values, ∀ e ∈ entries, entry.1.same (.str e.1) = false) :
    values.update (entries.map fun e => (.str e.1, e.2)) =
      values ++ entries.map fun e => (.str e.1, e.2) := by
  induction entries generalizing values with
  | nil => simp [Record.update]
  | cons e rest ih =>
    rw [List.map_cons, List.nodup_cons] at hnodup
    have hset : values.set (.str e.1) e.2 = values ++ [(.str e.1, e.2)] :=
      set_of_not_mem fun entry he => hnew entry he e (List.mem_cons_self ..)
    have hfresh : ∀ entry ∈ values ++ [(.str e.1, e.2)], ∀ e' ∈ rest,
        entry.1.same (.str e'.1) = false := by
      intro entry hentry e' he'
      rcases List.mem_append.1 hentry with h | h
      · exact hnew entry h e' (List.mem_cons_of_mem _ he')
      · rw [List.mem_singleton.1 h, Key.same_str, beq_eq_false_iff_ne]
        intro heq
        exact hnodup.1 (heq ▸ List.mem_map_of_mem he')
    have hrest := ih hnodup.2 hfresh
    rw [List.map_cons]
    simp only [Record.update, List.foldl_cons] at hrest ⊢
    rw [hset, hrest, List.append_assoc]
    rfl

/-- A name that was set has the value that was set last, any other what it had before. -/
theorem get?_update_last (entries : List (String × Value)) (values : Record) (name : String) :
    (values.update (entries.map fun e => (.str e.1, e.2))).get? (.str name) =
      (entries.reverse.lookup name).or (values.get? (.str name)) := by
  induction entries generalizing values with
  | nil => simp [Record.update]
  | cons e rest ih =>
    obtain ⟨key, value⟩ := e
    have hrest := ih (values.set (.str key) value)
    rw [List.map_cons, List.reverse_cons, List.lookup_append, Option.or_assoc]
    simp only [Record.update, List.foldl_cons] at hrest ⊢
    rw [hrest, get?_set_str]
    by_cases hname : name = key
    · simp [hname]
    · simp [List.lookup_cons, beq_false_of_ne hname, beq_false_of_ne (Ne.symm hname)]

/-- Among different names it does not matter from which end one looks. -/
theorem lookup_reverse {entries : List (String × Value)} (hnodup : (entries.map (·.1)).Nodup)
    (name : String) : entries.reverse.lookup name = entries.lookup name := by
  induction entries with
  | nil => rfl
  | cons e rest ih =>
    obtain ⟨key, value⟩ := e
    rw [List.map_cons, List.nodup_cons] at hnodup
    rw [List.reverse_cons, List.lookup_append, ih hnodup.2, List.lookup_cons]
    by_cases hname : name = key
    · simp [hname, lookup_of_not_mem hnodup.1]
    · simp [List.lookup_cons, beq_false_of_ne hname]

/-- A name that was set has its value, any other what it had before. -/
theorem get?_update_str {entries : List (String × Value)} (hnodup : (entries.map (·.1)).Nodup)
    (values : Record) (name : String) :
    (values.update (entries.map fun e => (.str e.1, e.2))).get? (.str name) =
      (entries.lookup name).or (values.get? (.str name)) := by
  rw [get?_update_last, lookup_reverse hnodup]

theorem set_set (r : Record) (s : String) (v v' : Value) :
    (r.set (.str s) v).set (.str s) v' = r.set (.str s) v' := by
  induction r with
  | nil => simp [Record.set]
  | cons entry rest ih =>
    obtain ⟨key, old⟩ := entry
    by_cases h : key.same (.str s) <;> simp [Record.set, h, ih]

/-- Two names that are set again keep their places. -/
theorem set_set_again (r : Record) (s t : String) (v v' w w' : Value) :
    (((r.set (.str s) v).set (.str t) w).set (.str s) v').set (.str t) w' =
      (r.set (.str s) v').set (.str t) w' := by
  induction r with
  | nil => by_cases h : s = t <;> simp [Record.set, h]
  | cons entry rest ih =>
    obtain ⟨key, old⟩ := entry
    by_cases hs : key.same (.str s) <;> by_cases ht : key.same (.str t) <;>
      simp [Record.set, hs, ht, ih, set_set]

/-- The keys of a record are texts among these names. -/
def KeysIn (names : List String) (r : Record) : Prop :=
  ∀ entry ∈ r, ∃ name ∈ names, entry.1 = .str name

theorem keysIn_nil (names : List String) : KeysIn names [] := nofun

theorem KeysIn.mono {names names' : List String} {r : Record} (h : KeysIn names r)
    (hnames : names ⊆ names') : KeysIn names' r := by
  intro entry hentry
  obtain ⟨name, hname, hkey⟩ := h entry hentry
  exact ⟨name, hnames hname, hkey⟩

theorem KeysIn.set {names : List String} {r : Record} (h : KeysIn names r) (hname : name ∈ names)
    (value : Value) : KeysIn names (r.set (.str name) value) := by
  induction r with
  | nil =>
    intro entry hentry
    rw [List.mem_singleton.1 hentry]
    exact ⟨name, hname, rfl⟩
  | cons entry rest ih =>
    obtain ⟨hfirst, hrest⟩ := List.forall_mem_cons.1 h
    rw [Record.set]
    split
    · exact List.forall_mem_cons.2 ⟨hfirst, hrest⟩
    · exact List.forall_mem_cons.2 ⟨hfirst, ih hrest⟩

/-- A name that is not set keeps what it had. -/
theorem get?_update_of_keysIn {names : List String} {entries : Record} (h : KeysIn names entries)
    (hname : name ∉ names) :
    (values.update entries).get? (.str name) = values.get? (.str name) := by
  induction entries generalizing values with
  | nil => rfl
  | cons entry rest ih =>
    obtain ⟨⟨other, hother, hkey⟩, hrest⟩ := List.forall_mem_cons.1 h
    have hne : other ≠ name := fun heq => hname (heq ▸ hother)
    have hset : (values.set entry.1 entry.2).get? (.str name) = values.get? (.str name) := by
      rw [hkey, get?_set_str, beq_false_of_ne hne, if_neg Bool.false_ne_true]
    have hupdate : ((values.set entry.1 entry.2).update rest).get? (.str name) =
        (values.set entry.1 entry.2).get? (.str name) := ih hrest
    exact hupdate.trans hset

theorem get?_erase_str (r : Record) (s t : String) :
    (r.erase (.str s)).get? (.str t) = if s = t then none else r.get? (.str t) := by
  have hfind : (r.erase (.str s)).get? (.str t) =
      (r.find? fun entry => !entry.1.same (.str s) && entry.1.same (.str t)).map (·.2) := by
    rw [erase, get?, List.find?_filter]
    simp only [Bool.decide_and, Bool.decide_eq_true]
  rw [hfind]
  by_cases h : s = t
  · subst h
    simp
  · rw [if_neg h, get?]
    congr 2
    funext entry
    rw [Bool.eq_iff_iff]
    simp only [Bool.and_eq_true, Bool.not_eq_true', ← Bool.not_eq_true, Key.same_str_iff]
    constructor
    · exact And.right
    · exact fun ht => ⟨fun hs => h (Key.str.inj (hs.symm.trans ht)), ht⟩

end Record

section Keys

/-- The characters with which keys that are no texts are written first. -/
def Key.opens (c : Char) : Bool := c.isDigit || ['-', 'N', 'T', 'F', 'n', 'i', 'b'].contains c

/-- A text that is the text of no other key. -/
def isFieldName (s : String) : Bool := s.toList.head?.all (!Key.opens ·)

/-- A text that begins as keys that are no texts do. -/
def Key.Opened (cs : List Char) : Prop := ∃ c rest, cs = c :: rest ∧ Key.opens c = true

variable {cs ds : List Char}

theorem Key.opened_cons {c : Char} (h : Key.opens c = true) : Key.Opened (c :: cs) :=
  ⟨c, cs, rfl, h⟩

theorem Key.Opened.append (h : Key.Opened cs) (more : List Char) : Key.Opened (cs ++ more) := by
  obtain ⟨c, rest, rfl, hc⟩ := h
  exact Key.opened_cons hc

theorem Key.opened_of_isDigit (hne : ds ≠ []) (h : ∀ c ∈ ds, c.isDigit) : Key.Opened ds := by
  obtain ⟨d, rest, rfl⟩ := List.exists_cons_of_ne_nil hne
  have hd := h d (List.mem_cons_self ..)
  exact Key.opened_cons (by rw [Key.opens, hd, Bool.true_or])

theorem Key.opened_digitChars (n : Nat) : Key.Opened (Number.digitChars n) :=
  Key.opened_of_isDigit Nat.toDigits_ne_nil fun _ =>
    Nat.isDigit_of_mem_toDigits (by decide) (by decide)

theorem Key.opened_signed {negative : Bool} (h : Key.Opened cs) :
    Key.Opened (Number.signed negative cs) := by
  cases negative with
  | true => exact Key.opened_cons (by decide)
  | false => exact h

/-- Whichever way a number is laid out, a digit is first. -/
theorem Key.opened_layout (layout : Number.Layout) (v : Number.Decimal) :
    Key.Opened (layout.chars v) := by
  obtain ⟨d, ds, hdigits, hd⟩ := Key.opened_digitChars v.digits
  have hdigit : Key.Opened (d :: ds) := Key.opened_cons hd
  unfold Number.Layout.chars
  rw [hdigits]
  dsimp only
  split_ifs
  · exact Key.opened_cons (by decide)
  · exact (hdigit.append _).append _
  · exact (hdigit.append _).append _
  · exact Key.opened_cons hd
  · split
    · exact Key.opened_cons (by simp_all)
    · exact hdigit.append _

theorem Key.opened_floatText (x : Float) : Key.Opened (Number.floatText x).toList := by
  rw [Number.floatText, Number.Layout.text, String.toList_ofList]
  split
  · exact Key.opened_cons (by decide)
  · exact Key.opened_signed (Key.opened_cons (by decide))
  · split_ifs
    · exact Key.opened_signed (Key.opened_cons (by decide))
    · exact Key.opened_signed (Key.opened_cons (by decide))
    · exact Key.opened_signed (Key.opened_layout _ _)

/-- The text of a date begins with its year, padded with zeros. -/
theorem Key.opened_stamp (s : Calendar.Stamp) : Key.Opened (s.text " ").toList := by
  have hyear : Key.Opened (Calendar.padded 4 s.date.year).toList := by
    rw [Calendar.padded, String.toList_ofList]
    refine Key.opened_of_isDigit (List.append_ne_nil_of_right_ne_nil _ Nat.toDigits_ne_nil) ?_
    intro c hc
    rcases List.mem_append.1 hc with hzero | hdigit
    · rw [List.eq_of_mem_replicate hzero]
      rfl
    · exact Nat.isDigit_of_mem_toDigits (by decide) (by decide) hdigit
  have hdate : Key.Opened s.date.text.toList := by
    simp only [Calendar.Date.text, String.toList_append, List.append_assoc]
    exact hyear.append _
  unfold Calendar.Stamp.text
  split
  · exact hdate
  · simp only [String.toList_append, List.append_assoc]
    exact hdate.append _

theorem Key.opened_plain {k : Key} (h : ∀ s, k ≠ .str s) : Key.Opened k.plain.toList := by
  cases k with
  | null => exact ⟨_, _, rfl, by decide⟩
  | bool b => cases b <;> exact ⟨_, _, rfl, by decide⟩
  | int n =>
    change Key.Opened (Number.intText n).toList
    rw [Number.intText, String.toList_ofList]
    exact Key.opened_signed (Key.opened_digitChars _)
  | float x => exact Key.opened_floatText x
  | str s => exact absurd rfl (h s)
  | bytes data =>
    change Key.Opened (Text.shownBytes data).toList
    rw [Text.shownBytes, String.toList_ofList]
    exact Key.opened_cons (by decide)
  | stamp s => exact Key.opened_stamp s

/-- Only the text itself is written as a name. -/
theorem Key.plain_eq_iff {name : String} (hname : isFieldName name) {k : Key} :
    k.plain = name ↔ k = .str name := by
  refine ⟨fun hplain => ?_, by rintro rfl; rfl⟩
  by_cases htext : ∃ s, k = .str s
  · obtain ⟨s, rfl⟩ := htext
    exact congrArg Key.str hplain
  · obtain ⟨c, rest, hopen, hc⟩ := Key.opened_plain (k := k) fun s hs => htext ⟨s, hs⟩
    rw [isFieldName, ← hplain, hopen, List.head?_cons, Option.all_some, hc] at hname
    cases hname

end Keys

namespace Record

section Named

/-- The keys of a record are different. -/
def Distinct (r : Record) : Prop := r.Pairwise fun a b => a.1.same b.1 = false

/-- A record with the texts of its keys for keys. -/
def named (r : Record) : Record := Record.ofEntries (r.map fun (k, v) => (.str k.plain, v))

variable {r : Record} {name : String}

theorem lookup_plain_reverse (h : r.Distinct) (hname : isFieldName name) :
    (r.map fun e => (e.1.plain, e.2)).reverse.lookup name = r.get? (.str name) := by
  induction r with
  | nil => rfl
  | cons e rest ih =>
    obtain ⟨k, v⟩ := e
    obtain ⟨hfirst, hrest⟩ := List.pairwise_cons.1 h
    rw [List.map_cons, List.reverse_cons, List.lookup_append, ih hrest]
    by_cases hk : k = .str name
    · -- what follows has other keys, so that the entry is looked up from either end
      subst hk
      have hnone : Record.get? rest (.str name) = none := by
        refine get?_eq_none fun w hw => ?_
        have hother := hfirst _ hw
        rw [Key.same_str, beq_self_eq_true] at hother
        cases hother
      have hplain : (Key.str name).plain = name := rfl
      rw [hnone, Option.none_or]
      simp [hplain, Record.get?]
    · have hplain : (name == k.plain) = false :=
        beq_false_of_ne fun heq => hk ((Key.plain_eq_iff hname).1 heq.symm)
      have hsame : k.same (.str name) = false :=
        Bool.eq_false_iff.2 fun hsame => hk (Key.same_str_iff.1 hsame)
      simp [List.lookup_cons, hplain, Record.get?, hsame]

/-- Under a name there is what the key that is this text had. -/
theorem get?_named (h : r.Distinct) (hname : isFieldName name) :
    r.named.get? (.str name) = r.get? (.str name) := by
  have hupdate := get?_update_last (r.map fun e => (e.1.plain, e.2)) [] name
  rw [List.map_map, lookup_plain_reverse h hname] at hupdate
  have hnil : Record.get? [] (.str name) = none := rfl
  rw [hnil, Option.or_none] at hupdate
  exact hupdate

end Named

end Record

end BulletScript
