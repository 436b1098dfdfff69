import BulletScript.Proofs.Script.InnerKey

/-! Options on one line, each in backticks or bare, are read back. A bare value ends before the next
known key, so between two options it must be there, and the keys in it must leave that key its blank. -/
namespace BulletScript.Script

open Text Outline Written

variable {known : Option (List String)} {cs tail : List Char}

section Lines

/-- An option as it stands on a line, in backticks or bare. -/
inductive Inline where
  | quoted (key value : String)
  | bare (key value : String)

namespace Inline

def key : Inline → String
  | .quoted key _ | .bare key _ => key

def value : Inline → String
  | .quoted _ value | .bare _ value => value

def text : Inline → String
  | .quoted key value => pair key value
  | .bare key value => key ++ ": " ++ value

/-- A value that can be written as it is: one in backticks has none in it, a bare one has no blanks
around it, does not begin with a backtick and holds no known key. -/
def Plain (known : Option (List String)) : Inline → Prop
  | .quoted _ value => '\x60' ∉ value.toList
  | .bare _ value =>
    trim value = value ∧ value.toList.head? ≠ some '\x60' ∧ ¬ HoldsKey known value.toList

instance : (o : Inline) → Decidable (o.Plain known)
  | .quoted _ value => inferInstanceAs (Decidable ('\x60' ∉ value.toList))
  | .bare _ value => inferInstanceAs (Decidable
    (trim value = value ∧ value.toList.head? ≠ some '\x60' ∧ ¬ HoldsKey known value.toList))

/-- A value behind which another option is found: a bare one that is there, with an even number of
keys in a row at its end. -/
def Parted : Inline → Prop
  | .quoted _ _ => True
  | .bare _ value => value ≠ "" ∧ ∃ n, n % 2 = 0 ∧ EndsInKeys n value.toList

/-- Options on one line, with a blank between them. -/
def line (options : List Inline) : String := " ".intercalate (options.map text)

end Inline

open Inline

variable {options : List Inline} {o : Inline}

/-- What stands behind the first option of a line. -/
def behindFirst (options : List Inline) : List Char :=
  if options = [] then [] else ' ' :: (line options).toList

theorem toList_line_cons (o : Inline) (options : List Inline) :
    (line (o :: options)).toList = o.text.toList ++ behindFirst options := by
  cases options with
  | nil => simp [line, behindFirst]
  | cons next rest => simp [line, behindFirst, String.intercalate_cons_cons, String.append_assoc]

theorem Inline.toList_text (o : Inline) :
    ∃ back, o.text.toList = o.key.toList ++ ':' :: ' ' :: back := by
  cases o with
  | quoted key value => exact ⟨_, toList_pair key value⟩
  | bare key value => exact ⟨value.toList, by simp [text, Inline.key]⟩

/-- Behind an option stands the key of the next one. -/
theorem exists_behindFirst_eq (hkey : isKey o.key = true) (options : List Inline) :
    ∃ (k : InnerKey) (back : List Char), k.key = o.key ∧
      behindFirst (o :: options) = k.text ++ ' ' :: back := by
  obtain ⟨back, hback⟩ := o.toList_text
  refine ⟨⟨[' '], o.key, [], List.forall_mem_singleton.2 isBlank_space, by simp, hkey,
    List.forall_mem_nil _⟩, back ++ behindFirst options, rfl, ?_⟩
  rw [behindFirst, if_neg (List.cons_ne_nil _ _), toList_line_cons, hback]
  simp [InnerKey.text]

theorem dropWhile_behindFirst (h : ∀ o ∈ options, isKey o.key = true) :
    (behindFirst options).dropWhile isBlank = (line options).toList := by
  cases options with
  | nil => rfl
  | cons o options =>
    obtain ⟨back, hback⟩ := o.toList_text
    obtain ⟨c, cs, hkey, hc, -⟩ := exists_of_isKey (h o List.mem_cons_self)
    rw [behindFirst, if_neg (List.cons_ne_nil _ _), List.dropWhile_cons_of_pos isBlank_space,
      toList_line_cons, hback, hkey, List.cons_append, List.cons_append,
      List.dropWhile_cons_of_neg (by simp [isBlank_of_isKeyChar (isKeyChar_of_startsKey hc)])]

variable {key value : String}

theorem cutKey?_bare (hkey : isKey key = true)
    (hcs : cs.dropWhile isBlank = (Inline.bare key value).text.toList ++ tail) :
    cutKey? (cs.dropWhile isBlank) = some (key.toList, ' ' :: (value.toList ++ tail)) := by
  rw [hcs, ← cutKey?_append hkey]
  simp [Inline.text]

theorem trimChars_of_plain (h : (Inline.bare key value).Plain known) :
    trimChars value.toList = value.toList := by
  simpa [trim] using congrArg String.toList h.1

/-- A bare value that is there starts where it was written. -/
theorem bare_start (h : (Inline.bare key value).Plain known) (tail : List Char)
    (htail : value = "" → tail = []) :
    (' ' :: (value.toList ++ tail)).dropWhile isBlank = value.toList ++ tail ∧
      (value.toList ++ tail).head? ≠ some '\x60' := by
  have hstart := (trimChars_eq_self_iff.1 (trimChars_of_plain h)).1
  have hquote := h.2.1
  rw [List.dropWhile_cons_of_pos isBlank_space]
  cases hvalue : value.toList with
  | nil =>
    rw [htail (String.toList_eq_nil_iff.1 hvalue)]
    exact ⟨rfl, nofun⟩
  | cons c cs =>
    rw [hvalue] at hstart hquote
    exact ⟨List.dropWhile_cons_of_neg (by simp [hstart c rfl]), hquote⟩

/-- A bare value at the end of a line. -/
theorem scanPairs_last (hkey : isKey key = true) (hplain : (Inline.bare key value).Plain known)
    (hcs : cs.dropWhile isBlank = (Inline.bare key value).text.toList ++ []) :
    scanPairs known cs = [(key, value)] := by
  obtain ⟨hstart, hquote⟩ := bare_start hplain [] fun _ => rfl
  rw [scanPairs_bare known (cutKey?_bare hkey hcs) hstart hquote, List.append_nil,
    cutAtKey_of_not_holdsKey hplain.2.2, trimChars_of_plain hplain, String.ofList_toList,
    String.ofList_toList, scanPairs_none known rfl]

/-- A bare value before another option, where one is found behind it. -/
theorem scanPairs_parted (hkey : isKey key = true) (hplain : (Inline.bare key value).Plain known)
    (ho : isKey o.key = true) (hknown : isKnown known o.key.toList = true)
    (hcs : cs.dropWhile isBlank =
      (Inline.bare key value).text.toList ++ behindFirst (o :: options))
    (hparted : (Inline.bare key value).Parted) :
    scanPairs known cs = (key, value) :: scanPairs known (behindFirst (o :: options)) := by
  obtain ⟨hne, n, heven, hends⟩ := hparted
  obtain ⟨k, back, hk, htail⟩ := exists_behindFirst_eq ho options
  have hvalue := trimChars_of_plain hplain
  obtain ⟨hstart, hquote⟩ := bare_start hplain (behindFirst (o :: options)) fun h => absurd h hne
  have hnext : cutAtKey known (behindFirst (o :: options)) = ([], behindFirst (o :: options)) := by
    rw [htail]
    exact cutAtKey_of_known (cutInnerKey?_text k (by simp [isBlank_space])) (hk ▸ hknown)
  have hcut := cutAtKey_endsInKeys hends (trimChars_eq_self_iff.1 hvalue).2 hplain.2.2
    (htail ▸ k.behind_text _)
  rw [if_pos heven, hnext, List.append_nil] at hcut
  rw [scanPairs_bare known (cutKey?_bare hkey hcs) hstart hquote, hcut, hvalue,
    String.ofList_toList, String.ofList_toList]

/-- How many characters of a text are no blanks. -/
def inked (cs : List Char) : Nat := cs.countP (!isBlank ·)

theorem inked_append (cs ds : List Char) : inked (cs ++ ds) = inked cs + inked ds :=
  List.countP_append

theorem inked_cons {c : Char} (h : isBlank c = false) (cs : List Char) :
    inked (c :: cs) = inked cs + 1 :=
  List.countP_cons_of_pos (by simp [h])

theorem inked_blanks (h : ∀ c ∈ cs, isBlank c) : inked cs = 0 :=
  List.countP_eq_zero.2 fun c hc => by simp [h c hc]

theorem inked_trimChars (cs : List Char) : inked (trimChars cs) = inked cs :=
  countP_trimChars (by simp) cs

/-- What is read behind a value up to the next known key starts with what stands there. -/
theorem lt_inked_cutAtKey (known : Option (List String)) (front blanks : List Char) {c : Char}
    (hc : isBlank c = false) (cs : List Char) :
    inked front < inked (front ++ (blanks ++ (cutAtKey known (c :: cs)).1)) := by
  have hnone : cutInnerKey? (c :: cs) = none := by simp [cutInnerKey?, hc]
  have hread : (cutAtKey known (c :: cs)).1 = c :: (cutAtKey known cs).1 := by
    rw [cutAtKey_cons hnone]
  rw [hread, inked_append, inked_append, inked_cons hc]
  omega

/-- A bare value before another option, where more than the value is read. -/
theorem scanPairs_ne_of_not_parted (hkey : isKey key = true)
    (hplain : (Inline.bare key value).Plain known) (ho : isKey o.key = true)
    (hcs : cs.dropWhile isBlank =
      (Inline.bare key value).text.toList ++ behindFirst (o :: options))
    (hparted : ¬ (Inline.bare key value).Parted) (entries : List (String × String)) :
    scanPairs known cs ≠ (key, value) :: entries := by
  obtain ⟨k, back, hk, htail⟩ := exists_behindFirst_eq ho options
  obtain ⟨c, word, hword, hc, -⟩ := exists_of_isKey k.isKey
  obtain ⟨next, hnext⟩ : ∃ next, (behindFirst (o :: options)).dropWhile isBlank = c :: next := by
    rw [htail, (k.span_text _).2, hword]
    exact ⟨_, rfl⟩
  have hvalue := trimChars_of_plain hplain
  -- the value that is read goes on with the key of the next option
  obtain ⟨bare, blanks, hstart, hquote, hread⟩ : ∃ bare blanks,
      (' ' :: (value.toList ++ behindFirst (o :: options))).dropWhile isBlank = bare ∧
      bare.head? ≠ some '\x60' ∧
      (cutAtKey known bare).1 = value.toList ++ (blanks ++ (cutAtKey known (c :: next)).1) := by
    by_cases hne : value = ""
    · refine ⟨c :: next, [], ?_, ?_, by rw [hne]; rfl⟩
      · rw [hne, List.dropWhile_cons_of_pos isBlank_space, String.toList_empty, List.nil_append,
          hnext]
      · rintro ⟨⟩
        exact absurd hc (by decide)
    · obtain ⟨hstart, hquote⟩ :=
        bare_start hplain (behindFirst (o :: options)) fun h => absurd h hne
      have hlast := (trimChars_eq_self_iff.1 hvalue).2
      obtain ⟨n, hends⟩ := exists_endsInKeys hlast
      have hodd : ¬ n % 2 = 0 := fun heven => hparted ⟨hne, n, heven, hends⟩
      have hcut := cutAtKey_endsInKeys hends hlast hplain.2.2 (htail ▸ k.behind_text _)
      rw [if_neg hodd, hnext] at hcut
      exact ⟨_, _, hstart, hquote, by rw [hcut]⟩
  rw [scanPairs_bare known (cutKey?_bare hkey hcs) hstart hquote, hread]
  intro heq
  have hfirst := congrArg (fun e => inked e.2.toList) (List.cons.inj heq).1
  simp only [String.toList_ofList, inked_trimChars] at hfirst
  have hlt := lt_inked_cutAtKey known value.toList blanks
    (isBlank_of_isKeyChar (isKeyChar_of_startsKey hc)) next
  omega

/-- The pairs of a line are its options in order, if and only if each bare value before another
option is there and ends in an even number of keys. -/
theorem scanned_line_iff (hkeys : ∀ o ∈ options, isKey o.key = true)
    (hplain : ∀ o ∈ options, o.Plain known)
    (hknown : ∀ o ∈ options.tail, isKnown known o.key.toList = true)
    (hcs : cs.dropWhile isBlank = (line options).toList) :
    scanPairs known cs = options.map (fun o => (o.key, o.value)) ↔
      ∀ o ∈ options.dropLast, o.Parted := by
  induction options generalizing cs with
  | nil =>
    have hnone : scanPairs known cs = [] := scanPairs_none known (by rw [hcs]; rfl)
    simp [hnone]
  | cons o rest ih =>
    have hkey := hkeys o List.mem_cons_self
    have hplain' := hplain o List.mem_cons_self
    have hkeys' := fun o ho => hkeys o (List.mem_cons_of_mem _ ho)
    have hrest := ih hkeys' (fun o ho => hplain o (List.mem_cons_of_mem _ ho))
      (fun o ho => hknown o (List.mem_of_mem_tail ho)) (dropWhile_behindFirst hkeys')
    rw [toList_line_cons] at hcs
    cases rest with
    | nil =>
      suffices h : scanPairs known cs = [(o.key, o.value)] by simpa using h
      cases o with
      | quoted key value =>
        rw [scanPairs_pair known hkey hplain' hcs, behindFirst, if_pos rfl, scanPairs_none known rfl]
        rfl
      | bare key value => exact scanPairs_last hkey hplain' hcs
    | cons next rest =>
      rw [List.dropLast_cons_cons, List.forall_mem_cons, ← hrest, List.map_cons]
      cases o with
      | quoted key value =>
        rw [scanPairs_pair known hkey hplain' hcs]
        simp [Parted, Inline.key, Inline.value]
      | bare key value =>
        have hnext := hkeys' next List.mem_cons_self
        by_cases hparted : (Inline.bare key value).Parted
        · rw [scanPairs_parted hkey hplain' hnext (hknown next List.mem_cons_self) hcs hparted]
          simp [hparted, Inline.key, Inline.value]
        · have hread := scanPairs_ne_of_not_parted hkey hplain' hnext hcs hparted
          exact ⟨fun heq => absurd heq (hread _), fun h => absurd h.1 hparted⟩

/-- The pairs that a line of options stands for. -/
def Inline.entries (options : List Inline) : List (String × String) :=
  options.map fun o => (o.key, o.value)

/-- Options on one line are read back in order, each with its value, if and only if each bare value
before another option is there and ends in an even number of keys. -/
theorem inline_options_read_iff (hkeys : ∀ o ∈ options, isKey o.key = true)
    (hnodup : (options.map Inline.key).Nodup) (hplain : ∀ o ∈ options, o.Plain known)
    (hknown : ∀ o ∈ options.tail, isKnown known o.key.toList = true) :
    (scanPairs known (line options).toList = entries options ↔ ∀ o ∈ options.dropLast, o.Parted) ∧
      ((∀ o ∈ options.dropLast, o.Parted) →
        inlineRecord known (line options) = optionRecord (entries options)) := by
  have hcs : (line options).toList.dropWhile isBlank = (line options).toList := by
    rw [← dropWhile_behindFirst hkeys, List.dropWhile_idempotent isBlank]
  have hiff := scanned_line_iff hkeys hplain hknown hcs
  refine ⟨hiff, fun hparted => ?_⟩
  have hkeys' : (entries options).map (·.1) = options.map Inline.key := by simp [entries]
  rw [inlineRecord, hiff.2 hparted]
  exact ofEntries_scanned (hkeys' ▸ hnodup)

/-- A bare value with a colon in it, and an option in backticks. -/
def levelLine : List Inline := [.bare "log" "Result: ok", .quoted "level" "warn"]

theorem inline_options_read_iff_level : (∀ o ∈ levelLine, isKey o.key = true) ∧
    (levelLine.map Inline.key).Nodup ∧ (∀ o ∈ levelLine, o.Plain (some ["level"])) ∧
    (∀ o ∈ levelLine.tail, isKnown (some ["level"]) o.key.toList = true) ∧
    (∀ o ∈ levelLine.dropLast, o.Parted) ∧
    scanPairs (some ["level"]) (line levelLine).toList = entries levelLine ∧
    inlineRecord (some ["level"]) (line levelLine) = optionRecord (entries levelLine) := by
  have hkeys : ∀ o ∈ levelLine, isKey o.key = true := by decide
  have hnodup : (levelLine.map Inline.key).Nodup := by decide
  have hplain : ∀ o ∈ levelLine, o.Plain (some ["level"]) := by decide
  have hknown : ∀ o ∈ levelLine.tail, isKnown (some ["level"]) o.key.toList = true := by decide
  have hend : ¬ EndsInKey "Result: ok".toList := by
    rintro ⟨k, front, hsplit⟩
    have hlast := congrArg List.getLast? hsplit
    simp only [InnerKey.text, ← List.append_assoc, List.getLast?_concat] at hlast
    exact absurd hlast (by decide)
  have hparted : ∀ o ∈ levelLine.dropLast, o.Parted :=
    List.forall_mem_singleton.2 ⟨by decide, 0, rfl, .none hend⟩
  obtain ⟨hiff, hrecord⟩ := inline_options_read_iff hkeys hnodup hplain hknown
  exact ⟨hkeys, hnodup, hplain, hknown, hparted, hiff.2 hparted, hrecord hparted⟩

/-- A bare value that is empty, and an option behind it. -/
def dateLine : List Inline := [.bare "date" "", .bare "format" "unix"]

theorem empty_value_takes_option : (∀ o ∈ dateLine, isKey o.key = true) ∧
    (dateLine.map Inline.key).Nodup ∧ (∀ o ∈ dateLine, o.Plain (some ["format"])) ∧
    (∀ o ∈ dateLine.tail, isKnown (some ["format"]) o.key.toList = true) ∧
    inlineRecord (some ["format"]) (line dateLine) ≠ optionRecord (entries dateLine) := by
  have hcut : cutAtKey (some ["format"]) "format: unix".toList = ("format: unix".toList, []) :=
    cutAtKey_of_not_holdsKey (by decide)
  have hscan : scanPairs (some ["format"]) (line dateLine).toList = [("date", "format: unix")] := by
    have hline : cutKey? ((line dateLine).toList.dropWhile isBlank) =
        some ("date".toList, "  format: unix".toList) := by decide
    have hbare : "  format: unix".toList.dropWhile isBlank = "format: unix".toList := by decide
    rw [scanPairs_bare _ hline hbare (by decide), hcut, scanPairs_none _ rfl]
    decide
  refine ⟨by decide, by decide, by decide, by decide, fun heq => ?_⟩
  rw [inlineRecord, hscan] at heq
  exact absurd (congrArg List.length heq) (by decide)

end Lines

end BulletScript.Script
