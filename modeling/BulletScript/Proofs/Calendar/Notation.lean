import BulletScript.Proofs.Calendar.Days
import BulletScript.Proofs.Value.Literals

/-! The international notation read back. The digits of each part have a fixed width, so that a date and
a time of day to milliseconds are cut where they were put together. -/
namespace BulletScript.Calendar

section Digits

variable {width n : Nat} (h : n < 10 ^ width) (hwidth : 0 < width)

theorem toList_padded (width n : Nat) : (padded width n).toList =
    List.replicate (width - (Number.digitChars n).length) '0' ++ Number.digitChars n :=
  String.toList_ofList

theorem isDigit_of_mem_padded {c : Char} (hc : c ∈ (padded width n).toList) : c.isDigit := by
  rw [toList_padded, List.mem_append] at hc
  rcases hc with hc | hc
  · rw [List.eq_of_mem_replicate hc]
    rfl
  · exact Json.isDigit_of_mem_digitChars hc

theorem decimalNumber_padded (width n : Nat) :
    Number.decimalNumber (padded width n).toList = n := by
  have hzeros (k : Nat) : (List.replicate k '0').foldl (fun n c => 10 * n + (c.toNat - 48)) 0 = 0 := by
    induction k with
    | zero => rfl
    | succ k ih => exact ih
  rw [toList_padded, Number.decimalNumber, List.foldl_append, hzeros]
  exact Json.decimalNumber_digitChars n

include h hwidth

theorem length_padded : (padded width n).toList.length = width := by
  have hlength : (Number.digitChars n).length ≤ width :=
    (Nat.length_toDigits_le_iff (by decide) hwidth).2 h
  rw [toList_padded, List.length_append, List.length_replicate]
  omega

/-- Padded digits are cut off as the number that they write. -/
theorem cutDigits_padded (rest : List Char) :
    cutDigits width ((padded width n).toList ++ rest) = some (n, rest) := by
  have hlength := length_padded h hwidth
  have htake : ((padded width n).toList ++ rest).take width = (padded width n).toList :=
    List.take_left' hlength
  have hdrop : ((padded width n).toList ++ rest).drop width = rest := List.drop_left' hlength
  have hall : (padded width n).toList.all Char.isDigit = true :=
    List.all_eq_true.2 fun c hc => isDigit_of_mem_padded hc
  have hvalue := decimalNumber_padded width n
  rw [Number.decimalNumber] at hvalue
  simp only [cutDigits, htake, hdrop, hlength, hall, hvalue, decide_true, Bool.and_self, if_true]

theorem exists_padded_cons : ∃ c cs, (padded width n).toList = c :: cs ∧ c.isDigit := by
  have hne : (padded width n).toList ≠ [] := by
    intro hnil
    have hlength := length_padded h hwidth
    rw [hnil, List.length_nil] at hlength
    omega
  obtain ⟨c, cs, hcons⟩ := List.exists_cons_of_ne_nil hne
  exact ⟨c, cs, hcons, isDigit_of_mem_padded (hcons ▸ List.mem_cons_self)⟩

end Digits

section Reading

variable {d : Date} {t : Time}

theorem toList_dateText (d : Date) : d.text.toList = (padded 4 d.year).toList ++
    '-' :: ((padded 2 d.month).toList ++ '-' :: (padded 2 d.day).toList) := by
  simp [Date.text]

theorem monthLength_le (year month : Nat) : monthLength year month ≤ 31 := by
  unfold monthLength
  split_ifs <;> decide

/-- The parts of a date have two digits, its year four. -/
theorem Date.parts_lt (h : d.isValid) : d.year < 10 ^ 4 ∧ d.month < 10 ^ 2 ∧ d.day < 10 ^ 2 := by
  have hlength := monthLength_le d.year d.month
  simp only [Date.isValid, Bool.and_eq_true, decide_eq_true_eq] at h
  omega

theorem length_dateText (h : d.isValid) : d.text.toList.length = 10 := by
  obtain ⟨hyear, hmonth, hday⟩ := Date.parts_lt h
  simp [toList_dateText, length_padded hyear, length_padded hmonth, length_padded hday]

/-- A date with hyphens and more behind it is recognised by its first hyphen, and by the digit that
follows. -/
theorem dateLength_text (h : d.isValid) (rest : List Char) :
    dateLength (d.text.toList ++ rest) = 10 := by
  obtain ⟨hyear, hmonth, hday⟩ := Date.parts_lt h
  obtain ⟨c, cs, hcons, hdigit⟩ := exists_padded_cons hmonth (by decide)
  have hweek : c ≠ 'W' := Json.ne_of_isDigit hdigit (by decide)
  have hyearLength := length_padded hyear (by decide)
  have hlength : (d.text.toList ++ rest).length ≠ 7 := by
    rw [List.length_append, length_dateText h]
    omega
  have hsplit : d.text.toList ++ rest = (padded 4 d.year).toList ++
      '-' :: c :: (cs ++ '-' :: (padded 2 d.day).toList ++ rest) := by
    simp [toList_dateText, hcons]
  have hfour : (d.text.toList ++ rest)[4]? = some '-' := by
    rw [hsplit, List.getElem?_append_right hyearLength.le, hyearLength]
    rfl
  have hfive : (d.text.toList ++ rest)[5]? = some c := by
    rw [hsplit, List.getElem?_append_right (hyearLength.trans_le (by decide)), hyearLength]
    rfl
  rw [dateLength, if_neg hlength, if_pos hfour, hfive, if_neg (by simpa using hweek)]

theorem readDate?_text (h : d.isValid) : readDate? d.text.toList = some d := by
  obtain ⟨hyear, hmonth, hday⟩ := Date.parts_lt h
  obtain ⟨c, cs, hcons, hdigit⟩ := exists_padded_cons hmonth (by decide)
  have hweek : c ≠ 'W' := Json.ne_of_isDigit hdigit (by decide)
  have hmonth' := cutDigits_padded hmonth (by decide) ('-' :: (padded 2 d.day).toList)
  have hday' := cutDigits_padded hday (by decide) []
  rw [hcons, List.cons_append] at hmonth'
  rw [List.append_nil] at hday'
  rw [toList_dateText, readDate?, cutDigits_padded hyear (by decide)]
  simp [hcons, hweek, hmonth', hday', h]

theorem toList_milliseconds (t : Time) : t.toMilliseconds.toList =
    (padded 2 t.hour).toList ++ ':' :: ((padded 2 t.minute).toList ++
      ':' :: ((padded 2 t.second).toList ++ '.' :: (padded 3 (t.microsecond / 1000)).toList)) := by
  simp [Time.toMilliseconds, Time.clock]

/-- The parts of a time of day have two digits, its milliseconds three. -/
theorem Time.parts_lt (h : t.isValid) : t.hour < 10 ^ 2 ∧ t.minute < 10 ^ 2 ∧ t.second < 10 ^ 2 ∧
    t.microsecond / 1000 < 10 ^ 3 := by
  simp only [Time.isValid, Bool.and_eq_true, decide_eq_true_eq] at h
  omega

/-- A time of day of whole milliseconds is read to its end. -/
theorem readClock?_milliseconds (h : t.isValid) (hmicros : t.microsecond % 1000 = 0) :
    readClock? t.toMilliseconds.toList = some ⟨t, true⟩ := by
  obtain ⟨hhour, hminute, hsecond, hmilli⟩ := Time.parts_lt h
  have hlength := length_padded hmilli (by decide)
  have hfraction : readFraction? (padded 3 (t.microsecond / 1000)).toList =
      some (t.microsecond, true) := by
    have hcut := cutDigits_padded hmilli (by decide) []
    have hthousand : t.microsecond / 1000 * Number.tenTo 3 = t.microsecond :=
      Nat.div_mul_cancel (Nat.dvd_of_mod_eq_zero hmicros)
    rw [List.append_nil] at hcut
    simp [readFraction?, hlength, hcut, hthousand]
  rw [toList_milliseconds, readClock?, cutDigits_padded hhour (by decide)]
  simp [cutDigits_padded hminute, cutDigits_padded hsecond, hlength, hfraction]

/-- A time of day has no mark of a zone in it. -/
theorem mem_milliseconds {c : Char} (hc : c ∈ t.toMilliseconds.toList) :
    c.isDigit ∨ c = ':' ∨ c = '.' := by
  simp only [toList_milliseconds, List.mem_append, List.mem_cons] at hc
  rcases hc with hc | rfl | hc | rfl | hc | rfl | hc
  · exact .inl (isDigit_of_mem_padded hc)
  · exact .inr (.inl rfl)
  · exact .inl (isDigit_of_mem_padded hc)
  · exact .inr (.inl rfl)
  · exact .inl (isDigit_of_mem_padded hc)
  · exact .inr (.inr rfl)
  · exact .inl (isDigit_of_mem_padded hc)

theorem readTime?_milliseconds (h : t.isValid) (hmicros : t.microsecond % 1000 = 0) :
    readTime? (t.toMilliseconds.toList ++ "+00:00".toList) = some (t, some 0) := by
  have hspan : (t.toMilliseconds.toList ++ "+00:00".toList).span
      (fun c => c ≠ '+' && c ≠ '-' && c ≠ 'Z') = (t.toMilliseconds.toList, "+00:00".toList) := by
    refine Text.span_append (fun c hc => ?_) (by simp)
    rcases mem_milliseconds hc with hdigit | rfl | rfl
    · have hne {d : Char} (hd : d.isDigit = false) : c ≠ d := Json.ne_of_isDigit hdigit hd
      simp [hne]
    · decide
    · decide
  have hzone : "+00:00".toList = '+' :: ['0', '0', ':', '0', '0'] := rfl
  rw [readTime?, hspan]
  simp only [Option.bind_eq_bind, Option.bind_some, readClock?_milliseconds h hmicros, h, Bool.not_true,
    Bool.false_eq_true, if_false, hzone]
  rfl

/-- A final `Z` is another way to write no offset. -/
theorem spellZone_append (s : String) : spellZone (s ++ "Z") = s ++ "+00:00" := by
  have hends : Text.endsWith "Z" (s ++ "Z") = true := by
    rw [Text.endsWith, List.isSuffixOf_iff_suffix, String.toList_append]
    exact List.suffix_append _ _
  have hdrop : Text.dropEnd 1 (s ++ "Z") = s := by
    rw [Text.dropEnd, String.toList_append, List.length_append]
    exact (congrArg String.ofList (List.take_left' rfl)).trans String.ofList_toList
  rw [spellZone, if_pos hends, hdrop]

/-- The notation of a moment in universal time, with the zone spelled as an offset. -/
theorem readIso?_text (hd : d.isValid) (ht : t.isValid) (hmicros : t.microsecond % 1000 = 0) :
    readIso? (d.text ++ "T" ++ t.toMilliseconds ++ "+00:00") = some ⟨d, some t, some 0⟩ := by
  have hlength := length_dateText hd
  have hlist : (d.text ++ "T" ++ t.toMilliseconds ++ "+00:00").toList =
      d.text.toList ++ 'T' :: (t.toMilliseconds.toList ++ "+00:00".toList) := by simp
  rw [readIso?, hlist]
  dsimp only
  rw [if_neg (by rw [List.length_append]; omega), dateLength_text hd, List.take_left' hlength,
    List.drop_left' hlength, readDate?_text hd]
  simp only [bind, Option.bind, readTime?_milliseconds ht hmicros]
  rfl

end Reading

end BulletScript.Calendar
