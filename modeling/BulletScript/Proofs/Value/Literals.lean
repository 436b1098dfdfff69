import BulletScript.Proofs.Json.Readback
import BulletScript.Proofs.Text.Word

/-! Texts that begin as literals do. Such a text stands for the value that it writes in JSON, or for
itself if it writes none, as a date does. -/
namespace BulletScript

section Literals

variable {s : String} {v : Value}

theorem not_isBlank_of_startsLiteral {c : Char} (h : startsLiteral c) : Text.isBlank c = false := by
  simp only [startsLiteral, Bool.or_eq_true, beq_iff_eq] at h
  rcases h with (((rfl | rfl) | rfl) | rfl) | hdigit
  · decide
  · decide
  · decide
  · decide
  · exact Text.isBlank_of_isAlphanum (.inl (by simp [Char.isAlphanum, hdigit]))

theorem ne_empty_of_head? {c : Char} (h : c ∈ s.toList.head?) : s ≠ "" := by
  rintro rfl
  cases h

theorem literalWord?_of_startsLiteral {c : Char} (hhead : c ∈ s.toList.head?)
    (hstart : startsLiteral c) : literalWord? s = none := by
  have hne (word : String) (hword : word.toList.head?.all (fun d => !startsLiteral d) = true) :
      s ≠ word := by
    rintro rfl
    simp [Option.mem_def.1 hhead, hstart] at hword
  rw [literalWord?, if_neg (hne _ (by decide)), if_neg (hne _ (by decide)),
    if_neg (hne _ (by decide))]

theorem trim_of_startsLiteral {c : Char} (hhead : c ∈ s.toList.head?) (hstart : startsLiteral c)
    (hlast : ∀ d ∈ s.toList.getLast?, Text.isBlank d = false) : Text.trim s = s := by
  rw [Text.trim, Text.trimChars_eq_self_iff.2, String.ofList_toList]
  refine ⟨fun d hd => ?_, hlast⟩
  obtain rfl := Option.some.inj (hhead.symm.trans hd)
  exact not_isBlank_of_startsLiteral hstart

/-- A text that begins as literals do, with no blank behind it, is read as JSON if it is that. -/
theorem parseLiteral_of_startsLiteral {c : Char} (hhead : c ∈ s.toList.head?)
    (hstart : startsLiteral c) (hlast : ∀ d ∈ s.toList.getLast?, Text.isBlank d = false) :
    parseLiteral s = (Json.read? s).getD (.str s) := by
  obtain ⟨rest, hs⟩ := List.head?_eq_some_iff.1 hhead
  rw [parseLiteral, trim_of_startsLiteral hhead hstart hlast,
    literalWord?_of_startsLiteral hhead hstart, hs]
  exact if_pos hstart

theorem parseLiteral_of_read {c : Char} (hhead : c ∈ s.toList.head?) (hstart : startsLiteral c)
    (hlast : ∀ d ∈ s.toList.getLast?, Text.isBlank d = false) (hread : Json.read? s = some v) :
    parseLiteral s = v := by
  rw [parseLiteral_of_startsLiteral hhead hstart hlast, hread, Option.getD_some]

/-- A text between brackets. -/
theorem parseLiteral_of_enclosed {front back : Char} {inner : List Char}
    (hs : s.toList = front :: inner ++ [back]) (hstart : startsLiteral front)
    (hback : Text.isBlank back = false) (hread : Json.read? s = some v) : parseLiteral s = v := by
  refine parseLiteral_of_read (c := front) (by simp [hs]) hstart ?_ hread
  intro d hd
  rw [hs, List.getLast?_concat] at hd
  obtain rfl := Option.some.inj hd
  exact hback

/-- A whole number is written without blanks around it. -/
theorem intText_ends (n : Int) :
    (∃ c ∈ (Number.intText n).toList.head?, startsLiteral c) ∧
      ∀ c ∈ (Number.intText n).toList.getLast?, Text.isBlank c = false := by
  obtain ⟨d, ds, hd, hdigits, htext⟩ := Json.intText_cons n
  constructor
  · by_cases hneg : n < 0
    · exact ⟨'-', by simp [htext, hneg], by decide⟩
    · exact ⟨d, by simp [htext, hneg], by simp [startsLiteral, hd]⟩
  · intro c hc
    have hmem : c ∈ Number.digitChars n.natAbs := by
      rw [hdigits]
      refine List.mem_of_getLast? ?_
      rw [htext] at hc
      split at hc
      · rwa [List.getLast?_cons_cons] at hc
      · exact hc
    have hdigit := Json.isDigit_of_mem_digitChars hmem
    exact Text.isBlank_of_isAlphanum (.inl (by simp [Char.isAlphanum, hdigit]))

theorem parseLiteral_intText {n : Int} (hn : Number.isWritable n) :
    parseLiteral (Number.intText n) = .int n := by
  obtain ⟨⟨c, hhead, hstart⟩, hlast⟩ := intText_ends n
  exact parseLiteral_of_read hhead hstart hlast (Json.spells_intText hn).read?

section Hyphens

open Json

/-- A digit or a hyphen: neither a point nor an exponent, and no space. -/
def isDatePart (c : Char) : Bool := c.isDigit || c == '-'

variable {c : Char} {digits rest left : List Char}

theorem ne_of_isDatePart (hc : isDatePart c) {d : Char} (hd : isDatePart d = false) : c ≠ d := by
  rintro rfl
  exact absurd hc (by simp [hd])

theorem isSpace_of_isDatePart (hc : isDatePart c) : isSpace c = false := by
  simp [isSpace, ne_of_isDatePart hc (d := ' ') (by decide),
    ne_of_isDatePart hc (d := '\t') (by decide), ne_of_isDatePart hc (d := '\n') (by decide),
    ne_of_isDatePart hc (d := '\r') (by decide)]

theorem cutFraction_datePart (hc : isDatePart c) : cutFraction (c :: rest) = ([], c :: rest) := by
  have hpoint := ne_of_isDatePart hc (d := '.') (by decide)
  unfold cutFraction
  split
  · next heq => exact absurd (List.cons.inj heq).1 hpoint
  · rfl

theorem readExponent_datePart (hc : isDatePart c) :
    Number.readExponent (c :: rest) = (0, c :: rest) := by
  have hlower := ne_of_isDatePart hc (d := 'e') (by decide)
  have hupper := ne_of_isDatePart hc (d := 'E') (by decide)
  simp [Number.readExponent, hlower, hupper]

variable (hne : digits ≠ []) (hdigits : ∀ c ∈ digits, c.isDigit)

include hne hdigits

/-- The whole part of digits with a hyphen behind them ends before another digit or the hyphen. -/
theorem cutWhole_hyphen : ∃ whole c more, cutWhole (digits ++ '-' :: rest) = (whole, c :: more) ∧
    isDatePart c := by
  have hspan : Number.spanDigits (digits ++ '-' :: rest) = (digits, '-' :: rest) :=
    Text.span_append hdigits (by simp)
  unfold cutWhole
  rw [hspan]
  dsimp only
  split
  · next more =>
    cases more with
    | nil => exact ⟨_, '-', rest, rfl, by decide⟩
    | cons d more =>
      have hd : d.isDigit := hdigits d (by simp)
      exact ⟨_, d, more ++ '-' :: rest, rfl, by simp [isDatePart, hd]⟩
  · exact ⟨_, '-', rest, rfl, by decide⟩

/-- Digits with a hyphen behind them write no number. -/
theorem readNumber_hyphen {v : Value} (h : readNumber (digits ++ '-' :: rest) = .ok (v, left)) :
    ∃ c more, left = c :: more ∧ isDatePart c := by
  obtain ⟨whole, c, more, hwhole, hc⟩ := @cutWhole_hyphen _ rest hne hdigits
  obtain ⟨d, ds, rfl⟩ := List.exists_cons_of_ne_nil hne
  have hminus : cutMinus (d :: ds ++ '-' :: rest) = (false, d :: ds ++ '-' :: rest) := by
    have hd := Json.ne_of_isDigit (hdigits d List.mem_cons_self) (d := '-') (by decide)
    simp [cutMinus, hd]
  rw [readNumber_eq, hminus] at h
  simp only [hwhole, cutFraction_datePart hc, readExponent_datePart hc, true_and, if_true] at h
  split at h
  · cases h
  · split at h
    · cases h
    · simp only [Except.ok.injEq, Prod.mk.injEq] at h
      exact ⟨c, more, h.2.symm, hc⟩

/-- Digits with a hyphen behind them are no JSON, whatever follows. -/
theorem read?_hyphen {s : String} (hs : s.toList = digits ++ '-' :: rest) : Json.read? s = none := by
  obtain ⟨d, ds, rfl⟩ := List.exists_cons_of_ne_nil hne
  have hd : d.isDigit := hdigits d List.mem_cons_self
  have hother {c : Char} (hc : c.isDigit = false) : d ≠ c := Json.ne_of_isDigit hd hc
  have hmark : s.toList.head? ≠ some '\ufeff' := by
    simpa [hs] using hother (by decide)
  have hskip : skipSpace s.toList = d :: ds ++ '-' :: rest := by
    rw [hs, List.cons_append, skipSpace, List.dropWhile_cons_of_neg]
    simp [isSpace_of_isDatePart (c := d) (by simp [isDatePart, hd])]
  have hvalue (fuel : Nat) : readValue (fuel + 1) (d :: ds ++ '-' :: rest) =
      readNumber (d :: ds ++ '-' :: rest) := by
    simp [readValue, (readWord?_of_isDigit hd _).1, hother]
  rw [Json.read?, readChars, if_neg hmark, hskip, hvalue]
  cases hread : readNumber (d :: ds ++ '-' :: rest) with
  | error misread => rfl
  | ok found =>
    obtain ⟨v, left⟩ := found
    obtain ⟨c, more, rfl, hc⟩ := readNumber_hyphen hne hdigits hread
    have hleft : skipSpace (c :: more) = c :: more := by
      rw [skipSpace, List.dropWhile_cons_of_neg]
      simp [isSpace_of_isDatePart hc]
    simp only [bind, Except.bind, hleft]
    rfl

/-- Such a text stands for itself. -/
theorem parseLiteral_hyphen {s : String} (hs : s.toList = digits ++ '-' :: rest)
    (hlast : ∀ c ∈ s.toList.getLast?, Text.isBlank c = false) : parseLiteral s = .str s := by
  obtain ⟨d, ds, rfl⟩ := List.exists_cons_of_ne_nil hne
  have hd : d.isDigit := hdigits d List.mem_cons_self
  rw [parseLiteral_of_startsLiteral (c := d) (by simp [hs]) (by simp [startsLiteral, hd]) hlast,
    read?_hyphen hne hdigits hs, Option.getD_none]

end Hyphens

end Literals

end BulletScript
