import BulletScript.Proofs.Calendar.Notation
import BulletScript.Proofs.Number.Quotient

/-! Dates that are written and read back. The international notation keeps a moment. A number is taken as
seconds up to 10 ^ 11 and as milliseconds beyond, so that seconds are read back up to there and
milliseconds from there on. -/
namespace BulletScript.Calendar

open Number

section Seconds

variable {v : Number.Dyadic} {n : Nat} {s : Stamp}

/-- The microseconds in the fraction of a number of seconds. -/
def microFraction (v : Number.Dyadic) : Int :=
  ((nearest? v.negative (v.ratio.1 % v.ratio.2 * 1000000) v.ratio.2).map Number.Dyadic.round).getD 0

/-- A number of seconds in microseconds. -/
def microsOf (v : Number.Dyadic) : Int := v.truncate * 1000000 + microFraction v

theorem ofSeconds_eq (v : Number.Dyadic) : ofSeconds v =
    let seconds := (microsOf v).fdiv 1000000
    let ordinal := seconds.fdiv 86400 + epochOrdinal
    let year := yearOf ordinal
    if seconds < -twoTo 63 ∨ twoTo 63 ≤ seconds then
      .error (.internal (.overflow "timestamp out of range for platform time_t"))
    else if year < 1900 - twoTo 31 ∨ 1900 + twoTo 31 ≤ year then
      .error (.internal (.system "[Errno 75] Value too large for defined data type"))
    else if isDay ordinal then .ok (.ofMicros (microsOf v))
    else .error (.internal (.badValue ("year " ++ intText year ++ " is out of range"))) := rfl

theorem fdiv_seconds (micros : Int) : (micros.fdiv 1000000).fdiv 86400 = micros.fdiv microsPerDay := by
  rw [fdiv_microsPerDay, Int.fdiv_eq_ediv_of_nonneg _ (by decide),
    Int.fdiv_eq_ediv_of_nonneg _ (by decide)]
  omega

/-- A moment that is read from a number of seconds is at that number. -/
theorem micros_of_ofSeconds (h : ofSeconds v = .ok s) : s.micros = microsOf v := by
  rw [ofSeconds_eq] at h
  dsimp only at h
  split at h
  · cases h
  · split at h
    · cases h
    · split at h
      next hday =>
        obtain rfl := Except.ok.inj h
        rw [fdiv_seconds] at hday
        exact Stamp.micros_ofMicros hday
      next => cases h

/-- The years of days in the years 1 to 9999. -/
theorem yearOf_bounds {ordinal : Int} (h : isDay ordinal) :
    0 ≤ yearOf ordinal ∧ yearOf ordinal < 20000 := by
  rw [isDay_iff] at h
  have hcycles : (ordinal - 1).fdiv 146097 = (ordinal - 1) / 146097 :=
    Int.fdiv_eq_ediv_of_nonneg _ (by decide)
  rw [yearOf, hcycles]
  generalize hday : (ordinal - (ordinal - 1) / 146097 * 146097).toNat = day
  obtain ⟨hproper, hordinal⟩ := Date.ofOrdinal_spec (n := day) (by omega)
  have hlow := hproper.lt_ordinal
  have hyear : (Date.ofOrdinal day).year < 1000 := by
    by_contra hlate
    have hmono := daysBeforeYear_mono (Nat.le_of_not_lt hlate)
    have hthousand : daysBeforeYear 1000 = 364877 := by decide
    omega
  omega

/-- A number of seconds that lies in the years 1 to 9999 is the moment at its microseconds. -/
theorem ofSeconds_of_isDay (h : isDay ((microsOf v).fdiv microsPerDay + epochOrdinal)) :
    ofSeconds v = .ok (.ofMicros (microsOf v)) := by
  have hday := h
  rw [← fdiv_seconds] at hday
  obtain ⟨hyear, hyear'⟩ := yearOf_bounds hday
  have hseconds : -9223372036854775808 ≤ (microsOf v).fdiv 1000000 ∧
      (microsOf v).fdiv 1000000 < 9223372036854775808 := by
    rw [isDay_iff, epochOrdinal] at hday
    rw [Int.fdiv_eq_ediv_of_nonneg _ (show (0 : Int) ≤ 86400 by decide)] at hday
    omega
  rw [ofSeconds_eq]
  dsimp only
  rw [if_neg, if_neg, if_pos hday]
  · have htwo : (twoTo 31 : Int) = 2147483648 := rfl
    omega
  · have htwo : (twoTo 63 : Int) = 9223372036854775808 := rfl
    omega

theorem microFraction_of_isWhole (h : v.IsWhole n) : microFraction v = 0 := by
  have hmod : v.ratio.1 % v.ratio.2 = 0 := by rw [h, Nat.mul_mod_left]
  rw [microFraction, hmod, Nat.zero_mul, nearest?_zero]
  cases v.negative <;> decide +kernel

theorem microsOf_of_isWhole (h : v.IsWhole n) : microsOf v = signedWhole v.negative n * 1000000 := by
  rw [microsOf, microFraction_of_isWhole h, h.truncate, Int.add_zero]

theorem signedWhole_natAbs (k : Int) : signedWhole (k < 0) k.natAbs = k := by
  rw [signedWhole]
  split
  next hneg =>
    have hneg := of_decide_eq_true hneg
    omega
  next hpos =>
    have hpos := of_decide_eq_false (Bool.eq_false_iff.2 hpos)
    omega

/-- A number of seconds is read as a moment if and only if the moment is at that number. -/
theorem ofSeconds_eq_ok_iff {t : Time} (hs : s.IsMoment t) :
    ofSeconds v = .ok s ↔ s.micros = microsOf v := by
  refine ⟨micros_of_ofSeconds, fun h => ?_⟩
  rw [ofSeconds_of_isDay, ← h, hs.ofMicros_micros]
  rw [← h, hs.fdiv_micros, Int.sub_add_cancel]
  exact Date.isDay_ordinal hs.date

end Seconds

section Bounds

variable {v : Number.Dyadic} {c : Nat}

theorem truncate_le (hnegative : v.negative = false) (h : v.ratio.1 ≤ c * v.ratio.2) :
    v.truncate ≤ c := by
  have hdiv : v.ratio.1 / v.ratio.2 ≤ c := Nat.div_le_of_le_mul (h.trans_eq (Nat.mul_comm _ _))
  simp only [Number.Dyadic.truncate, hnegative, Bool.false_eq_true, if_false]
  exact_mod_cast hdiv

theorem round_le (hnegative : v.negative = false) (h : v.ratio.1 ≤ c * v.ratio.2) : v.round ≤ c := by
  have hround : roundHalfEven v.ratio.1 v.ratio.2 ≤ c := by
    rcases h.lt_or_eq with hlt | heq
    · have hdiv := (Nat.div_lt_iff_lt_mul (ratio_pos v)).2 hlt
      exact (roundHalfEven_le _ _).trans hdiv
    · rw [heq, roundHalfEven_of_dvd (ratio_pos v) (Nat.dvd_mul_left _ _),
        Nat.mul_div_cancel _ (ratio_pos v)]
  simp only [Number.Dyadic.round, hnegative, Bool.false_eq_true, if_false]
  exact_mod_cast hround

/-- A fraction has at most a million microseconds. -/
theorem microFraction_le (hnegative : v.negative = false) (hlog : v.ratio.2.log2 ≤ 1021) :
    microFraction v ≤ 1000000 := by
  have hd := (ratio_pos v).ne'
  have hmod : v.ratio.1 % v.ratio.2 < v.ratio.2 := Nat.mod_lt _ (ratio_pos v)
  rw [microFraction, hnegative]
  by_cases hzero : v.ratio.1 % v.ratio.2 * 1000000 = 0
  · rw [hzero, nearest?_zero]
    decide +kernel
  · cases hv : nearest? false (v.ratio.1 % v.ratio.2 * 1000000) v.ratio.2 with
    | none => decide
    | some w =>
      have hhigh : (v.ratio.1 % v.ratio.2 * 1000000).log2 < v.ratio.2.log2 + 52 := by
        rw [Nat.log2_lt hzero]
        calc v.ratio.1 % v.ratio.2 * 1000000 < 2 ^ (v.ratio.2.log2 + 1) * 2 ^ 51 :=
            Nat.mul_lt_mul'' (hmod.trans Nat.lt_log2_self) (by decide)
          _ = 2 ^ (v.ratio.2.log2 + 52) := by rw [← Nat.pow_add]
      have hbound := le_of_nearest? hzero hd (by omega) hhigh hv
      have hmicros : v.ratio.1 % v.ratio.2 * 1000000 / v.ratio.2 + 1 ≤ 1000000 := by
        refine (Nat.div_lt_iff_lt_mul (ratio_pos v)).2 ?_
        omega
      exact round_le (negative_of_nearest? hv) (hbound.trans (Nat.mul_le_mul_right _ hmicros))

end Bounds

section Numbers

variable {n k : Int} {s : Stamp} {t : Time}

/-- A whole number is read as so many seconds, or milliseconds if it is large. -/
theorem parseDate_intText (hn : Number.isWritable n) :
    parseDate (intText n) = (secondsOf (.int n)).bind ofSeconds := by
  obtain ⟨⟨c, hhead, hstart⟩, hlast⟩ := intText_ends n
  have hnumber : (Value.str (intText n)).toNumber? = some (.int n) := by
    rw [Value.toNumber?]
    simp only [parseLiteral_intText hn]
  rw [parseDate, trim_of_startsLiteral hhead hstart hlast, if_neg (ne_empty_of_head? hhead), hnumber]
  rfl

theorem isWholeInt (n : Int) : Number.Dyadic.IsWhole ⟨n < 0, n.natAbs, 0⟩ n.natAbs := by
  have h := isWhole_of_nonneg (n < 0) n.natAbs 0
  rwa [Nat.pow_zero, Nat.mul_one] at h

/-- A number up to the bound is read as seconds. -/
theorem parseDate_seconds (hs : s.IsMoment t) (hn : n.natAbs ≤ millisecondsFrom) :
    parseDate (intText n) = .ok s ↔ s.micros = n * 1000000 := by
  have hlt : n.natAbs < 10 ^ 12 := by
    rw [millisecondsFrom] at hn
    omega
  have hwritable : Number.isWritable n := isWritable_of_lt hlt (by decide) (by decide)
  rw [parseDate_intText hwritable, secondsOf, if_pos hn]
  simp only [Except.bind, ofSeconds_eq_ok_iff hs]
  rw [microsOf_of_isWhole (isWholeInt n)]
  dsimp only
  rw [signedWhole_natAbs]

/-- A larger one is read as milliseconds. -/
theorem parseDate_milliseconds (hs : s.IsMoment t) (hk : millisecondsFrom < (1000 * k).natAbs)
    (hlimit : k.natAbs < 2 ^ 51) (h : s.micros = k * 1000000) :
    parseDate (intText (1000 * k)) = .ok s := by
  have hlt : (1000 * k).natAbs < 10 ^ 20 := by omega
  have hwritable : Number.isWritable (1000 * k) := isWritable_of_lt hlt (by decide) (by decide)
  obtain ⟨v, hv, hnegative, hwhole⟩ := nearest?_mul (d := 1000) (by decide) hlimit (1000 * k < 0)
  have habs : (1000 * k).natAbs = k.natAbs * 1000 := by omega
  have hsign : decide (1000 * k < 0) = decide (k < 0) := by
    rw [decide_eq_decide]
    omega
  rw [parseDate_intText hwritable, secondsOf, if_neg (Nat.not_le_of_lt hk), habs, hv]
  simp only [Except.bind, ofSeconds_eq_ok_iff hs]
  rw [microsOf_of_isWhole hwhole, hnegative, hsign, signedWhole_natAbs, h]

/-- Seconds beyond the bound are too many to be milliseconds of the same moment. -/
theorem parseDate_ne_of_large {q : Nat} (hs : s.IsMoment t) (hlow : millisecondsFrom < q)
    (hhigh : q < 2 ^ 51) (h : s.micros = q * 1000000) : parseDate (intText q) ≠ .ok s := by
  have hlt : (q : Int).natAbs < 10 ^ 20 := by omega
  have hwritable : Number.isWritable (q : Int) := isWritable_of_lt hlt (by decide) (by decide)
  have hne : q ≠ 0 := by omega
  have hthousand : (1000 : Nat).log2 = 9 := by decide
  have hlog : 36 ≤ q.log2 := by
    rw [Nat.le_log2 hne]
    rw [millisecondsFrom] at hlow
    omega
  have hlog' : q.log2 < 51 := (Nat.log2_lt hne).2 hhigh
  obtain ⟨v, k, hv, hnegative, -, hratio, hk⟩ :=
    nearest?_eq hne (by decide : 1000 ≠ 0) (by omega) (by omega) false
  have hbound := le_of_nearest? hne (by decide : 1000 ≠ 0) (by omega) (by omega) hv
  have hsteps : v.ratio.2.log2 < k + 1 :=
    (Nat.log2_lt (ratio_pos v).ne').2 (hratio.trans_lt (Nat.pow_lt_pow_succ (by decide)))
  have htruncate := truncate_le hnegative hbound
  have hfraction := microFraction_le hnegative (by omega)
  have hsign : decide ((q : Int) < 0) = false := by simp
  rw [parseDate_intText hwritable, secondsOf, Int.natAbs_natCast, if_neg (Nat.not_le_of_lt hlow),
    hsign, hv]
  simp only [Except.bind, ne_eq, ofSeconds_eq_ok_iff hs, h, microsOf]
  generalize v.truncate = seconds at htruncate ⊢
  generalize microFraction v = fraction at hfraction ⊢
  clear hv hbound hratio hsteps hwritable
  rw [millisecondsFrom] at hlow
  omega

end Numbers

section Writing

variable {s : Stamp} {t : Time} {k : Int}

/-- A moment as it is read from the text that is written for it. -/
def reread (format : Script.DateFormat) (s : Stamp) : Result Stamp := do
  parseDate (← formatDate s format).templateText

/-- The moments of whole seconds in the years 1 to 9999. -/
theorem seconds_bounds (hs : s.IsMoment t) (h : s.micros = k * 1000000) :
    -62135596800 ≤ k ∧ k ≤ 253402300799 := by
  have hday := isDay_iff.1 (Date.isDay_ordinal hs.date)
  have hmicros := hs.fdiv_micros
  rw [fdiv_microsPerDay, epochOrdinal] at hmicros
  omega

/-- Whole seconds are counted exactly. -/
theorem seconds_spec (hs : s.IsMoment t) (h : s.micros = k * 1000000) :
    s.seconds.negative = decide (k < 0) ∧ s.seconds.IsWhole k.natAbs := by
  obtain ⟨hlow, hhigh⟩ := seconds_bounds hs h
  have hsign : decide (k * 1000000 < 0) = decide (k < 0) := by
    rw [decide_eq_decide]
    omega
  have habs : (k * 1000000).natAbs = k.natAbs * 1000000 := by omega
  obtain ⟨v, hv, hnegative, hwhole⟩ :=
    nearest?_mul (q := k.natAbs) (d := 1000000) (by decide) (by omega) (decide (k < 0))
  rw [Stamp.seconds, h, hsign, habs, hv]
  exact ⟨hnegative, hwhole⟩

theorem reread_unix (hs : s.IsMoment t) (h : s.micros = k * 1000000) :
    reread .unix s = parseDate (intText k) := by
  obtain ⟨hnegative, hwhole⟩ := seconds_spec hs h
  have htruncate : s.seconds.truncate = k := by
    rw [hwhole.truncate, hnegative, signedWhole_natAbs]
  rw [reread, formatDate, Stamp.utc, if_pos hs.offset]
  simp only [bind, Except.bind, pure, Except.pure, htruncate]
  rfl

theorem reread_epoch (hs : s.IsMoment t) (h : s.micros = k * 1000000) :
    reread .epoch s = parseDate (intText (1000 * k)) := by
  obtain ⟨hlow, hhigh⟩ := seconds_bounds hs h
  obtain ⟨hnegative, hwhole⟩ := seconds_spec hs h
  have hthousand : 1000 * s.seconds.ratio.1 = (1000 * k).natAbs * s.seconds.ratio.2 := by
    rw [hwhole, ← Nat.mul_assoc, Int.natAbs_mul]
    rfl
  obtain ⟨v, hv, hsign, hv'⟩ := nearest?_mul (q := (1000 * k).natAbs) (ratio_pos s.seconds).ne'
    (by omega) s.seconds.negative
  have hmilli : wholeMilliseconds s.seconds = 1000 * k := by
    have hneg : decide (k < 0) = decide (1000 * k < 0) := by
      rw [decide_eq_decide]
      omega
    simp only [wholeMilliseconds, hthousand, hv, Option.map_some, Option.getD_some]
    rw [hv'.truncate, hsign, hnegative, hneg, signedWhole_natAbs]
  rw [reread, formatDate, Stamp.utc, if_pos hs.offset]
  simp only [bind, Except.bind, pure, Except.pure, hmilli]
  rfl

/-- The international notation of a moment is read to the millisecond. -/
theorem parseDate_iso {d : Date} {x : String} (hd : d.isValid) (ht : t.isValid)
    (hmicros : t.microsecond % 1000 = 0) (hx : x = d.text ++ "T" ++ t.toMilliseconds ++ "Z") :
    parseDate x = .ok ⟨d, some t, some 0⟩ := by
  obtain ⟨c, cs, hcons, hdigit⟩ := exists_padded_cons (Date.parts_lt hd).1 (by decide)
  have hlist : x.toList = (padded 4 d.year).toList ++ '-' :: ((padded 2 d.month).toList ++
      '-' :: (padded 2 d.day).toList ++ 'T' :: t.toMilliseconds.toList ++ ['Z']) := by
    simp [hx, toList_dateText]
  have hhead : c ∈ x.toList.head? := by simp [hlist, hcons]
  have hstart : startsLiteral c := by simp [startsLiteral, hdigit]
  have hlast : ∀ d ∈ x.toList.getLast?, Text.isBlank d = false := by
    intro d hd
    rw [hx, String.toList_append, List.getLast?_append] at hd
    obtain rfl := Option.some.inj hd
    decide
  have hnumber : (Value.str x).toNumber? = none := by
    rw [Value.toNumber?]
    simp only [parseLiteral_hyphen (hcons ▸ List.cons_ne_nil c cs)
      (fun _ => isDigit_of_mem_padded) hlist hlast]
  have hread : readIso? (spellZone x) = some ⟨d, some t, some 0⟩ := by
    rw [hx, spellZone_append, readIso?_text hd ht hmicros]
  rw [parseDate, trim_of_startsLiteral hhead hstart hlast, if_neg (ne_empty_of_head? hhead), hnumber,
    hread, Option.some_or]
  rfl

theorem reread_iso (hs : s.IsMoment t) (hmicros : t.microsecond % 1000 = 0) :
    reread .iso s = .ok s := by
  have hformat : formatDate s .iso =
      .ok (.str (s.date.text ++ "T" ++ t.toMilliseconds ++ "Z")) := by
    rw [formatDate, Stamp.utc, if_pos hs.offset]
    simp only [bind, Except.bind, pure, Except.pure, hs.time_eq, Option.getD_some]
  have hself : (⟨s.date, some t, some 0⟩ : Stamp) = s := by
    rw [← hs.time_eq, ← hs.offset]
  have htext (x : String) : Value.templateText (.str x) = x := rfl
  rw [reread, hformat]
  simp only [bind, Except.bind, htext]
  rw [parseDate_iso hs.date hs.time hmicros rfl, hself]

/-- What is written for a moment of whole seconds is read as this moment: in the international notation
always, as seconds up to 10 ^ 11 of them, and as milliseconds beyond that many of them or at the
beginning of 1970. -/
theorem reread_iff (hs : s.IsMoment t) (hwhole : s.micros = k * 1000000) :
    reread .iso s = .ok s ∧
      (reread .unix s = .ok s ↔ k.natAbs ≤ 10 ^ 11) ∧
      (reread .epoch s = .ok s ↔ k = 0 ∨ 10 ^ 11 < (1000 * k).natAbs) := by
  obtain ⟨hlow, hhigh⟩ := seconds_bounds hs hwhole
  have hbound : millisecondsFrom = 10 ^ 11 := rfl
  have hmicros : t.microsecond % 1000 = 0 := by
    have heq := hs.micros_eq
    rw [hwhole, microsPerDay] at heq
    omega
  rw [reread_unix hs hwhole, reread_epoch hs hwhole, ← hbound]
  refine ⟨reread_iso hs hmicros, ⟨fun hread => ?_, fun hfew => ?_⟩, ⟨fun hread => ?_, ?_⟩⟩
  · -- too many seconds are far in the future
    by_contra hmany
    rw [hbound] at hmany
    obtain ⟨q, rfl⟩ := Int.eq_ofNat_of_zero_le (show 0 ≤ k by omega)
    exact parseDate_ne_of_large hs (by rw [hbound]; omega) (by omega) hwhole hread
  · exact (parseDate_seconds hs hfew).2 hwhole
  · by_contra hfew
    rw [not_or, Nat.not_lt] at hfew
    have hmicros := (parseDate_seconds hs hfew.2).1 hread
    omega
  · rintro (rfl | hmany)
    · exact (parseDate_seconds hs (Nat.zero_le _)).2 hwhole
    · exact parseDate_milliseconds hs hmany (by omega) hwhole

end Writing

/-- The first moment of a day in universal time. -/
def midnight (d : Date) : Stamp := ⟨d, some ⟨0, 0, 0, 0⟩, some 0⟩

theorem isMoment_midnight {d : Date} (h : d.isValid) : (midnight d).IsMoment ⟨0, 0, 0, 0⟩ :=
  ⟨h, rfl, by decide, rfl⟩

theorem reread_iff_midnight : (midnight ⟨2024, 1, 2⟩).IsMoment ⟨0, 0, 0, 0⟩ ∧
    (midnight ⟨2024, 1, 2⟩).micros = 1704153600 * 1000000 ∧
    reread .iso (midnight ⟨2024, 1, 2⟩) = .ok (midnight ⟨2024, 1, 2⟩) ∧
    reread .unix (midnight ⟨2024, 1, 2⟩) = .ok (midnight ⟨2024, 1, 2⟩) ∧
    reread .epoch (midnight ⟨2024, 1, 2⟩) = .ok (midnight ⟨2024, 1, 2⟩) := by
  have hmoment : (midnight ⟨2024, 1, 2⟩).IsMoment ⟨0, 0, 0, 0⟩ := isMoment_midnight (by decide)
  have hmicros : (midnight ⟨2024, 1, 2⟩).micros = 1704153600 * 1000000 := by decide
  obtain ⟨hiso, hunix, hepoch⟩ := reread_iff hmoment hmicros
  exact ⟨hmoment, hmicros, hiso, hunix.2 (by decide), hepoch.2 (.inr (by decide))⟩

/-- The milliseconds of a day in 1970 are read as the seconds of one in 1972, and the seconds of a day
far in the future as milliseconds. -/
theorem reread_other :
    reread .epoch (midnight ⟨1970, 1, 2⟩) = .ok (midnight ⟨1972, 9, 27⟩) ∧
      reread .epoch (midnight ⟨1970, 1, 2⟩) ≠ .ok (midnight ⟨1970, 1, 2⟩) ∧
      reread .unix (midnight ⟨6000, 1, 1⟩) ≠ .ok (midnight ⟨6000, 1, 1⟩) := by
  have hepoch : reread .epoch (midnight ⟨1970, 1, 2⟩) = .ok (midnight ⟨1972, 9, 27⟩) := by
    rw [reread_epoch (isMoment_midnight (by decide)) (k := 86400) (by decide)]
    exact (parseDate_seconds (isMoment_midnight (by decide)) (by decide)).2 (by decide)
  refine ⟨hepoch, ?_, ?_⟩
  · rw [hepoch]
    decide
  · have hmoment : (midnight ⟨6000, 1, 1⟩).IsMoment ⟨0, 0, 0, 0⟩ := isMoment_midnight (by decide)
    have hmicros : (midnight ⟨6000, 1, 1⟩).micros = (127174492800 : Nat) * 1000000 := by decide
    rw [reread_unix hmoment hmicros]
    exact parseDate_ne_of_large hmoment (by decide) (by decide) hmicros

end BulletScript.Calendar
