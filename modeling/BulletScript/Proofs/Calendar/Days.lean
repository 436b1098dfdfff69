import BulletScript.Calendar.Moment
import Mathlib.Order.Monotone.Basic
import Mathlib.Data.Nat.ModEq
import Mathlib.Tactic.Tauto

/-! Days and their numbers. Every number from one on is that of exactly one day, and moments in
universal time are counted by microseconds in the same way. -/
namespace BulletScript.Calendar

theorem isLeapYear_iff (year : Nat) :
    isLeapYear year ↔ 4 ∣ year ∧ ¬ 100 ∣ year ∨ 400 ∣ year := by
  simp [isLeapYear, Nat.dvd_iff_mod_eq_zero]

def yearLength (year : Nat) : Nat := if isLeapYear year then 366 else 365

/-- A day as it stands in a calendar, in any year from the first on. -/
structure Date.IsProper (d : Date) : Prop where
  year_pos : 1 ≤ d.year
  month_pos : 1 ≤ d.month
  month_le : d.month ≤ 12
  day_pos : 1 ≤ d.day
  day_le : d.day ≤ monthLength d.year d.month

theorem Date.isProper_of_isValid {d : Date} (h : d.isValid) : d.IsProper := by
  simp only [Date.isValid, Bool.and_eq_true, decide_eq_true_eq] at h
  obtain ⟨⟨⟨⟨⟨hyear, -⟩, hmonth⟩, hmonth'⟩, hday⟩, hday'⟩ := h
  exact ⟨hyear, hmonth, hmonth', hday, hday'⟩

section Months

variable (year : Nat) {month : Nat}

theorem daysBeforeMonth_succ (h : 1 ≤ month) :
    daysBeforeMonth year (month + 1) = daysBeforeMonth year month + monthLength year month := by
  obtain ⟨m, rfl⟩ : ∃ m, month = m + 1 := ⟨month - 1, by omega⟩
  simp [daysBeforeMonth, List.range_succ]

theorem daysBeforeMonth_one : daysBeforeMonth year 1 = 0 := rfl

theorem daysBeforeMonth_mono : Monotone (daysBeforeMonth year) :=
  monotone_nat_of_le_succ fun month => by
    rcases Nat.eq_zero_or_pos month with rfl | hpos
    · exact Nat.le_refl _
    · rw [daysBeforeMonth_succ year hpos]
      exact Nat.le_add_right _ _

/-- The months of a year make up the year. -/
theorem daysBeforeMonth_thirteen : daysBeforeMonth year 13 = yearLength year := by
  unfold yearLength
  cases h : isLeapYear year <;> simp [daysBeforeMonth, List.range_succ, monthLength, h]

end Months

section Years

theorem daysBeforeYear_succ {year : Nat} (h : 1 ≤ year) :
    daysBeforeYear (year + 1) = daysBeforeYear year + yearLength year := by
  obtain ⟨y, rfl⟩ : ∃ y, year = y + 1 := ⟨year - 1, by omega⟩
  have hcenturies : y / 100 ≤ y / 4 := Nat.div_le_div_left (by decide) (by decide)
  have hlength : yearLength (y + 1) + (if 100 ∣ y + 1 then 1 else 0) =
      365 + (if 4 ∣ y + 1 then 1 else 0) + (if 400 ∣ y + 1 then 1 else 0) := by
    have hcentury : 100 ∣ y + 1 → 4 ∣ y + 1 := (Nat.dvd_trans (by decide) ·)
    have hcycle : 400 ∣ y + 1 → 100 ∣ y + 1 := (Nat.dvd_trans (by decide) ·)
    simp only [yearLength, isLeapYear_iff]
    split_ifs <;> tauto
  have hnext : (y + 1) / 100 ≤ (y + 1) / 4 := Nat.div_le_div_left (by decide) (by decide)
  rw [Nat.succ_div, Nat.succ_div] at hnext
  simp only [daysBeforeYear, Nat.add_sub_cancel, Nat.succ_div]
  generalize (if 4 ∣ y + 1 then 1 else 0) = fourth at hlength hnext ⊢
  generalize (if 100 ∣ y + 1 then 1 else 0) = century at hlength hnext ⊢
  generalize (if 400 ∣ y + 1 then 1 else 0) = cycle at hlength ⊢
  generalize yearLength (y + 1) = length at hlength ⊢
  clear h
  generalize y / 4 = p at hcenturies hnext ⊢
  generalize y / 100 = q at hcenturies hnext ⊢
  generalize y / 400 = r
  omega

theorem daysBeforeYear_mono : Monotone daysBeforeYear :=
  monotone_nat_of_le_succ fun year => by
    rcases Nat.eq_zero_or_pos year with rfl | hpos
    · exact Nat.le_refl _
    · rw [daysBeforeYear_succ hpos]
      exact Nat.le_add_right _ _

variable {a b c e : Nat} (hb : b < 4) (hc : c < 25) (he : e < 4)

include hb hc he

/-- Cycles of 400 years, with centuries, fours of years and years behind them. -/
theorem daysBeforeYear_cycles : daysBeforeYear (400 * a + 100 * b + 4 * c + e + 1) =
    146097 * a + 36524 * b + 1461 * c + 365 * e := by
  have hfours : (400 * a + 100 * b + 4 * c + e) / 4 = 100 * a + 25 * b + c := by omega
  have hcenturies : (400 * a + 100 * b + 4 * c + e) / 100 = 4 * a + b := by omega
  have hcycles : (400 * a + 100 * b + 4 * c + e) / 400 = a := by omega
  simp only [daysBeforeYear, Nat.add_sub_cancel, hfours, hcenturies, hcycles]
  omega

end Years

section Ordinals

variable {d d' : Date} {n : Nat}

/-- The day of a month lies within its year. -/
theorem Date.IsProper.le_yearLength (h : d.IsProper) :
    daysBeforeMonth d.year d.month + d.day ≤ yearLength d.year := by
  have hmonths := daysBeforeMonth_mono d.year (Nat.succ_le_succ h.month_le)
  rw [daysBeforeMonth_succ _ h.month_pos, daysBeforeMonth_thirteen] at hmonths
  exact (Nat.add_le_add_left h.day_le _).trans hmonths

theorem Date.IsProper.lt_ordinal (h : d.IsProper) : daysBeforeYear d.year < d.ordinal := by
  have hday := h.day_pos
  unfold Date.ordinal
  omega

theorem Date.IsProper.ordinal_le (h : d.IsProper) : d.ordinal ≤ daysBeforeYear (d.year + 1) := by
  rw [daysBeforeYear_succ h.year_pos, Date.ordinal, Nat.add_assoc]
  exact Nat.add_le_add_left h.le_yearLength _

theorem Date.IsProper.ordinal_lt_of_year_lt (h : d.IsProper) (h' : d'.IsProper)
    (hyear : d.year < d'.year) : d.ordinal < d'.ordinal :=
  (h.ordinal_le.trans (daysBeforeYear_mono hyear)).trans_lt h'.lt_ordinal

theorem Date.IsProper.ordinal_lt_of_month_lt (h : d.IsProper) (h' : d'.IsProper)
    (hyear : d.year = d'.year) (hmonth : d.month < d'.month) : d.ordinal < d'.ordinal := by
  have hmonths := daysBeforeMonth_mono d.year hmonth
  rw [Nat.succ_eq_add_one, daysBeforeMonth_succ _ h.month_pos] at hmonths
  have hday := h.day_le
  have hday' := h'.day_pos
  unfold Date.ordinal
  rw [← hyear]
  omega

/-- No two days have one number. -/
theorem Date.IsProper.ordinal_inj (h : d.IsProper) (h' : d'.IsProper)
    (heq : d.ordinal = d'.ordinal) : d = d' := by
  have hyear : d.year = d'.year := by
    rcases Nat.lt_trichotomy d.year d'.year with hlt | hyear | hlt
    · exact absurd heq (h.ordinal_lt_of_year_lt h' hlt).ne
    · exact hyear
    · exact absurd heq (h'.ordinal_lt_of_year_lt h hlt).ne'
  have hmonth : d.month = d'.month := by
    rcases Nat.lt_trichotomy d.month d'.month with hlt | hmonth | hlt
    · exact absurd heq (h.ordinal_lt_of_month_lt h' hyear hlt).ne
    · exact hmonth
    · exact absurd heq (h'.ordinal_lt_of_month_lt h hyear.symm hlt).ne'
  have hday : d.day = d'.day := by
    simp only [Date.ordinal, hyear, hmonth] at heq
    omega
  cases d
  cases d'
  simp_all

/-- The month that a day of a year falls into, sought from a month on that does not end before it. -/
theorem monthDay_go (year : Nat) {fuel month n : Nat} (hpos : 1 ≤ month)
    (hn : daysBeforeMonth year month + n < daysBeforeMonth year (month + fuel + 1)) :
    ∃ m day, monthDay.go year fuel month n = (m, day) ∧ month ≤ m ∧ m ≤ month + fuel ∧ 1 ≤ day ∧
      day ≤ monthLength year m ∧ daysBeforeMonth year m + day = daysBeforeMonth year month + n + 1 := by
  induction fuel generalizing month n with
  | zero =>
    rw [Nat.add_zero, daysBeforeMonth_succ year hpos] at hn
    exact ⟨month, n + 1, rfl, Nat.le_refl _, Nat.le_refl _, by omega, by omega, rfl⟩
  | succ fuel ih =>
    rw [monthDay.go]
    split
    next hhere => exact ⟨month, n + 1, rfl, by omega, by omega, by omega, by omega, rfl⟩
    next hlater =>
      have hnext := daysBeforeMonth_succ year hpos
      have hmonths : month + 1 + fuel + 1 = month + (fuel + 1) + 1 := by omega
      obtain ⟨m, day, hgo, hlow, hhigh, hday, hday', hsum⟩ :=
        @ih (month + 1) (n - monthLength year month) (by omega) (by rw [hmonths]; omega)
      exact ⟨m, day, hgo, by omega, by omega, hday, hday', by omega⟩

theorem monthDay_spec {year n : Nat} (hn : n < yearLength year) :
    ∃ month day, monthDay year n = (month, day) ∧ 1 ≤ month ∧ month ≤ 12 ∧ 1 ≤ day ∧
      day ≤ monthLength year month ∧ daysBeforeMonth year month + day = n + 1 := by
  rw [← daysBeforeMonth_thirteen] at hn
  obtain ⟨month, day, hgo, hlow, hhigh, hday, hday', hsum⟩ :=
    @monthDay_go year 11 1 n (Nat.le_refl 1) (by rw [daysBeforeMonth_one, Nat.zero_add]; exact hn)
  rw [daysBeforeMonth_one, Nat.zero_add] at hsum
  exact ⟨month, day, hgo, hlow, hhigh, hday, hday', hsum⟩

/-- The last day of a leap year that ends four years. -/
theorem Date.lastDay_spec {a b c : Nat} (hb : b < 4) (hc : c < 25) (hleap : c < 24 ∨ b = 3) :
    (⟨400 * a + 100 * b + 4 * c + 3 + 1, 12, 31⟩ : Date).IsProper ∧
      (⟨400 * a + 100 * b + 4 * c + 3 + 1, 12, 31⟩ : Date).ordinal =
        146097 * a + 36524 * b + 1461 * c + 365 * 3 + 366 := by
  have hlength : yearLength (400 * a + 100 * b + 4 * c + 3 + 1) = 366 := by
    rw [yearLength, if_pos]
    rw [isLeapYear_iff]
    omega
  have hdecember : monthLength (400 * a + 100 * b + 4 * c + 3 + 1) 12 = 31 := rfl
  have hmonths := daysBeforeMonth_succ (400 * a + 100 * b + 4 * c + 3 + 1) (by decide : 1 ≤ 12)
  rw [daysBeforeMonth_thirteen, hlength] at hmonths
  refine ⟨⟨Nat.succ_le_succ (Nat.zero_le _), (show 1 ≤ 12 by decide), Nat.le_refl 12,
    (show 1 ≤ 31 by decide), hdecember.ge⟩, ?_⟩
  dsimp only [Date.ordinal]
  rw [daysBeforeYear_cycles hb hc (by decide)]
  omega

/-- Every number is that of a day. -/
theorem Date.ofOrdinal_spec (h : 1 ≤ n) :
    (Date.ofOrdinal n).IsProper ∧ (Date.ofOrdinal n).ordinal = n := by
  -- the number splits into years of four lengths and the days of a year
  obtain ⟨a, b, c, e, r, ha, hb, hc, he, hr⟩ : ∃ a b c e r, (n - 1) / 146097 = a ∧
      (n - 1) % 146097 / 36524 = b ∧ (n - 1) % 146097 % 36524 / 1461 = c ∧
      (n - 1) % 146097 % 36524 % 1461 / 365 = e ∧ (n - 1) % 146097 % 36524 % 1461 % 365 = r :=
    ⟨_, _, _, _, _, rfl, rfl, rfl, rfl, rfl⟩
  have hyear : 365 * e + r < 1461 := by omega
  have hfour : 1461 * c + (365 * e + r) < 36524 := by omega
  have hcentury : 36524 * b + (1461 * c + (365 * e + r)) < 146097 := by omega
  have hday : r < 365 := hr ▸ Nat.mod_lt _ (by decide)
  have hn : n = 146097 * a + (36524 * b + (1461 * c + (365 * e + r))) + 1 := by omega
  simp only [Date.ofOrdinal, ha, hb, hc, he, hr]
  clear ha hb hc he hr
  split
  next hlast =>
    obtain ⟨b', c', hb', hc', hleap, hyears, hdays⟩ : ∃ b' c', b' < 4 ∧ c' < 25 ∧
        (c' < 24 ∨ b' = 3) ∧ 400 * a + 100 * b + 4 * c + e = 400 * a + 100 * b' + 4 * c' + 3 + 1 ∧
        n = 146097 * a + 36524 * b' + 1461 * c' + 365 * 3 + 366 := by
      rcases hlast with rfl | rfl
      · exact ⟨b, c, by omega, by omega, by omega, by omega, by omega⟩
      · exact ⟨3, 24, by omega, by omega, by omega, by omega, by omega⟩
    rw [Nat.add_sub_cancel, hyears, hdays]
    exact Date.lastDay_spec hb' hc' hleap
  next hinner =>
    have hlength : r < yearLength (400 * a + 100 * b + 4 * c + e + 1) := by
      unfold yearLength
      split <;> omega
    obtain ⟨month, day, hmonthDay, hmonth, hmonth', hday, hday', hsum⟩ := monthDay_spec hlength
    rw [hmonthDay]
    refine ⟨⟨Nat.succ_le_succ (Nat.zero_le _), hmonth, hmonth', hday, hday'⟩, ?_⟩
    dsimp only [Date.ordinal]
    rw [daysBeforeYear_cycles (by omega) (by omega) (by omega)]
    omega

theorem Date.ofOrdinal_ordinal (h : d.IsProper) : Date.ofOrdinal d.ordinal = d := by
  obtain ⟨hproper, hordinal⟩ := Date.ofOrdinal_spec (Nat.one_le_of_lt h.lt_ordinal)
  exact hproper.ordinal_inj h hordinal

theorem isDay_iff {ordinal : Int} : isDay ordinal ↔ 1 ≤ ordinal ∧ ordinal ≤ 3652059 := by
  rw [isDay, Bool.and_eq_true, decide_eq_true_eq, decide_eq_true_eq, lastOrdinal]

/-- The days of the years 1 to 9999. -/
theorem Date.isDay_ordinal (h : d.isValid) : isDay d.ordinal := by
  have hproper := Date.isProper_of_isValid h
  have hlow := hproper.lt_ordinal
  have hyear : d.year + 1 ≤ 10000 := by
    simp only [Date.isValid, Bool.and_eq_true, decide_eq_true_eq] at h
    omega
  have hhigh := hproper.ordinal_le.trans (daysBeforeYear_mono hyear)
  have hlast : daysBeforeYear 10000 = 3652059 := by decide
  rw [isDay_iff]
  omega

end Ordinals

section Moments

/-- A moment of universal time, with a day of the years 1 to 9999 and a time of day. -/
structure Stamp.IsMoment (s : Stamp) (t : Time) : Prop where
  date : s.date.isValid
  time_eq : s.time = some t
  time : t.isValid
  offset : s.offset = some 0

variable {s : Stamp} {t : Time} {micros : Int}

theorem Stamp.IsMoment.micros_eq (h : s.IsMoment t) : s.micros =
    ((s.date.ordinal : Int) - epochOrdinal) * microsPerDay +
      (((3600 * t.hour + 60 * t.minute + t.second) * 1000000 + t.microsecond : Nat) : Int) := by
  rw [Stamp.micros, h.time_eq, h.offset]
  simp

theorem fdiv_microsPerDay (micros : Int) : micros.fdiv microsPerDay = micros / 86400000000 :=
  Int.fdiv_eq_ediv_of_nonneg micros (by decide)

/-- The moment at a number of microseconds, by day and time of day. -/
theorem Stamp.ofMicros_eq {day : Int} {clock : Nat} (h : clock < 86400000000) :
    Stamp.ofMicros (day * microsPerDay + clock) = ⟨.ofOrdinal (day + epochOrdinal).toNat,
      some ⟨clock / 1000000 / 3600, clock / 1000000 / 60 % 60, clock / 1000000 % 60,
        clock % 1000000⟩, some 0⟩ := by
  have hday : (day * microsPerDay + clock).fdiv microsPerDay = day := by
    rw [fdiv_microsPerDay, microsPerDay]
    omega
  have hclock : (day * microsPerDay + clock - day * microsPerDay).toNat = clock := by omega
  simp only [Stamp.ofMicros, hday, hclock]

/-- A moment is the one at its number of microseconds. -/
theorem Stamp.IsMoment.ofMicros_micros (h : s.IsMoment t) : Stamp.ofMicros s.micros = s := by
  have htime := h.time
  simp only [Time.isValid, Bool.and_eq_true, decide_eq_true_eq] at htime
  obtain ⟨⟨⟨hhour, hminute⟩, hsecond⟩, hmicro⟩ := htime
  have hdate : Date.ofOrdinal ((s.date.ordinal : Int) - epochOrdinal + epochOrdinal).toNat = s.date := by
    rw [Int.sub_add_cancel, Int.toNat_natCast,
      Date.ofOrdinal_ordinal (Date.isProper_of_isValid h.date)]
  have hseconds : ((3600 * t.hour + 60 * t.minute + t.second) * 1000000 + t.microsecond) / 1000000 =
      3600 * t.hour + 60 * t.minute + t.second := by omega
  rw [h.micros_eq, Stamp.ofMicros_eq (by omega), hdate, hseconds]
  obtain ⟨date, time, offset⟩ := s
  obtain ⟨hour, minute, second, microsecond⟩ := t
  obtain rfl : time = _ := h.time_eq
  obtain rfl : offset = _ := h.offset
  dsimp only at hhour hminute hsecond hmicro ⊢
  congr 3 <;> omega

theorem Stamp.IsMoment.fdiv_micros (h : s.IsMoment t) :
    s.micros.fdiv microsPerDay = s.date.ordinal - epochOrdinal := by
  have htime := h.time
  simp only [Time.isValid, Bool.and_eq_true, decide_eq_true_eq] at htime
  rw [fdiv_microsPerDay, h.micros_eq, microsPerDay]
  omega

/-- The number of microseconds of the moment at such a number. -/
theorem Stamp.micros_ofMicros (h : isDay (micros.fdiv microsPerDay + epochOrdinal)) :
    (Stamp.ofMicros micros).micros = micros := by
  obtain ⟨clock, hclock, hlt⟩ : ∃ clock : Nat,
      micros = micros / 86400000000 * microsPerDay + clock ∧ clock < 86400000000 :=
    ⟨(micros % 86400000000).toNat, by rw [microsPerDay]; omega, by omega⟩
  rw [fdiv_microsPerDay, isDay_iff] at h
  generalize micros / 86400000000 = day at hclock h
  have hordinal := (Date.ofOrdinal_spec (n := (day + epochOrdinal).toNat) (by omega)).2
  have hday : ((day + epochOrdinal).toNat : Int) - epochOrdinal = day := by omega
  have htime : (3600 * (clock / 1000000 / 3600) + 60 * (clock / 1000000 / 60 % 60) +
      clock / 1000000 % 60) * 1000000 + clock % 1000000 = clock := by omega
  rw [hclock, Stamp.ofMicros_eq hlt, Stamp.micros]
  dsimp only [Option.getD]
  rw [hordinal, hday, htime, Int.sub_zero]

/-- A clock that is ahead of universal time shows the same moment. -/
theorem Stamp.micros_onClock {ahead : Int}
    (h : isDay ((s.micros + ahead).fdiv microsPerDay + epochOrdinal)) :
    (s.onClock ahead).micros = s.micros := by
  have hshown : (s.onClock ahead).micros = (Stamp.ofMicros (s.micros + ahead)).micros - ahead := by
    simp [Stamp.onClock, Stamp.micros, Stamp.ofMicros]
  rw [hshown, Stamp.micros_ofMicros h, Int.add_sub_cancel]

/-- Two hours ahead a new day has begun. -/
example : (Stamp.mk ⟨2026, 1, 1⟩ (some ⟨23, 30, 0, 0⟩) (some 0)).onClock 7200000000 =
    ⟨⟨2026, 1, 2⟩, some ⟨1, 30, 0, 0⟩, some 7200000000⟩ := by decide

end Moments

end BulletScript.Calendar
