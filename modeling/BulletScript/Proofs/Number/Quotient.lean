import BulletScript.Number.Arithmetic
import Mathlib

/-! Quotients of whole numbers, and the numbers of 53 bits nearest to them. Where the divisor divides the
other number, the quotient is the nearest whole number that 53 bits hold, as long as there is one below
all infinite numbers. Below 2 ^ 51 the last place is a fraction, so that a whole quotient is found
exactly, and any other one is missed by less than one. -/
namespace BulletScript.Number

section Decoding

open Float.Model Float.Model.UnpackedFloat

/-- The field of a word for its exponent. -/
def exponentField (word : BitVec 64) : BitVec 11 := @unpackExponent .binary64 word

theorem toNat_exponentField (word : BitVec 64) :
    (exponentField word).toNat = word.toNat / 2 ^ 52 % 2 ^ 11 := by
  simp [exponentField, unpackExponent, BitVec.extractLsb, Nat.shiftRight_eq_div_pow]

/-- The word of a finite number is kept. -/
theorem toBits_ofBits {word : UInt64} (h : exponentField word.toBitVec ≠ -1#11) :
    (Float.ofBits word).toBits = word := by
  have hnumber : ¬ @isNaNBits .binary64 word.toBitVec := by
    intro hnan
    exact h (of_decide_eq_true hnan).1
  have hpack := @pack_unpack .binary64 word.toBitVec (by decide)
  rw [if_neg hnumber] at hpack
  exact UInt64.toBitVec_inj.1 hpack

theorem twoTo_eq (n : Nat) : twoTo n = 2 ^ n := rfl

variable {n m : Nat} (hlow : 2 ^ 52 ≤ m) (hhigh : m < 2 ^ 53) (hn : n ≤ 2045)

include hlow hhigh hn

/-- What the fields of a word say. -/
theorem ofBits_word (negative : Bool) :
    Binary64.ofBits (negative.toNat * 2 ^ 63 + (n * 2 ^ 52 + m)) =
      .finite ⟨negative, m, n - 1074⟩ := by
  have hle := negative.toNat_le
  have hsign : (negative.toNat * 2 ^ 63 + (n * 2 ^ 52 + m)) / 2 ^ 63 = negative.toNat := by omega
  have hfield : (negative.toNat * 2 ^ 63 + (n * 2 ^ 52 + m)) / 2 ^ 52 % 2 ^ 11 = n + 1 := by omega
  have hfraction : (negative.toNat * 2 ^ 63 + (n * 2 ^ 52 + m)) % 2 ^ 52 = m - 2 ^ 52 := by omega
  have hexponent : ((n + 1 : Nat) : Int) - 1075 = n - 1074 := by omega
  have hnegative : (negative.toNat == 1) = negative := by cases negative <;> rfl
  simp only [Binary64.ofBits, twoTo_eq, hsign, hfield, hfraction]
  rw [if_neg (by omega), if_neg (by omega), hexponent, hnegative, Nat.add_sub_cancel' hlow]

/-- A number is decoded to its magnitude and its sign. -/
theorem decode_withSign (negative : Bool) :
    decode (withSign negative (n * twoTo 52 + m)) = .finite ⟨negative, m, n - 1074⟩ := by
  have hle := negative.toNat_le
  have hword : (if negative then twoTo 63 + (n * twoTo 52 + m) else n * twoTo 52 + m) =
      negative.toNat * 2 ^ 63 + (n * 2 ^ 52 + m) := by
    cases negative <;> simp
  have hnat : (UInt64.ofNat (negative.toNat * 2 ^ 63 + (n * 2 ^ 52 + m))).toNat =
      negative.toNat * 2 ^ 63 + (n * 2 ^ 52 + m) :=
    UInt64.toNat_ofNat_of_lt' (by change _ < 2 ^ 64; omega)
  rw [decode, withSign, hword, toBits_ofBits, hnat, ofBits_word hlow hhigh hn]
  intro hinfinite
  have hfield := congrArg BitVec.toNat hinfinite
  rw [toNat_exponentField, UInt64.toNat_toBitVec, hnat] at hfield
  change _ = 2047 at hfield
  omega

end Decoding

/-- The magnitudes from here on are rounded to infinity. -/
def leastInfinite : Nat := 2 ^ 1024

/-- A whole number that a binary64 number holds: 53 bits with zeros behind them, and not too large. -/
def Fits (n : Nat) : Prop := n < leastInfinite ∧ ∃ m k, m < 2 ^ 53 ∧ n = m * 2 ^ k

/-- The first 53 bits of a number, rounded. A shorter one is filled up with zeros. -/
def leadingBits (n : Nat) : Nat :=
  if n.log2 < 52 then n * 2 ^ (52 - n.log2) else roundHalfEven n (2 ^ (n.log2 - 52))

/-- The nearest whole number of 53 bits with zeros behind them. -/
def nearestWhole (n : Nat) : Nat :=
  if n.log2 < 52 then n else leadingBits n * 2 ^ (n.log2 - 52)

section Rounding

variable {n d q : Nat}

theorem roundHalfEven_mul (n d : Nat) {c : Nat} (hc : 0 < c) :
    roundHalfEven (n * c) (d * c) = roundHalfEven n d := by
  have hless (x y : Nat) : 2 * (x * c) < y * c ↔ 2 * x < y := by
    rw [← Nat.mul_assoc, Nat.mul_lt_mul_right hc]
  have hmore (x y : Nat) : y * c < 2 * (x * c) ↔ y < 2 * x := by
    rw [← Nat.mul_assoc, Nat.mul_lt_mul_right hc]
  simp only [roundHalfEven, Nat.mul_div_mul_right _ _ hc, Nat.mul_mod_mul_right, hless, hmore]

theorem roundHalfEven_of_dvd (hd : 0 < d) (h : d ∣ n) : roundHalfEven n d = n / d := by
  simp [roundHalfEven, Nat.mod_eq_zero_of_dvd h, hd]

theorem div_le_roundHalfEven (n d : Nat) : n / d ≤ roundHalfEven n d := by
  unfold roundHalfEven
  dsimp only
  split
  · exact Nat.le_refl _
  split
  · exact Nat.le_succ _
  · exact Nat.le_add_right ..

theorem roundHalfEven_le (n d : Nat) : roundHalfEven n d ≤ n / d + 1 := by
  have hbit := Nat.mod_lt (n / d) Nat.two_pos
  unfold roundHalfEven
  dsimp only
  split
  · exact Nat.le_succ _
  split
  · exact Nat.le_refl _
  · omega

end Rounding

section Scaling

variable {q d : Nat} (hq : q ≠ 0) (hd : 0 < d)

include hq hd

/-- The logarithm of a product is the sum of those of its factors, or one more. -/
theorem log2_mul : (q * d).log2 = q.log2 + d.log2 ∨ (q * d).log2 = q.log2 + d.log2 + 1 := by
  have hlow : q.log2 + d.log2 ≤ (q * d).log2 := by
    rw [Nat.le_log2 (Nat.mul_ne_zero hq hd.ne'), Nat.pow_add]
    exact Nat.mul_le_mul (Nat.log2_self_le hq) (Nat.log2_self_le hd.ne')
  have hhigh : (q * d).log2 < q.log2 + 1 + (d.log2 + 1) := by
    rw [Nat.log2_lt (Nat.mul_ne_zero hq hd.ne'), Nat.pow_add]
    exact Nat.mul_lt_mul'' Nat.lt_log2_self Nat.lt_log2_self
  omega

/-- The scales at which a quotient without remainder has 53 places or more. -/
theorem le_scaled_iff (e : Int) :
    2 ^ 52 ≤ (scaled (q * d) d e).1 / (scaled (q * d) d e).2 ↔ e ≤ q.log2 - 52 := by
  rw [scaled]
  split
  next hnegative =>
    obtain ⟨k, rfl⟩ : ∃ k : Nat, e = -k := ⟨e.natAbs, by omega⟩
    have hquotient : q * d * twoTo (- -(k : Int)).toNat / d = q * 2 ^ k := by
      rw [Nat.mul_right_comm, Nat.mul_div_cancel _ hd, Int.neg_neg, Int.toNat_natCast, twoTo_eq]
    dsimp only
    rw [hquotient]
    by_cases hk : 52 ≤ k
    · refine iff_of_true ?_ (by omega)
      exact (Nat.pow_le_pow_right Nat.two_pos hk).trans
        (Nat.le_mul_of_pos_left _ (Nat.pos_of_ne_zero hq))
    · have hsplit : 2 ^ 52 = 2 ^ (52 - k) * 2 ^ k := by rw [← Nat.pow_add]; congr 1; omega
      rw [hsplit, Nat.mul_le_mul_right_iff (Nat.two_pow_pos k), ← Nat.le_log2 hq]
      omega
  next hnonnegative =>
    obtain ⟨k, rfl⟩ := Int.eq_ofNat_of_zero_le (Int.not_lt.1 hnonnegative)
    have hquotient : q * d / (d * twoTo (k : Int).toNat) = q / 2 ^ k := by
      rw [Nat.mul_comm q d, Nat.mul_div_mul_left _ _ hd, Int.toNat_natCast, twoTo_eq]
    dsimp only
    rw [hquotient, Nat.le_div_iff_mul_le (Nat.two_pow_pos k), ← Nat.pow_add, ← Nat.le_log2 hq]
    omega

theorem scaleOf_mul : scaleOf (q * d) d = q.log2 - 52 := by
  have hreach := le_scaled_iff hq hd
  have hlog := log2_mul hq hd
  rw [scaleOf]
  dsimp only
  have hscale := hreach (((q * d).log2 : Int) - d.log2 - 52)
  generalize hplaces : (scaled (q * d) d (((q * d).log2 : Int) - d.log2 - 52)).1 /
    (scaled (q * d) d (((q * d).log2 : Int) - d.log2 - 52)).2 = places at hscale
  rw [twoTo_eq]
  split <;> omega

end Scaling

section Words

variable {q d : Nat} (hq : q ≠ 0)

include hq

theorem le_leadingBits : 2 ^ 52 ≤ leadingBits q := by
  have hlow := Nat.log2_self_le hq
  unfold leadingBits
  split
  next h =>
    calc 2 ^ 52 = 2 ^ q.log2 * 2 ^ (52 - q.log2) := by rw [← Nat.pow_add]; congr 1; omega
      _ ≤ q * 2 ^ (52 - q.log2) := Nat.mul_le_mul_right _ hlow
  next h =>
    refine Nat.le_trans ?_ (div_le_roundHalfEven _ _)
    rw [Nat.le_div_iff_mul_le (Nat.two_pow_pos _), ← Nat.pow_add]
    convert hlow using 2
    omega

omit hq in
theorem leadingBits_lt (h : q.log2 < 52) : leadingBits q < 2 ^ 53 := by
  have hhigh := @Nat.lt_log2_self q
  rw [leadingBits, if_pos h]
  calc q * 2 ^ (52 - q.log2) < 2 ^ (q.log2 + 1) * 2 ^ (52 - q.log2) :=
      Nat.mul_lt_mul_of_pos_right hhigh (Nat.two_pow_pos _)
    _ = 2 ^ 53 := by rw [← Nat.pow_add]; congr 1; omega

omit hq in
theorem leadingBits_le (q : Nat) : leadingBits q ≤ 2 ^ 53 := by
  have hhigh := @Nat.lt_log2_self q
  by_cases h : q.log2 < 52
  · exact (leadingBits_lt h).le
  · rw [leadingBits, if_neg h]
    refine (roundHalfEven_le _ _).trans (Nat.succ_le_of_lt ?_)
    rw [Nat.div_lt_iff_lt_mul (Nat.two_pow_pos _), ← Nat.pow_add]
    convert hhigh using 2
    omega

omit hq in
theorem leastInfinite_eq {j k : Nat} (h : j + k = 1024) : leastInfinite = 2 ^ j * 2 ^ k := by
  rw [← Nat.pow_add, h, leastInfinite]

omit hq in
theorem leastInfinite_pos : 0 < leastInfinite := by
  obtain ⟨k, hk⟩ : ∃ k, 53 + k = 1024 := ⟨971, rfl⟩
  rw [leastInfinite_eq hk]
  exact Nat.mul_pos (Nat.two_pow_pos _) (Nat.two_pow_pos _)

/-- The word is below that of infinity exactly if the number is not too large. -/
theorem word_lt_iff : (q.log2 + 1022) * 2 ^ 52 + leadingBits q < 2047 * 2 ^ 52 ↔
    nearestWhole q < leastInfinite := by
  have hlow := le_leadingBits hq
  have hhigh := leadingBits_le q
  -- the power is kept behind a name, since it is too large to be evaluated
  obtain ⟨k, hk⟩ : ∃ k, 53 + k = 1024 := ⟨971, rfl⟩
  unfold nearestWhole
  split
  next h =>
    refine iff_of_true (by omega) ?_
    calc q < 2 ^ 52 := (Nat.log2_lt hq).1 h
      _ < 2 ^ 53 := by decide
      _ ≤ 2 ^ 53 * 2 ^ k := Nat.le_mul_of_pos_right _ (Nat.two_pow_pos _)
      _ = leastInfinite := (leastInfinite_eq hk).symm
  next h =>
    rcases Nat.lt_trichotomy (q.log2 - 52) k with hlog | hlog | hlog
    · refine iff_of_true (by omega) ?_
      rw [leastInfinite_eq hk]
      exact Nat.mul_lt_mul_of_le_of_lt hhigh (Nat.pow_lt_pow_right Nat.one_lt_two hlog)
        (Nat.two_pow_pos _)
    · rw [hlog, leastInfinite_eq hk, Nat.mul_lt_mul_right (Nat.two_pow_pos _)]
      omega
    · refine iff_of_false (by omega) (Nat.not_lt.2 ?_)
      have hnext : 52 + (k + 1) = 1024 := by omega
      rw [leastInfinite_eq hnext]
      exact Nat.mul_le_mul hlow (Nat.pow_le_pow_right Nat.two_pos hlog)

/-- The word of a quotient without remainder: its first 53 bits behind the scale. -/
theorem roundBits_mul (hd : 0 < d) : roundBits (q * d) d =
    if nearestWhole q < leastInfinite then some ((q.log2 + 1022) * twoTo 52 + leadingBits q)
    else none := by
  have hscale : ((q.log2 : Int) - 52 + 1074).toNat = q.log2 + 1022 := by omega
  have hrounded : roundHalfEven (scaled (q * d) d (q.log2 - 52)).1
      (scaled (q * d) d (q.log2 - 52)).2 = leadingBits q := by
    rw [scaled, leadingBits]
    by_cases h : q.log2 < 52
    · rw [if_pos (by omega), if_pos h, Nat.mul_right_comm]
      have hdvd : d ∣ q * twoTo (-((q.log2 : Int) - 52)).toNat * d := Nat.dvd_mul_left ..
      dsimp only
      rw [roundHalfEven_of_dvd hd hdvd, Nat.mul_div_cancel _ hd, twoTo_eq]
      congr 2
      omega
    · rw [if_neg (by omega), if_neg h]
      dsimp only
      rw [Nat.mul_comm d, roundHalfEven_mul _ _ hd, twoTo_eq]
      congr 2
      omega
  rw [roundBits, if_neg (Nat.mul_ne_zero hq hd.ne'), scaleOf_mul hq hd]
  dsimp only
  rw [hrounded, hscale]
  exact if_congr (word_lt_iff hq) rfl rfl

/-- A magnitude that is a whole number. -/
def Dyadic.IsWhole (v : Dyadic) (n : Nat) : Prop := v.ratio.1 = n * v.ratio.2

omit hq in
theorem isWhole_of_nonneg (negative : Bool) (m k : Nat) :
    Dyadic.IsWhole ⟨negative, m, k⟩ (m * 2 ^ k) := by
  rw [Dyadic.IsWhole, Dyadic.ratio, if_neg (by simp)]
  simp

omit hq in
theorem isWhole_of_neg (negative : Bool) (m k : Nat) (hk : 0 < k) :
    Dyadic.IsWhole ⟨negative, m * 2 ^ k, -k⟩ m := by
  rw [Dyadic.IsWhole, Dyadic.ratio, if_pos (by simpa using hk)]
  simp

/-- A quotient without remainder is decoded to the nearest whole number. -/
theorem decode_quotient (negative : Bool) (hfinite : nearestWhole q < leastInfinite) :
    ∃ v, decode (withSign negative ((q.log2 + 1022) * twoTo 52 + leadingBits q)) = .finite v ∧
      v.negative = negative ∧ v.IsWhole (nearestWhole q) := by
  have hlow := le_leadingBits hq
  have hword := (word_lt_iff hq).2 hfinite
  rcases (leadingBits_le q).lt_or_eq with hbits | hbits
  · refine ⟨_, decode_withSign hlow hbits (by omega) negative, rfl, ?_⟩
    by_cases h : q.log2 < 52
    · have hexponent : ((q.log2 + 1022 : Nat) : Int) - 1074 = -(52 - q.log2 : Nat) := by omega
      rw [hexponent, nearestWhole, leadingBits, if_pos h, if_pos h]
      exact isWhole_of_neg _ _ _ (by omega)
    · have hexponent : ((q.log2 + 1022 : Nat) : Int) - 1074 = (q.log2 - 52 : Nat) := by omega
      rw [hexponent, nearestWhole, if_neg h]
      exact isWhole_of_nonneg _ _ _
  · -- the rounding has carried: one bit, at the next scale
    have hcarry : (q.log2 + 1022) * twoTo 52 + leadingBits q =
        (q.log2 + 1023) * twoTo 52 + 2 ^ 52 := by
      rw [hbits, twoTo_eq]
      omega
    have h : ¬ q.log2 < 52 := fun h => (leadingBits_lt h).ne hbits
    have hexponent : ((q.log2 + 1023 : Nat) : Int) - 1074 = (q.log2 - 52 + 1 : Nat) := by omega
    have hvalue : nearestWhole q = 2 ^ 52 * 2 ^ (q.log2 - 52 + 1) := by
      rw [nearestWhole, if_neg h, hbits, Nat.pow_succ 2 (q.log2 - 52)]
      ring
    rw [hcarry]
    refine ⟨_, decode_withSign (Nat.le_refl _) (by decide) (by omega) negative, rfl, ?_⟩
    rw [hexponent, hvalue]
    exact isWhole_of_nonneg _ _ _

end Words

section Division

variable {a b : Int} {v : Dyadic} {x : Float} {n : Nat}

/-- A whole number with a sign. -/
def signedWhole (negative : Bool) (n : Nat) : Int := if negative then -n else n

theorem ratio_pos (v : Dyadic) : 0 < v.ratio.2 := by
  rw [Dyadic.ratio]
  split
  · exact Nat.two_pow_pos _
  · exact Nat.one_pos

theorem Dyadic.IsWhole.truncate (h : v.IsWhole n) : v.truncate = signedWhole v.negative n := by
  have hdiv : v.ratio.1 / v.ratio.2 = n := by
    rw [h, Nat.mul_div_cancel _ (ratio_pos v)]
  simp only [Dyadic.truncate, signedWhole, hdiv]

theorem Dyadic.IsWhole.compareInt (h : v.IsWhole n) :
    v.compareInt (signedWhole v.negative n) = .eq := by
  simp only [Dyadic.compareInt, signedWhole]
  rw [h]
  split <;> simp

/-- A quotient that is a whole number is given as one. -/
theorem div_of_isWhole (hquotient : intQuotient a b = .ok x) (hx : decode x = .finite v)
    (hwhole : v.IsWhole n) : div (.int a) (.int b) = .ok (.int (signedWhole v.negative n)) := by
  have htruncate : truncate (.float x) = .ok (signedWhole v.negative n) := by
    simp only [truncate, hx, hwhole.truncate]
  have hsame : same (.float x) (.int (signedWhole v.negative n)) = true := by
    simp only [same, order, hx, hwhole.compareInt]
    rfl
  have hfloat : quotient (.int a) (.int b) = .ok x := hquotient
  simp only [div, hfloat, htruncate, hsame, bind, Except.bind, pure, Except.pure, if_true]

theorem decode_zero : decode (withSign false 0) = .finite ⟨false, 0, -1074⟩ := by
  decide +kernel

/-- The sign of a quotient. -/
theorem sign_mul {q : Int} (hq : q ≠ 0) (hb : b ≠ 0) :
    (q * b ≠ 0 && decide (q * b < 0) != decide (b < 0)) = decide (q < 0) := by
  have hne : q * b ≠ 0 := Int.mul_ne_zero hq hb
  have hsign : q * b < 0 ↔ 0 < q ∧ b < 0 ∨ q < 0 ∧ 0 < b := mul_neg_iff
  rw [decide_eq_true hne, Bool.true_and, Bool.eq_iff_iff, bne_iff_ne, ne_eq, decide_eq_decide,
    decide_eq_true_iff]
  omega

/-- Division of a multiple: the nearest whole number to the quotient that 53 bits hold, unless it is
too large. -/
theorem div_mul {q : Int} (hb : b ≠ 0) : div (.int (q * b)) (.int b) =
    if nearestWhole q.natAbs < leastInfinite then
      .ok (.int (signedWhole (q < 0) (nearestWhole q.natAbs)))
    else .error .quotientTooLarge := by
  by_cases hq : q = 0
  · subst hq
    have hquotient : intQuotient (0 * b) b = .ok (withSign false 0) := by
      rw [Int.zero_mul]
      rfl
    have hwhole : Dyadic.IsWhole ⟨false, 0, -1074⟩ 0 := by
      rw [Dyadic.IsWhole, Dyadic.ratio, if_pos (by decide), Nat.zero_mul]
    rw [div_of_isWhole hquotient decode_zero hwhole]
    exact (if_pos leastInfinite_pos).symm
  · have hnat : q.natAbs ≠ 0 := Int.natAbs_ne_zero.2 hq
    have hbits := roundBits_mul hnat (Int.natAbs_pos.2 hb)
    rw [← Int.natAbs_mul] at hbits
    split
    next hfinite =>
      rw [if_pos hfinite] at hbits
      obtain ⟨v, hdecode, hnegative, hwhole⟩ := decode_quotient hnat (decide (q < 0)) hfinite
      have hquotient : intQuotient (q * b) b = .ok (withSign (q < 0)
          ((q.natAbs.log2 + 1022) * twoTo 52 + leadingBits q.natAbs)) := by
        rw [intQuotient, hbits, sign_mul hq hb]
      rw [div_of_isWhole hquotient hdecode hwhole, hnegative]
    next hlarge =>
      rw [if_neg hlarge] at hbits
      have hquotient : quotient (.int (q * b)) (.int b) = .error .quotientTooLarge := by
        rw [quotient, intQuotient, hbits]
      rw [div, hquotient]
      rfl

theorem nearestWhole_of_eq {m k : Nat} (hm : m < 2 ^ 53) (hn : n = m * 2 ^ k) :
    nearestWhole n = n := by
  unfold nearestWhole
  split
  next => rfl
  next h =>
    have hne : n ≠ 0 := by
      rintro rfl
      exact h (by decide)
    have hlog : n.log2 < 53 + k := by
      rw [Nat.log2_lt hne, hn, Nat.pow_add]
      exact Nat.mul_lt_mul_of_pos_right hm (Nat.two_pow_pos _)
    have hdvd : 2 ^ (n.log2 - 52) ∣ n := by
      rw [hn] at hlog ⊢
      exact (Nat.pow_dvd_pow 2 (by omega)).mul_left m
    rw [leadingBits, if_neg h, roundHalfEven_of_dvd (Nat.two_pow_pos _) hdvd,
      Nat.div_mul_cancel hdvd]

theorem exists_of_nearestWhole (h : nearestWhole n = n) : ∃ m k, m < 2 ^ 53 ∧ n = m * 2 ^ k := by
  have hhigh := @Nat.lt_log2_self n
  unfold nearestWhole at h
  split at h
  next hlog =>
    refine ⟨n, 0, hhigh.trans_le (Nat.pow_le_pow_right Nat.two_pos (by omega)), by simp⟩
  next hlog =>
    refine ⟨leadingBits n, n.log2 - 52, ?_, h.symm⟩
    refine (leadingBits_le n).lt_of_ne fun hcarry => ?_
    -- with a carry the number would have one place more than it has
    have hplace : 53 + (n.log2 - 52) = n.log2 + 1 := by omega
    rw [hcarry, ← Nat.pow_add, hplace] at h
    exact hhigh.ne h.symm

theorem fits_iff : Fits n ↔ nearestWhole n = n ∧ n < leastInfinite := by
  constructor
  · rintro ⟨hlt, m, k, hm, hn⟩
    exact ⟨nearestWhole_of_eq hm hn, hlt⟩
  · rintro ⟨hn, hlt⟩
    exact ⟨hlt, exists_of_nearestWhole hn⟩

theorem fits_mul_two_pow {m k : Nat} (hm : m < 2 ^ 53) (hk : k ≤ 971) : Fits (m * 2 ^ k) := by
  obtain ⟨j, hj⟩ : ∃ j, 53 + j = 1024 := ⟨971, rfl⟩
  have hle : 2 ^ k ≤ 2 ^ j := Nat.pow_le_pow_right Nat.two_pos (by omega)
  refine ⟨?_, m, k, hm, rfl⟩
  rw [leastInfinite_eq hj]
  exact Nat.mul_lt_mul_of_lt_of_le hm hle (Nat.two_pow_pos _)

/-- The quotient is exact if and only if a binary64 number holds it. -/
theorem div_mul_eq_iff {q : Int} (hb : b ≠ 0) :
    div (.int (q * b)) (.int b) = .ok (.int q) ↔ Fits q.natAbs := by
  have hsigned (m : Nat) : signedWhole (q < 0) m = q ↔ m = q.natAbs := by
    simp only [signedWhole, decide_eq_true_eq]
    split <;> omega
  rw [div_mul hb, fits_iff]
  split
  next hfinite =>
    rw [Except.ok.injEq, Number.int.injEq, hsigned]
    exact ⟨fun h => ⟨h, h ▸ hfinite⟩, And.left⟩
  next hlarge =>
    refine iff_of_false nofun fun ⟨h, hlt⟩ => hlarge ?_
    rwa [h]

end Division

/-- A magnitude of so many steps of size `2 ^ -k`. -/
def Dyadic.HasSteps (v : Dyadic) (steps k : Nat) : Prop := v.ratio.1 * 2 ^ k = steps * v.ratio.2

section Steps

variable {v : Dyadic} {n d k steps : Nat}

theorem scaled_neg (n d : Nat) (hk : 0 < k) : scaled n d (-k) = (n * 2 ^ k, d) := by
  rw [scaled, if_pos (by omega), Int.neg_neg, Int.toNat_natCast, twoTo_eq]

theorem ratio_neg (negative : Bool) (m : Nat) (hk : 0 < k) :
    Dyadic.ratio ⟨negative, m, -k⟩ = (m, 2 ^ k) := by
  rw [Dyadic.ratio, if_pos (by dsimp only; omega)]
  dsimp only
  rw [Int.neg_neg, Int.toNat_natCast, twoTo_eq]

theorem Dyadic.HasSteps.isWhole (h : v.HasSteps (n * 2 ^ k) k) : v.IsWhole n := by
  refine Nat.eq_of_mul_eq_mul_right (Nat.two_pow_pos k) ?_
  rw [h, Nat.mul_right_comm]

/-- A word that holds 53 bits behind a scale, or the carry to the next scale. -/
theorem ofBits_steps (hk : 0 < k) (hlimit : k ≤ 1074) (hlow : 2 ^ 52 ≤ steps) (hhigh : steps ≤ 2 ^ 53) :
    ∃ v, Binary64.ofBits ((1074 - k) * 2 ^ 52 + steps) = .finite v ∧ v.HasSteps steps k ∧
      v.ratio.2 ≤ 2 ^ k := by
  rcases hhigh.lt_or_eq with hbits | rfl
  · have hword := ofBits_word hlow hbits (n := 1074 - k) (by omega) false
    rw [Bool.toNat_false, Nat.zero_mul, Nat.zero_add] at hword
    have hexponent : ((1074 - k : Nat) : Int) - 1074 = -k := by omega
    rw [hexponent] at hword
    refine ⟨_, hword, ?_, ?_⟩
    · rw [Dyadic.HasSteps, ratio_neg _ _ hk]
    · rw [ratio_neg _ _ hk]
  · -- the rounding has carried: one bit, at the next scale
    have hcarry : (1074 - k) * 2 ^ 52 + 2 ^ 53 = (1074 - k + 1) * 2 ^ 52 + 2 ^ 52 := by omega
    have hword := ofBits_word (m := 2 ^ 52) (n := 1074 - k + 1) (by omega) (by omega) (by omega) false
    rw [Bool.toNat_false, Nat.zero_mul, Nat.zero_add] at hword
    rw [hcarry]
    refine ⟨_, hword, ?_⟩
    obtain ⟨j, rfl⟩ : ∃ j, k = j + 1 := ⟨k - 1, by omega⟩
    have hexponent : ((1074 - (j + 1) + 1 : Nat) : Int) - 1074 = -j := by omega
    rw [hexponent, Dyadic.HasSteps]
    rcases Nat.eq_zero_or_pos j with rfl | hj
    · exact ⟨by decide +kernel, by decide +kernel⟩
    · rw [ratio_neg _ _ hj, Nat.pow_succ 2 j]
      exact ⟨by ring, by omega⟩

end Steps

section Nearest

variable {n d : Nat} (hn : n ≠ 0) (hd : d ≠ 0) (hlow : d.log2 ≤ n.log2 + 1021)
  (hhigh : n.log2 < d.log2 + 52)

include hn hd hlow hhigh

/-- The scale at which a ratio has 53 places before the point. -/
theorem exists_scaleOf_eq : ∃ k : Nat, 0 < k ∧ k ≤ 1074 ∧ k + n.log2 ≤ d.log2 + 53 ∧
    scaleOf n d = -k ∧ 2 ^ 52 * d ≤ n * 2 ^ k ∧ n * 2 ^ k < 2 ^ 53 * d := by
  obtain ⟨k, hk⟩ : ∃ k, k + n.log2 = d.log2 + 52 := ⟨d.log2 + 52 - n.log2, by omega⟩
  have hscale : (n.log2 : Int) - d.log2 - 52 = -(k : Int) := by omega
  have hbelow : n * 2 ^ k < 2 ^ 53 * d := by
    calc n * 2 ^ k < 2 ^ (n.log2 + 1) * 2 ^ k :=
          Nat.mul_lt_mul_of_pos_right Nat.lt_log2_self (Nat.two_pow_pos k)
      _ = 2 ^ 53 * 2 ^ d.log2 := by rw [← Nat.pow_add, ← Nat.pow_add]; congr 1; omega
      _ ≤ 2 ^ 53 * d := Nat.mul_le_mul_left _ (Nat.log2_self_le hd)
  have habove : 2 ^ 51 * d ≤ n * 2 ^ k := by
    calc 2 ^ 51 * d ≤ 2 ^ 51 * 2 ^ (d.log2 + 1) := Nat.mul_le_mul_left _ Nat.lt_log2_self.le
      _ = 2 ^ n.log2 * 2 ^ k := by rw [← Nat.pow_add, ← Nat.pow_add]; congr 1; omega
      _ ≤ n * 2 ^ k := Nat.mul_le_mul_right _ (Nat.log2_self_le hn)
  have hplaces : n * 2 ^ k / d < 2 ^ 52 ↔ n * 2 ^ k < 2 ^ 52 * d :=
    Nat.div_lt_iff_lt_mul (Nat.pos_of_ne_zero hd)
  rw [scaleOf, hscale]
  simp only [scaled_neg n d (show 0 < k by omega), twoTo_eq]
  have hnext : n * 2 ^ (k + 1) = 2 * (n * 2 ^ k) := by ring
  by_cases hshort : n * 2 ^ k < 2 ^ 52 * d
  · refine ⟨k + 1, by omega, by omega, by omega, ?_, by omega, by omega⟩
    rw [if_pos (hplaces.2 hshort)]
    omega
  · refine ⟨k, by omega, by omega, by omega, ?_, by omega, hbelow⟩
    rw [if_neg (mt hplaces.1 hshort)]
    omega

/-- The nearest number in the steps of its last place. -/
theorem nearest?_eq (negative : Bool) : ∃ v k, nearest? negative n d = some v ∧
    v.negative = negative ∧ v.HasSteps (roundHalfEven (n * 2 ^ k) d) k ∧ v.ratio.2 ≤ 2 ^ k ∧
      k + n.log2 ≤ d.log2 + 53 := by
  obtain ⟨k, hpos, hlimit, hlog, hscale, hmin, hmax⟩ := exists_scaleOf_eq hn hd hlow hhigh
  have hdpos := Nat.pos_of_ne_zero hd
  have hmin : 2 ^ 52 ≤ roundHalfEven (n * 2 ^ k) d :=
    ((Nat.le_div_iff_mul_le hdpos).2 hmin).trans (div_le_roundHalfEven _ _)
  have hmax : roundHalfEven (n * 2 ^ k) d ≤ 2 ^ 53 :=
    (roundHalfEven_le _ _).trans ((Nat.div_lt_iff_lt_mul hdpos).2 hmax)
  obtain ⟨v, hword, hsteps, hratio⟩ := ofBits_steps hpos hlimit hmin hmax
  have hbits : roundBits n d = some ((1074 - k) * 2 ^ 52 + roundHalfEven (n * 2 ^ k) d) := by
    have hexponent : (-(k : Int) + 1074).toNat = 1074 - k := by omega
    rw [roundBits, if_neg hn, hscale]
    simp only [scaled_neg n d hpos, hexponent, twoTo_eq]
    rw [if_pos (by omega)]
  refine ⟨{ v with negative }, k, ?_, rfl, hsteps, hratio, hlog⟩
  rw [nearest?, hbits, Option.map_some, hword]

omit hn hd hlow hhigh in
theorem negative_of_nearest? {negative : Bool} {v : Dyadic} (h : nearest? negative n d = some v) :
    v.negative = negative := by
  unfold nearest? at h
  split at h
  · exact congrArg Dyadic.negative (Option.some.inj h).symm
  · cases h

omit hn hd hlow hhigh in
theorem nearest?_zero (negative : Bool) (d : Nat) :
    nearest? negative 0 d = some ⟨negative, 0, -1074⟩ := rfl

omit hn hd hlow hhigh in
/-- A whole quotient is its own nearest number. -/
theorem nearest?_mul {q : Nat} (hd : d ≠ 0) (hq : q < 2 ^ 51) (negative : Bool) :
    ∃ v, nearest? negative (q * d) d = some v ∧ v.negative = negative ∧ v.IsWhole q := by
  rcases Nat.eq_zero_or_pos q with rfl | hpos
  · refine ⟨⟨negative, 0, -1074⟩, by rw [Nat.zero_mul, nearest?_zero], rfl, ?_⟩
    rw [Dyadic.IsWhole, Dyadic.ratio, if_pos (show (-1074 : Int) < 0 by decide), Nat.zero_mul]
  · have hn : q * d ≠ 0 := Nat.mul_ne_zero hpos.ne' hd
    have hbig : d.log2 ≤ (q * d).log2 := by
      rw [Nat.le_log2 hn]
      exact (Nat.log2_self_le hd).trans (Nat.le_mul_of_pos_left d hpos)
    have hsmall : (q * d).log2 < d.log2 + 52 := by
      rw [Nat.log2_lt hn]
      calc q * d < 2 ^ 51 * 2 ^ (d.log2 + 1) :=
          Nat.mul_lt_mul'' hq Nat.lt_log2_self
        _ = 2 ^ (d.log2 + 52) := by rw [← Nat.pow_add]; congr 1; omega
    obtain ⟨v, k, hv, hnegative, hsteps, -⟩ := nearest?_eq hn hd (by omega) hsmall negative
    have hexact : roundHalfEven (q * d * 2 ^ k) d = q * 2 ^ k := by
      rw [Nat.mul_right_comm, roundHalfEven_of_dvd (Nat.pos_of_ne_zero hd) (Nat.dvd_mul_left _ _),
        Nat.mul_div_cancel _ (Nat.pos_of_ne_zero hd)]
    rw [hexact] at hsteps
    exact ⟨v, hv, hnegative, hsteps.isWhole⟩

/-- The nearest number is at most the next whole number. -/
theorem le_of_nearest? {negative : Bool} {v : Dyadic} (h : nearest? negative n d = some v) :
    v.ratio.1 ≤ (n / d + 1) * v.ratio.2 := by
  obtain ⟨v', k, hv, -, hsteps, -⟩ := nearest?_eq hn hd hlow hhigh negative
  obtain rfl := Option.some.inj (hv.symm.trans h)
  have hdpos := Nat.pos_of_ne_zero hd
  have hbound : roundHalfEven (n * 2 ^ k) d ≤ (n / d + 1) * 2 ^ k := by
    refine (roundHalfEven_le _ _).trans ((Nat.div_lt_iff_lt_mul hdpos).2 ?_)
    rw [Nat.mul_right_comm]
    exact Nat.mul_lt_mul_of_pos_right ((Nat.div_lt_iff_lt_mul hdpos).1 (Nat.lt_succ_self _))
      (Nat.two_pow_pos k)
  refine Nat.le_of_mul_le_mul_right ?_ (Nat.two_pow_pos k)
  rw [hsteps, Nat.mul_right_comm]
  exact Nat.mul_le_mul_right _ hbound

end Nearest

end BulletScript.Number
