import BulletScript.Json.Reader
import BulletScript.Value.Literal
import BulletScript.Value.Path
import Mathlib.Data.List.TakeDrop
import Mathlib.Data.List.TakeWhile
import Mathlib.Data.Nat.Digits.Defs

/-! What the reading of JSON takes off a text. The last character of a value is one of its own, a
quote, a bracket, a digit or a letter, so that no text with the mark of a comparison at its end is
JSON. A whole number that is read has few enough digits to be written: a run of digits is worth less
than the power of ten with as many zeros. -/
namespace BulletScript

namespace Number

theorem foldl_digits_lt {α : Type} {value : α → Nat} {ds : List α} (h : ∀ d ∈ ds, value d < 10)
    (start : Nat) :
    ds.foldl (fun n d => 10 * n + value d) start < (start + 1) * 10 ^ ds.length := by
  induction ds generalizing start with
  | nil => simp
  | cons d ds ih =>
    rw [List.forall_mem_cons] at h
    have hnext := ih h.2 (10 * start + value d)
    rw [List.foldl_cons, List.length_cons, Nat.pow_succ, Nat.mul_comm (10 ^ _), ← Nat.mul_assoc]
    refine hnext.trans_le (Nat.mul_le_mul_right _ ?_)
    omega

theorem isWritable_of_lt {n : Int} {count : Nat} (h : n.natAbs < 10 ^ count) (hpos : 0 < count)
    (hlimit : count ≤ digitLimit) : isWritable n := by
  rw [isWritable, decide_eq_true_eq, digitChars]
  exact ((Nat.length_toDigits_le_iff (by decide) hpos).2 h).trans hlimit

theorem sub_lt_ten_of_isDigit {c : Char} (h : c.isDigit) : c.toNat - 48 < 10 := by
  simp only [Char.isDigit, Bool.and_eq_true, decide_eq_true_eq] at h
  have hhigh : c.toNat ≤ 57 := h.2
  omega

section Ascii

variable {digits : List Char} (h : ∀ c ∈ digits, c.isDigit)

include h

theorem decimalNumber_lt : decimalNumber digits < 10 ^ digits.length := by
  rw [decimalNumber]
  simpa using foldl_digits_lt (fun c hc => sub_lt_ten_of_isDigit (h c hc)) 0

theorem isWritable_decimalNumber (hne : digits ≠ []) (hlength : digits.length ≤ digitLimit)
    (negative : Bool) :
    isWritable (if negative then -(decimalNumber digits : Int) else decimalNumber digits) := by
  have habs : (if negative then -(decimalNumber digits : Int)
      else decimalNumber digits).natAbs = decimalNumber digits := by
    cases negative <;> simp
  exact isWritable_of_lt (habs.trans_lt (decimalNumber_lt h)) (List.length_pos_iff.2 hne) hlength

end Ascii

end Number

theorem Text.decimalValue?_lt {c : Char} {d : Nat} (h : decimalValue? c = some d) : d < 10 := by
  unfold decimalValue? at h
  split at h
  · split at h
    · next hdigit =>
      obtain rfl := Option.some.inj h
      exact Number.sub_lt_ten_of_isDigit hdigit
    · cases h
  · obtain ⟨row, -, rfl⟩ := Option.map_eq_some_iff.1 h
    exact Nat.mod_lt _ (by decide)

theorem Text.decimals_of_mapM {cs : List Char} {ds : List Nat}
    (h : cs.mapM decimalValue? = some ds) : ds.length = cs.length ∧ ∀ d ∈ ds, d < 10 := by
  induction cs generalizing ds with
  | nil =>
    obtain rfl := Option.some.inj h
    exact ⟨rfl, List.forall_mem_nil _⟩
  | cons c cs ih =>
    rw [List.mapM_cons] at h
    obtain ⟨d, hd, h⟩ := Option.bind_eq_some_iff.1 h
    obtain ⟨ds, hds, h⟩ := Option.bind_eq_some_iff.1 h
    obtain rfl := Option.some.inj h
    obtain ⟨hlength, hall⟩ := ih hds
    exact ⟨by simp [hlength], List.forall_mem_cons.2 ⟨decimalValue?_lt hd, hall⟩⟩

/-- A number that is read can be written. -/
theorem isWritable_digitsNumber {cs : List Char} {n : Nat} (hne : cs ≠ [])
    (h : digitsNumber cs = .ok n) : Number.isWritable n := by
  unfold digitsNumber at h
  split at h
  · next ds hds =>
    obtain ⟨hlength, hall⟩ := Text.decimals_of_mapM hds
    split at h
    · cases h
    · next hlimit =>
      obtain rfl := Except.ok.inj h
      have hlt := Number.foldl_digits_lt hall 0
      rw [Nat.zero_add, Nat.one_mul] at hlt
      have hpos : 0 < ds.length := hlength ▸ List.length_pos_iff.2 hne
      exact Number.isWritable_of_lt hlt hpos (Nat.le_of_not_lt hlimit)
  · cases h

end BulletScript

namespace BulletScript.Json

/-- The characters of comparison marks. -/
def isMarkChar (c : Char) : Bool := c == '=' || c == '!' || c == '<' || c == '>'

/-- Something was read off a text, and the last character of it belongs to no comparison. -/
def Consumed (cs rest : List Char) : Prop := ∃ c, isMarkChar c = false ∧ (c :: rest) <:+ cs

section Leaves

variable {cs rest more : List Char}

theorem Consumed.of_suffix (h : Consumed cs rest) (hcs : cs <:+ more) : Consumed more rest := by
  obtain ⟨c, hc, hsuffix⟩ := h
  exact ⟨c, hc, hsuffix.trans hcs⟩

theorem Consumed.cons {c : Char} (hc : isMarkChar c = false) : Consumed (c :: rest) rest :=
  ⟨c, hc, List.suffix_refl _⟩

theorem Consumed.suffix (h : Consumed cs rest) : rest <:+ cs := by
  obtain ⟨c, -, hsuffix⟩ := h
  exact (List.suffix_cons c rest).trans hsuffix

theorem Consumed.trans (h : Consumed cs rest) (hrest : Consumed rest more) : Consumed cs more :=
  hrest.of_suffix h.suffix

theorem skipSpace_suffix (cs : List Char) : skipSpace cs <:+ cs := List.dropWhile_suffix _

theorem Consumed.of_skipSpace (h : Consumed cs rest) : skipSpace rest <:+ cs :=
  (skipSpace_suffix rest).trans h.suffix

theorem readUnit_suffix {n : Nat} (h : readUnit cs = .ok (n, rest)) : rest <:+ cs := by
  unfold readUnit at h
  split at h
  · next a b c d left =>
    dsimp only at h
    split at h
    · cases h
      exact ⟨[a, b, c, d], rfl⟩
    · cases h
  · cases h

theorem joinUnits_suffix {n : Nat} {c : Char} (h : joinUnits n cs = .ok (c, rest)) :
    rest <:+ cs := by
  unfold joinUnits at h
  split at h
  · split at h
    · next left =>
      cases hunit : readUnit left with
      | error misread => simp [hunit, bind, Except.bind] at h
      | ok found =>
        obtain ⟨m, after⟩ := found
        simp only [hunit, bind, Except.bind, pure, Except.pure] at h
        split at h
        all_goals simp only [Except.ok.injEq, Prod.mk.injEq] at h
        · exact h.2 ▸ (readUnit_suffix hunit).trans ⟨['\\', 'u'], rfl⟩
        · exact h.2 ▸ List.suffix_refl _
    · simp only [pure, Except.pure, Except.ok.injEq, Prod.mk.injEq] at h
      exact h.2 ▸ List.suffix_refl _
  · split at h
    all_goals
      simp only [pure, Except.pure, Except.ok.injEq, Prod.mk.injEq] at h
      exact h.2 ▸ List.suffix_refl _

/-- A string ends with its quote. -/
theorem readString_suffix {start fuel : Nat} {read : List Char} {s : String}
    (h : readString start fuel read cs = .ok (s, rest)) : ('"' :: rest) <:+ cs := by
  induction fuel generalizing read cs with
  | zero => cases h
  | succ fuel ih =>
    unfold readString at h
    split at h
    · cases h
      exact List.suffix_refl _
    · next left =>
      cases hunit : readUnit left with
      | error misread => simp [hunit, bind, Except.bind] at h
      | ok found =>
        obtain ⟨n, after⟩ := found
        cases hjoin : joinUnits n after with
        | error misread => simp [hunit, hjoin, bind, Except.bind] at h
        | ok found =>
          obtain ⟨c, behind⟩ := found
          simp only [hunit, hjoin, bind, Except.bind] at h
          have hleft := (joinUnits_suffix hjoin).trans (readUnit_suffix hunit)
          exact ((ih h).trans hleft).trans ⟨['\\', 'u'], rfl⟩
    · next c left _ =>
      split at h
      · exact (ih h).trans ⟨['\\', c], rfl⟩
      · cases h
    · cases h
    · cases h
    · next c left _ _ _ _ =>
      split at h
      · cases h
      · exact (ih h).trans (List.suffix_cons c left)

theorem readQuoted_consumed {s : String} (h : readQuoted cs = .ok (s, rest)) :
    Consumed cs rest :=
  ⟨'"', by decide, (readString_suffix h).trans (List.drop_suffix 1 cs)⟩

theorem not_isMarkChar_of_isDigit {c : Char} (h : c.isDigit) : isMarkChar c = false := by
  have hne {d : Char} (hd : d.isDigit = false) : (c == d) = false :=
    beq_eq_false_iff_ne.2 fun heq => by rw [heq, hd] at h; cases h
  simp [isMarkChar, hne (d := '=') (by decide), hne (d := '!') (by decide),
    hne (d := '<') (by decide), hne (d := '>') (by decide)]

/-- Digits in front of a text are read off it. -/
theorem consumed_digits {digits : List Char} (hne : digits ≠ []) (h : ∀ c ∈ digits, c.isDigit)
    (rest : List Char) : Consumed (digits ++ rest) rest := by
  obtain ⟨init, c, rfl⟩ := (List.eq_nil_or_concat digits).resolve_left hne
  refine ⟨c, not_isMarkChar_of_isDigit (h c (by simp)), init, by simp⟩

theorem spanDigits_spec {digits : List Char} (h : Number.spanDigits cs = (digits, rest)) :
    cs = digits ++ rest ∧ ∀ c ∈ digits, c.isDigit := by
  rw [Number.spanDigits, List.span_eq_takeWhile_dropWhile] at h
  cases h
  exact ⟨List.takeWhile_append_dropWhile.symm,
    List.all_eq_true.1 (List.all_takeWhile (p := Char.isDigit))⟩

/-- An exponent is read off a text or the text is left as it is. -/
theorem readExponent_consumed {exponent : Int} (h : Number.readExponent cs = (exponent, rest)) :
    rest = cs ∨ Consumed cs rest := by
  unfold Number.readExponent at h
  split at h
  · next e left =>
    split at h
    · obtain ⟨front, hsign⟩ : ∃ front, left = front ++ (Number.cutSign left).2 := by
        unfold Number.cutSign
        split
        · exact ⟨['-'], rfl⟩
        · exact ⟨['+'], rfl⟩
        · exact ⟨[], rfl⟩
      generalize Number.cutSign left = cut at h hsign
      obtain ⟨negative, signed⟩ := cut
      cases hspan : Number.spanDigits signed with
      | mk digits after =>
        obtain ⟨hdigits, hall⟩ := spanDigits_spec hspan
        simp only [hspan] at h
        split at h
        · simp only [Prod.mk.injEq] at h
          exact .inl h.2.symm
        · next hne =>
          simp only [Prod.mk.injEq] at h
          refine .inr (h.2 ▸ (consumed_digits hne hall after).of_suffix ?_)
          rw [hsign, hdigits]
          exact ⟨e :: front, rfl⟩
    · simp only [Prod.mk.injEq] at h
      exact .inl h.2.symm
  · simp only [Prod.mk.injEq] at h
    exact .inl h.2.symm

/-- The sign of a number, and what follows it. -/
def cutMinus (cs : List Char) : Bool × List Char :=
  match cs with
  | '-' :: rest => (true, rest)
  | _ => (false, cs)

/-- The digits before a point; a zero in front is the only one. -/
def cutWhole (cs : List Char) : List Char × List Char :=
  let (digits, rest) := Number.spanDigits cs
  match digits with
  | '0' :: more => (['0'], more ++ rest)
  | _ => (digits, rest)

/-- The digits behind a point, of which there is at least one. -/
def cutFraction (cs : List Char) : List Char × List Char :=
  match cs with
  | '.' :: more => match Number.spanDigits more with
    | ([], _) => ([], cs)
    | found => found
  | _ => ([], cs)

theorem readNumber_eq (start : List Char) : readNumber start =
    if (cutWhole (cutMinus start).2).1 = [] then misread .noValue start
    else
      let (digits, rest) := cutWhole (cutMinus start).2
      let (fraction, afterFraction) := cutFraction rest
      let (exponent, after) := Number.readExponent afterFraction
      if fraction = [] ∧ after.length = rest.length then
        if Number.digitLimit < digits.length then .error (.tooManyDigits digits.length)
        else
          let n := (Number.decimalNumber digits : Int)
          .ok (.int (if (cutMinus start).1 then -n else n), rest)
      else
        .ok (.float (Number.ofDecimal (cutMinus start).1 (Number.decimalNumber (digits ++ fraction))
          (exponent - fraction.length)), after) := rfl

theorem cutMinus_suffix (cs : List Char) : (cutMinus cs).2 <:+ cs := by
  unfold cutMinus
  split
  · exact List.suffix_cons _ _
  · exact List.suffix_refl _

theorem cutWhole_spec {digits : List Char} (h : cutWhole cs = (digits, rest)) :
    cs = digits ++ rest ∧ ∀ c ∈ digits, c.isDigit := by
  unfold cutWhole at h
  cases hspan : Number.spanDigits cs with
  | mk spanned behind =>
    obtain ⟨hspanned, hall⟩ := spanDigits_spec hspan
    rw [hspan] at h
    dsimp only at h
    split at h
    · next more =>
      cases h
      exact ⟨hspanned, fun c hc => hall c (by simp_all)⟩
    · cases h
      exact ⟨hspanned, hall⟩

theorem cutFraction_consumed {fraction : List Char} (h : cutFraction cs = (fraction, rest)) :
    rest = cs ∨ Consumed cs rest := by
  unfold cutFraction at h
  split at h
  · next more =>
    cases hspan : Number.spanDigits more with
    | mk spanned behind =>
      obtain ⟨hspanned, hall⟩ := spanDigits_spec hspan
      rw [hspan] at h
      cases spanned with
      | nil =>
        cases h
        exact .inl rfl
      | cons c spanned =>
        cases h
        rw [hspanned]
        have hread := consumed_digits (List.cons_ne_nil _ _) hall rest
        exact .inr (hread.of_suffix (List.suffix_cons _ _))
  · cases h
    exact .inl rfl

theorem readNumber_consumed {v : Value} (h : readNumber cs = .ok (v, rest)) :
    Consumed cs rest ∧ v.isWritable := by
  rw [readNumber_eq] at h
  split at h
  · cases h
  next hne =>
  cases hwhole : cutWhole (cutMinus cs).2 with
  | mk digits behind =>
    obtain ⟨hdigits, hall⟩ := cutWhole_spec hwhole
    rw [hwhole] at hne h
    have hbehind : Consumed cs behind :=
      (hdigits ▸ consumed_digits hne hall behind).of_suffix (cutMinus_suffix cs)
    cases hfraction : cutFraction behind with
    | mk fraction afterFraction =>
      cases hexponent : Number.readExponent afterFraction with
      | mk exponent after =>
        have hafterFraction : Consumed cs afterFraction :=
          (cutFraction_consumed hfraction).elim (· ▸ hbehind) hbehind.trans
        have hafter : Consumed cs after :=
          (readExponent_consumed hexponent).elim (· ▸ hafterFraction) hafterFraction.trans
        simp only [hfraction, hexponent] at h
        split at h
        · split at h
          · cases h
          · next hfew =>
            simp only [Except.ok.injEq, Prod.mk.injEq] at h
            obtain ⟨rfl, rfl⟩ := h
            exact ⟨hbehind, Number.isWritable_decimalNumber hall hne (Nat.le_of_not_lt hfew) _⟩
        · simp only [Except.ok.injEq, Prod.mk.injEq] at h
          obtain ⟨rfl, rfl⟩ := h
          exact ⟨hafter, rfl⟩

theorem readWord?_consumed {v : Value} (h : readWord? cs = some (v, rest)) :
    Consumed cs rest ∧ v.isWritable := by
  unfold readWord? at h
  obtain ⟨⟨word, w⟩, hfound, heq⟩ := Option.map_eq_some_iff.1 h
  have hstart : word.isPrefixOf cs :=
    List.find?_some (p := fun entry : List Char × Value => entry.1.isPrefixOf cs) hfound
  obtain ⟨behind, rfl⟩ := List.isPrefixOf_iff_prefix.1 hstart
  simp only [List.drop_left, Prod.mk.injEq] at heq
  obtain ⟨rfl, rfl⟩ := heq
  have hends : ∀ entry ∈ words, (∃ c ∈ entry.1.getLast?, isMarkChar c = false) ∧
      entry.2.isWritable := by
    simp [words, isMarkChar, Value.isWritable]
  obtain ⟨⟨c, hlast, hc⟩, hwritable⟩ := hends _ (List.mem_of_find?_eq_some hfound)
  obtain ⟨init, rfl⟩ := List.getLast?_eq_some_iff.1 hlast
  exact ⟨⟨c, hc, init, by simp⟩, hwritable⟩

end Leaves

theorem areWritable_eq_all (items : List Value) :
    Value.areWritable items = items.all Value.isWritable := by
  induction items with
  | nil => rfl
  | cons item items ih => rw [Value.areWritable, List.all_cons, ih]

theorem entriesWritable_set {entries : Record} {v : Value}
    (hentries : Value.entriesWritable entries) (hv : v.isWritable) (key : String) :
    Value.entriesWritable (entries.set (.str key) v) := by
  induction entries with
  | nil => simp [Record.set, Value.entriesWritable, Key.isWritable, hv]
  | cons entry entries ih =>
    obtain ⟨k, old⟩ := entry
    simp only [Value.entriesWritable, Bool.and_eq_true] at hentries
    obtain ⟨⟨hk, hold⟩, hrest⟩ := hentries
    rw [Record.set]
    split
    · simp [Value.entriesWritable, hk, hv, hrest]
    · simp [Value.entriesWritable, hk, hold, ih hrest]

mutual

/-- Every value that is read takes something off the text and can be written. -/
theorem readValue_consumed (fuel : Nat) {cs rest : List Char} {v : Value}
    (h : readValue fuel cs = .ok (v, rest)) : Consumed cs rest ∧ v.isWritable := by
  cases fuel with
  | zero => cases h
  | succ fuel =>
    unfold readValue at h
    split at h
    · next left =>
      cases hquoted : readQuoted ('"' :: left) with
      | error misread => simp [hquoted, Except.map] at h
      | ok found =>
        obtain ⟨s, behind⟩ := found
        simp only [hquoted, Except.map, Except.ok.injEq, Prod.mk.injEq] at h
        obtain ⟨rfl, rfl⟩ := h
        exact ⟨readQuoted_consumed hquoted, rfl⟩
    · next left =>
      have hleft : skipSpace left <:+ '[' :: left :=
        (skipSpace_suffix left).trans (List.suffix_cons _ _)
      split at h
      · next behind hbehind =>
        cases h
        rw [hbehind] at hleft
        exact ⟨(Consumed.cons (by decide)).of_suffix hleft, rfl⟩
      · obtain ⟨hconsumed, hv⟩ := readItems_consumed fuel rfl h
        exact ⟨hconsumed.of_suffix hleft, hv⟩
    · next left =>
      have hleft : skipSpace left <:+ '\x7b' :: left :=
        (skipSpace_suffix left).trans (List.suffix_cons _ _)
      split at h
      · next behind hbehind =>
        cases h
        rw [hbehind] at hleft
        exact ⟨(Consumed.cons (by decide)).of_suffix hleft, rfl⟩
      · obtain ⟨hconsumed, hv⟩ := readEntries_consumed fuel rfl h
        exact ⟨hconsumed.of_suffix hleft, hv⟩
    · split at h
      · next found hword =>
        cases h
        exact readWord?_consumed hword
      · exact readNumber_consumed h

theorem readItems_consumed (fuel : Nat) {cs rest : List Char} {v : Value} {items : List Value}
    (hitems : items.all Value.isWritable) (h : readItems fuel items cs = .ok (v, rest)) :
    Consumed cs rest ∧ v.isWritable := by
  cases fuel with
  | zero => cases h
  | succ fuel =>
    unfold readItems at h
    cases hvalue : readValue fuel cs with
    | error misread => simp [hvalue, bind, Except.bind] at h
    | ok found =>
      obtain ⟨item, behind⟩ := found
      obtain ⟨hitem, hwritable⟩ := readValue_consumed fuel hvalue
      have hmore : (item :: items).all Value.isWritable := by simp [hwritable, hitems]
      simp only [hvalue, bind, Except.bind] at h
      have hbehind := hitem.of_skipSpace
      split at h
      · next left hleft =>
        rw [hleft] at hbehind
        obtain ⟨hconsumed, hv⟩ := readItems_consumed fuel hmore h
        refine ⟨(hconsumed.of_suffix (skipSpace_suffix left)).of_suffix ?_, hv⟩
        exact (List.suffix_cons _ _).trans hbehind
      · next left hleft =>
        rw [hleft] at hbehind
        cases h
        refine ⟨(Consumed.cons (by decide)).of_suffix hbehind, ?_⟩
        rw [Value.isWritable, areWritable_eq_all, List.all_reverse]
        exact hmore
      · cases h

theorem readEntries_consumed (fuel : Nat) {cs rest : List Char} {v : Value} {entries : Record}
    (hentries : Value.entriesWritable entries) (h : readEntries fuel entries cs = .ok (v, rest)) :
    Consumed cs rest ∧ v.isWritable := by
  cases fuel with
  | zero => cases h
  | succ fuel =>
    unfold readEntries at h
    split at h
    · next name =>
      cases hquoted : readQuoted ('"' :: name) with
      | error misread => simp [hquoted, bind, Except.bind] at h
      | ok found =>
        obtain ⟨key, behindKey⟩ := found
        have hkey := (readQuoted_consumed hquoted).of_skipSpace
        simp only [hquoted, bind, Except.bind] at h
        split at h
        · next colon hcolon =>
          rw [hcolon] at hkey
          have hcolon := (skipSpace_suffix colon).trans ((List.suffix_cons _ _).trans hkey)
          cases hvalue : readValue fuel (skipSpace colon) with
          | error misread => simp [hvalue] at h
          | ok found =>
            obtain ⟨item, behind⟩ := found
            obtain ⟨hitem, hwritable⟩ := readValue_consumed fuel hvalue
            have hmore := entriesWritable_set hentries hwritable key
            simp only [hvalue] at h
            have hbehind := (hitem.of_skipSpace).trans hcolon
            split at h
            · next left hleft =>
              rw [hleft] at hbehind
              obtain ⟨hconsumed, hv⟩ := readEntries_consumed fuel hmore h
              refine ⟨(hconsumed.of_suffix (skipSpace_suffix left)).of_suffix ?_, hv⟩
              exact (List.suffix_cons _ _).trans hbehind
            · next left hleft =>
              rw [hleft] at hbehind
              cases h
              exact ⟨(Consumed.cons (by decide)).of_suffix hbehind, hmore⟩
            · cases h
        · cases h
    · cases h

end

/-- JSON text does not end with the mark of a comparison, and its value can be written. -/
theorem readChars_consumed {cs : List Char} {v : Value} (h : readChars cs = .ok v) :
    v.isWritable ∧ ∀ c ∈ cs.getLast?, isMarkChar c = false := by
  unfold readChars at h
  split at h
  · cases h
  · cases hvalue : readValue (2 * cs.length + 2) (skipSpace cs) with
    | error misread => simp [hvalue, bind, Except.bind] at h
    | ok found =>
      obtain ⟨w, rest⟩ := found
      obtain ⟨⟨c, hc, hread⟩, hwritable⟩ := readValue_consumed _ hvalue
      simp only [hvalue, bind, Except.bind] at h
      split at h
      · next hblank =>
        cases h
        refine ⟨hwritable, fun d hd => ?_⟩
        obtain ⟨front, rfl⟩ := hread.trans (skipSpace_suffix cs)
        have hspaces : ∀ e ∈ rest, isSpace e := List.dropWhile_eq_nil_iff.1 hblank
        have hmem : d ∈ c :: rest := List.mem_of_getLast? (by simpa using hd)
        rcases List.mem_cons.1 hmem with rfl | hmem
        · exact hc
        · have hspace := hspaces d hmem
          simp only [isSpace, Bool.or_eq_true, beq_iff_eq] at hspace
          rcases hspace with ((rfl | rfl) | rfl) | rfl <;> decide
      · cases h

end BulletScript.Json
