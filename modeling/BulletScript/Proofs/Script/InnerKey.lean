import Mathlib.Data.List.Infix
import BulletScript.Proofs.Script.Head

/-! Keys inside a text, where a bare value is cut: before the first that is known. Each key that is
passed takes the blanks behind it, and so of unknown keys in a row every other one takes them from what
stands behind the text. -/
namespace BulletScript.Script

open Text Outline Written

variable {known : Option (List String)} {cs tail front word rest : List Char}

section Keys

/-- A key inside a text, with the blanks before it and those before its colon. -/
structure InnerKey where
  blanks : List Char
  key : String
  gap : List Char
  blanks_blank : ∀ c ∈ blanks, isBlank c
  blanks_ne_nil : blanks ≠ []
  isKey : isKey key = true
  gap_blank : ∀ c ∈ gap, isBlank c

def InnerKey.text (k : InnerKey) : List Char := k.blanks ++ (k.key.toList ++ (k.gap ++ [':']))

/-- A known key stands in a text, with a blank or the end behind its colon. -/
def HoldsKey (known : Option (List String)) (cs : List Char) : Prop :=
  ∃ (k : InnerKey) (front back : List Char), cs = front ++ k.text ++ back ∧
    (∀ c ∈ back.head?, isBlank c) ∧ isKnown known k.key.toList = true

/-- Some key stands at the end of a text. -/
def EndsInKey (cs : List Char) : Prop := ∃ (k : InnerKey) (front : List Char), cs = front ++ k.text

/-- So many keys stand at the end of a text, each behind the other. -/
inductive EndsInKeys : Nat → List Char → Prop
  | none {cs : List Char} : ¬ EndsInKey cs → EndsInKeys 0 cs
  | next {n : Nat} {front : List Char} (k : InnerKey) : EndsInKeys n front →
      (∀ c ∈ front.getLast?, isBlank c = false) → EndsInKeys (n + 1) (front ++ k.text)

theorem exists_of_cutKey? (h : cutKey? cs = some (word, rest)) :
    ∃ gap, cs = word ++ (gap ++ ':' :: rest) ∧ isKey (.ofList word) = true ∧
      ∀ c ∈ gap, isBlank c := by
  cases cs with
  | nil => cases h
  | cons c cs =>
    rw [cutKey?] at h
    split at h
    · next hc =>
      split at h
      · next hcolon =>
        cases h
        refine ⟨(cs.dropWhile isKeyChar).takeWhile isBlank, ?_, ?_, ?_⟩
        · rw [← hcolon, List.takeWhile_append_dropWhile, List.cons_append,
            List.takeWhile_append_dropWhile]
        · simp [isKey, hc, List.all_takeWhile]
        · exact List.all_eq_true.1 List.all_takeWhile
      · cases h
    · cases h

theorem cutInnerKey?_text (k : InnerKey) {back : List Char} (hback : ∀ c ∈ back.head?, isBlank c) :
    cutInnerKey? (k.text ++ back) = some (k.key.toList, back.dropWhile isBlank) := by
  obtain ⟨b, bs, hblanks⟩ := List.exists_cons_of_ne_nil k.blanks_ne_nil
  obtain ⟨c, cs, hkey, hc, -⟩ := exists_of_isKey k.isKey
  have hb : isBlank b = true := k.blanks_blank b (by simp [hblanks])
  have hkeyBlank := isBlank_of_isKeyChar (isKeyChar_of_startsKey hc)
  have htext : k.text ++ back = k.blanks ++ (k.key.toList ++ (k.gap ++ ':' :: back)) := by
    simp [InnerKey.text]
  have hdrop : (k.text ++ back).dropWhile isBlank = k.key.toList ++ (k.gap ++ ':' :: back) := by
    rw [htext, hkey, List.cons_append, dropWhile_append_cons k.blanks_blank hkeyBlank]
  have hhead : (k.text ++ back).head? = some b := by rw [htext, hblanks]; rfl
  have hnext : back.head?.all isBlank = true := by
    cases hback' : back.head? with
    | none => rfl
    | some d => exact hback d hback'
  rw [cutInnerKey?, hhead, hdrop, cutKey?_gap k.isKey k.gap_blank]
  simp [hb, hnext]

theorem exists_of_cutInnerKey? (h : cutInnerKey? cs = some (word, rest)) :
    ∃ (k : InnerKey) (back : List Char), k.key.toList = word ∧ cs = k.text ++ back ∧
      (∀ c ∈ back.head?, isBlank c) ∧ rest = back.dropWhile isBlank := by
  rw [cutInnerKey?] at h
  split at h
  · cases h
  · next hhead =>
    split at h
    · next found back hcut =>
      split at h
      · next hback =>
        cases h
        obtain ⟨gap, heq, hkey, hgap⟩ := exists_of_cutKey? hcut
        have hne : cs.takeWhile isBlank ≠ [] := by
          cases cs with
          | nil => simp at hhead
          | cons c cs => simpa using hhead
        refine ⟨⟨cs.takeWhile isBlank, .ofList word, gap, List.all_eq_true.1 List.all_takeWhile,
          hne, hkey, hgap⟩, back, String.toList_ofList, ?_, fun c hc => ?_, rfl⟩
        · rw [InnerKey.text, String.toList_ofList, List.append_assoc, List.append_assoc,
            List.append_assoc, List.singleton_append, ← heq, List.takeWhile_append_dropWhile]
        · rw [hc] at hback
          exact hback
      · cases h
    · cases h

theorem holdsKey_iff : HoldsKey known cs ↔
    ∃ suffix ∈ cs.tails, (cutInnerKey? suffix).any (fun found => isKnown known found.1) = true := by
  constructor
  · rintro ⟨k, front, back, rfl, hback, hknown⟩
    refine ⟨k.text ++ back, (List.mem_tails _ _).2 ⟨front, by simp⟩, ?_⟩
    rw [cutInnerKey?_text k hback]
    exact hknown
  · rintro ⟨suffix, hsuffix, hfound⟩
    obtain ⟨front, rfl⟩ := (List.mem_tails _ _).1 hsuffix
    cases hcut : cutInnerKey? suffix with
    | none =>
      rw [hcut] at hfound
      cases hfound
    | some found =>
      obtain ⟨k, back, hk, rfl, hback, -⟩ := exists_of_cutInnerKey? hcut
      rw [hcut] at hfound
      exact ⟨k, front, back, by simp, hback, hk ▸ hfound⟩

instance : Decidable (HoldsKey known cs) := decidable_of_iff _ holdsKey_iff.symm

theorem HoldsKey.append_left (h : HoldsKey known cs) (xs : List Char) :
    HoldsKey known (xs ++ cs) := by
  obtain ⟨k, front, back, rfl, hback, hknown⟩ := h
  exact ⟨k, xs ++ front, back, by simp, hback, hknown⟩

theorem HoldsKey.append_right (h : HoldsKey known cs) {xs : List Char}
    (hxs : ∀ c ∈ xs.head?, isBlank c) : HoldsKey known (cs ++ xs) := by
  obtain ⟨k, front, back, rfl, hback, hknown⟩ := h
  refine ⟨k, front, back ++ xs, by simp, fun c hc => ?_, hknown⟩
  cases back with
  | nil => exact hxs c hc
  | cons b back => exact hback c hc

theorem EndsInKey.append_left (h : EndsInKey cs) (xs : List Char) : EndsInKey (xs ++ cs) := by
  obtain ⟨k, front, rfl⟩ := h
  exact ⟨k, xs ++ front, by simp⟩

end Keys

section Cutting

/-- What can stand behind a bare value: a blank, and behind the blanks no colon. -/
structure Behind (tail : List Char) : Prop where
  blank : ∃ b bs, tail = b :: bs ∧ isBlank b = true
  noColon : (tail.dropWhile isBlank).head? ≠ some ':'

theorem Behind.head_blank (h : Behind tail) : ∀ c ∈ tail.head?, isBlank c := by
  obtain ⟨b, bs, rfl, hb⟩ := h.blank
  rintro _ ⟨⟩
  exact hb

/-- Whether a text starts with a key does not depend on what stands behind it. -/
theorem cutKey?_append_behind (hlast : ∀ c ∈ cs.getLast?, isBlank c = false) (htail : Behind tail) :
    cutKey? (cs ++ tail) = (cutKey? cs).map fun (key, rest) => (key, rest ++ tail) := by
  obtain ⟨b, bs, rfl, hb⟩ := htail.blank
  have hbkey : isKeyChar b = false := by
    by_contra h
    rw [isBlank_of_isKeyChar (Bool.not_eq_false _ ▸ h)] at hb
    cases hb
  cases cs with
  | nil =>
    have hstart : startsKey b = false := by
      by_contra h
      rw [isKeyChar_of_startsKey (Bool.not_eq_false _ ▸ h)] at hbkey
      cases hbkey
    simp [cutKey?, hstart]
  | cons c cs =>
    rw [List.cons_append, cutKey?, cutKey?]
    by_cases hc : startsKey c
    · rw [if_pos hc, if_pos hc]
      by_cases hword : cs.dropWhile isKeyChar = []
      · have hall := List.dropWhile_eq_nil_iff.1 hword
        have hnone : (cs ++ b :: bs).dropWhile isKeyChar = b :: bs :=
          dropWhile_append_cons hall hbkey
        rw [hnone, hword]
        split
        · next rest hrest => exact absurd (congrArg List.head? hrest) htail.noColon
        · rfl
      · have hcs : cs = cs.takeWhile isKeyChar ++ cs.dropWhile isKeyChar :=
          List.takeWhile_append_dropWhile.symm
        have hlast' : ∀ d ∈ (cs.dropWhile isKeyChar).getLast?, isBlank d = false := by
          intro d hd
          refine hlast d ?_
          rw [hcs, ← List.cons_append, List.getLast?_append, Option.mem_def.1 hd]
          rfl
        obtain ⟨hdrop, hne, -⟩ := dropWhile_isBlank_append hword hlast' (b :: bs)
        have htake : (cs ++ b :: bs).takeWhile isKeyChar = cs.takeWhile isKeyChar := by
          rw [List.takeWhile_append, if_neg]
          intro hlength
          have := congrArg List.length hcs
          rw [List.length_append, hlength] at this
          exact hword (List.length_eq_zero_iff.1 (by omega))
        rw [List.dropWhile_append, if_neg (by simpa using hword), hdrop, htake]
        obtain ⟨d, ds, hds⟩ := List.exists_cons_of_ne_nil hne
        rw [hds]
        by_cases hd : d = ':'
        · subst hd
          rfl
        · simp [hd]
    · rw [if_neg hc, if_neg hc]
      rfl

/-- Nor does it matter to a key behind blanks, except that it takes the blanks behind it. -/
theorem cutInnerKey?_append_behind (hne : cs ≠ []) (hlast : ∀ c ∈ cs.getLast?, isBlank c = false)
    (htail : Behind tail) :
    cutInnerKey? (cs ++ tail) = (cutInnerKey? cs).map fun (key, rest) =>
      (key, if rest = [] then tail.dropWhile isBlank else rest ++ tail) := by
  obtain ⟨hdrop, -, hlast'⟩ := dropWhile_isBlank_append hne hlast tail
  obtain ⟨b, bs, htail', hb⟩ := htail.blank
  have hhead : (cs ++ tail).head? = cs.head? := by
    cases cs with
    | nil => exact absurd rfl hne
    | cons c cs => rfl
  rw [cutInnerKey?, cutInnerKey?, hhead, hdrop, cutKey?_append_behind (by rwa [hlast']) htail]
  split
  · rfl
  · cases hcut : cutKey? (cs.dropWhile isBlank) with
    | none => rfl
    | some found =>
      obtain ⟨key, rest⟩ := found
      dsimp only [Option.map_some]
      cases rest with
      | nil => simp [htail', hb]
      | cons d rest =>
        obtain ⟨gap, heq, -⟩ := exists_of_cutKey? hcut
        have hrest : ∀ c ∈ (d :: rest).getLast?, isBlank c = false := by
          intro c hc
          refine hlast c ?_
          rw [← hlast', heq, List.getLast?_append, List.getLast?_append, List.getLast?_cons,
            Option.mem_def.1 hc]
          rfl
        obtain ⟨hdrop, hne, -⟩ := dropWhile_isBlank_append (List.cons_ne_nil d rest) hrest tail
        rw [hdrop, List.cons_append, List.head?_cons, List.head?_cons]
        split
        · rw [Option.map_some, if_neg hne]
        · rfl

theorem cutAtKey_of_known (h : cutInnerKey? cs = some (word, rest))
    (hknown : isKnown known word = true) : cutAtKey known cs = ([], cs) := by
  fun_cases cutAtKey known cs with
  | case1 => rfl
  | case2 => rfl
  | case3 c cs found after hfound hunknown before tail hcut =>
    cases h.symm.trans hfound
    exact absurd hknown hunknown
  | case4 c cs hnone => cases h.symm.trans hnone

/-- A key that is no option is passed over with the blanks behind it. -/
theorem cutAtKey_of_unknown (h : cutInnerKey? (front ++ rest) = some (word, rest))
    (hknown : isKnown known word = false) :
    cutAtKey known (front ++ rest) =
      (front ++ (cutAtKey known rest).1, (cutAtKey known rest).2) := by
  generalize hcs : front ++ rest = cs at h
  fun_cases cutAtKey known cs with
  | case1 => cases h
  | case2 c cs found after hfound hfoundKnown =>
    cases h.symm.trans hfound
    rw [hfoundKnown] at hknown
    cases hknown
  | case3 c cs found after hfound hunknown before tail hcut =>
    cases h.symm.trans hfound
    have hlength : cs.length + 1 - rest.length = front.length := by
      have := congrArg List.length hcs
      simp only [List.length_append, List.length_cons] at this
      omega
    rw [hcut, hlength, ← hcs, List.take_left]
  | case4 c cs hnone => cases h.symm.trans hnone

theorem cutAtKey_cons {c : Char} (h : cutInnerKey? (c :: cs) = none) :
    cutAtKey known (c :: cs) = (c :: (cutAtKey known cs).1, (cutAtKey known cs).2) := by
  generalize hds : c :: cs = ds at h
  fun_cases cutAtKey known ds with
  | case1 => cases hds
  | case2 d ds found after hfound => cases h.symm.trans hfound
  | case3 d ds found after hfound => cases h.symm.trans hfound
  | case4 d ds hnone before tail hcut =>
    cases hds
    rw [hcut]

/-- What is left behind a key and the blanks behind it, which the key takes. -/
theorem exists_front_of_cutInnerKey? (h : cutInnerKey? cs = some (word, rest)) :
    ∃ (k : InnerKey) (blanks : List Char), k.key.toList = word ∧ cs = k.text ++ blanks ++ rest ∧
      (∀ c ∈ blanks, isBlank c) ∧ cs.take (cs.length - rest.length) = k.text ++ blanks := by
  obtain ⟨k, back, hkey, rfl, -, rfl⟩ := exists_of_cutInnerKey? h
  have hsplit : k.text ++ back = k.text ++ back.takeWhile isBlank ++ back.dropWhile isBlank := by
    rw [List.append_assoc, List.takeWhile_append_dropWhile]
  refine ⟨k, back.takeWhile isBlank, hkey, hsplit, List.all_eq_true.1 List.all_takeWhile, ?_⟩
  generalize k.text ++ back = cs at hsplit
  rw [hsplit, List.length_append, Nat.add_sub_cancel, List.take_left]

/-- A text without a known key is cut nowhere. -/
theorem cutAtKey_of_not_holdsKey (h : ¬ HoldsKey known cs) : cutAtKey known cs = (cs, []) := by
  fun_induction cutAtKey known cs with
  | case1 => rfl
  | case2 c cs found after hfound hknown =>
    obtain ⟨k, back, rfl, heq, hback, -⟩ := exists_of_cutInnerKey? hfound
    exact absurd ⟨k, [], back, heq, hback, hknown⟩ h
  | case3 c cs found after hfound hunknown before tail hcut ih =>
    obtain ⟨k, blanks, -, heq, -, htake⟩ := exists_front_of_cutInnerKey? hfound
    have hrest := ih fun hholds => h (heq ▸ hholds.append_left _)
    cases hcut.symm.trans hrest
    rw [List.length_cons] at htake
    rw [htake, ← heq]
  | case4 c cs hnone before tail hcut ih =>
    have hrest := ih fun hholds => h (hholds.append_left [c])
    cases hcut.symm.trans hrest
    rfl

/-- A text that ends in no key, and in no blank, is passed over as it is. -/
theorem cutAtKey_append (hlast : ∀ c ∈ cs.getLast?, isBlank c = false)
    (hholds : ¬ HoldsKey known cs) (hends : ¬ EndsInKey cs) (htail : Behind tail) :
    cutAtKey known (cs ++ tail) = (cs ++ (cutAtKey known tail).1, (cutAtKey known tail).2) := by
  fun_induction cutAtKey known cs with
  | case1 => rfl
  | case2 c cs found after hfound hknown =>
    obtain ⟨k, back, rfl, heq, hback, -⟩ := exists_of_cutInnerKey? hfound
    exact absurd ⟨k, [], back, heq, hback, hknown⟩ hholds
  | case3 c cs found after hfound hunknown before behind hcut ih =>
    obtain ⟨k, blanks, -, heq, hblanks, -⟩ := exists_front_of_cutInnerKey? hfound
    -- the key is not at the end, and so its blanks are not those behind the text
    have hne : after ≠ [] := by
      rintro rfl
      rw [List.append_nil] at heq
      cases hlastBlank : blanks.getLast? with
      | none => exact hends ⟨k, [], by rw [heq, List.getLast?_eq_none_iff.1 hlastBlank]; simp⟩
      | some b =>
        have hb := hlast b (by rw [heq, List.getLast?_append, hlastBlank]; rfl)
        simp [hblanks b (List.mem_of_getLast? hlastBlank)] at hb
    have hlast' : ∀ c ∈ after.getLast?, isBlank c = false := by
      intro d hd
      refine hlast d ?_
      rw [heq, List.getLast?_append, Option.mem_def.1 hd]
      rfl
    have hfound' : cutInnerKey? (c :: cs ++ tail) = some (found, after ++ tail) := by
      rw [cutInnerKey?_append_behind (List.cons_ne_nil c cs) hlast htail, hfound]
      simp [hne]
    have hrest := ih hlast' (fun h => hholds (heq ▸ h.append_left _))
      fun h => hends (heq ▸ h.append_left _)
    rw [heq, List.append_assoc] at hfound' ⊢
    rw [cutAtKey_of_unknown hfound' (Bool.eq_false_iff.2 hunknown), hrest]
    simp
  | case4 c cs hnone before behind hcut ih =>
    have hlast' : ∀ d ∈ cs.getLast?, isBlank d = false := by
      intro d hd
      refine hlast d ?_
      rw [List.getLast?_cons, Option.mem_def.1 hd]
      rfl
    have hnone' : cutInnerKey? (c :: (cs ++ tail)) = none := by
      rw [← List.cons_append, cutInnerKey?_append_behind (List.cons_ne_nil c cs) hlast htail, hnone]
      rfl
    have hrest := ih hlast' (fun h => hholds (h.append_left [c])) fun h => hends (h.append_left [c])
    rw [List.cons_append, cutAtKey_cons hnone', hrest]
    rfl

/-- A key and the blanks in its name have no key in them. -/
theorem InnerKey.not_endsInKey (k : InnerKey) : ¬ EndsInKey (k.key.toList ++ (k.gap ++ [':'])) := by
  rintro ⟨k', front, heq⟩
  have hblank := isBlank_of_mem_key k.isKey
  obtain ⟨b, bs, hblanks⟩ := List.exists_cons_of_ne_nil k'.blanks_ne_nil
  obtain ⟨c, cs, hkey, hc, -⟩ := exists_of_isKey k'.isKey
  have hb : isBlank b = true := k'.blanks_blank b (by simp [hblanks])
  have hc' : isBlank c = false := isBlank_of_isKeyChar (isKeyChar_of_startsKey hc)
  have hinner : k.key.toList ++ k.gap = front ++ (k'.blanks ++ (k'.key.toList ++ k'.gap)) := by
    have h := congrArg List.dropLast heq
    simpa [InnerKey.text, ← List.append_assoc] using h
  -- behind the first blank there are only blanks, and no second key
  rcases List.append_eq_append_iff.1 hinner with ⟨more, -, hgap⟩ | ⟨more, hword, hmore⟩
  · have hmem : c ∈ k.gap := by rw [hgap]; simp [hkey]
    simp [k.gap_blank c hmem] at hc'
  · cases more with
    | nil =>
      have hmem : c ∈ k.gap := by rw [← List.nil_append k.gap, ← hmore]; simp [hkey]
      simp [k.gap_blank c hmem] at hc'
    | cons d more =>
      rw [hblanks, List.cons_append, List.cons_append, List.cons.injEq] at hmore
      have hd := hblank d (by rw [hword]; simp)
      simp [← hmore.1, hb] at hd

/-- Where the blanks before a key end. -/
theorem InnerKey.span_text (k : InnerKey) (tail : List Char) :
    (k.text ++ tail).takeWhile isBlank = k.blanks ∧
      (k.text ++ tail).dropWhile isBlank = k.key.toList ++ (k.gap ++ [':']) ++ tail := by
  obtain ⟨c, cs, hkey, hc, -⟩ := exists_of_isKey k.isKey
  have hstart := isBlank_of_isKeyChar (isKeyChar_of_startsKey hc)
  rw [InnerKey.text, hkey, List.append_assoc, List.append_assoc, List.cons_append,
    takeWhile_append_cons k.blanks_blank hstart, dropWhile_append_cons k.blanks_blank hstart]
  simp

theorem InnerKey.behind_text (k : InnerKey) (tail : List Char) : Behind (k.text ++ tail) := by
  obtain ⟨b, bs, hblanks⟩ := List.exists_cons_of_ne_nil k.blanks_ne_nil
  obtain ⟨c, cs, hkey, hc, -⟩ := exists_of_isKey k.isKey
  refine ⟨⟨b, _, by rw [InnerKey.text, hblanks]; rfl, k.blanks_blank b (by simp [hblanks])⟩, ?_⟩
  rw [(k.span_text tail).2, hkey]
  rintro ⟨⟩
  exact absurd hc (by decide)

theorem cutAtKey_text_append (k : InnerKey) (hknown : isKnown known k.key.toList = false)
    (htail : ∀ c ∈ tail.head?, isBlank c) :
    cutAtKey known (k.text ++ tail) =
      (k.text ++ (tail.takeWhile isBlank ++ (cutAtKey known (tail.dropWhile isBlank)).1),
        (cutAtKey known (tail.dropWhile isBlank)).2) := by
  have hfound := cutInnerKey?_text k htail
  have hsplit : k.text ++ tail = k.text ++ tail.takeWhile isBlank ++ tail.dropWhile isBlank := by
    rw [List.append_assoc, List.takeWhile_append_dropWhile]
  rw [hsplit] at hfound ⊢
  rw [cutAtKey_of_unknown hfound hknown, List.append_assoc]

/-- Each key at the end of a text takes the blanks behind it, from the next one if there is one. An
even number of them leaves what stands behind the text its blanks, an odd number takes them. -/
theorem cutAtKey_endsInKeys {n : Nat} (h : EndsInKeys n cs)
    (hlast : ∀ c ∈ cs.getLast?, isBlank c = false) (hholds : ¬ HoldsKey known cs) (htail : Behind tail) :
    cutAtKey known (cs ++ tail) =
      if n % 2 = 0 then (cs ++ (cutAtKey known tail).1, (cutAtKey known tail).2)
      else (cs ++ (tail.takeWhile isBlank ++ (cutAtKey known (tail.dropWhile isBlank)).1),
        (cutAtKey known (tail.dropWhile isBlank)).2) := by
  induction h generalizing tail with
  | none hends => exact cutAtKey_append hlast hholds hends htail
  | @next n front k hfront hlast' ih =>
    have hkeys : ∀ c ∈ k.text.head?, isBlank c := by
      simpa using (k.behind_text []).head_blank
    have hbefore : ¬ HoldsKey known front := fun h => hholds (h.append_right hkeys)
    have hunknown : isKnown known k.key.toList = false :=
      Bool.eq_false_iff.2 fun hknown => hholds ⟨k, front, [], by simp, by simp, hknown⟩
    rw [List.append_assoc, ih hlast' hbefore (k.behind_text tail)]
    by_cases hn : n % 2 = 0
    · rw [if_pos hn, if_neg (by omega), cutAtKey_text_append k hunknown htail.head_blank]
      simp
    · have hsuffix :
          front ++ k.text = (front ++ k.blanks) ++ (k.key.toList ++ (k.gap ++ [':'])) := by
        simp [InnerKey.text]
      obtain ⟨htake, hdrop⟩ := k.span_text tail
      have hnot : ¬ HoldsKey known (k.key.toList ++ (k.gap ++ [':'])) :=
        fun h => hholds (hsuffix ▸ h.append_left _)
      have hcolon : ∀ c ∈ (k.key.toList ++ (k.gap ++ [':'])).getLast?, isBlank c = false := by
        simp [List.getLast?_append, isBlank_colon]
      have hrest := cutAtKey_append hcolon hnot k.not_endsInKey htail
      rw [if_neg hn, if_pos (by omega), htake, hdrop, hrest, hsuffix]
      simp

theorem exists_endsInKeys (hlast : ∀ c ∈ cs.getLast?, isBlank c = false) :
    ∃ n, EndsInKeys n cs := by
  induction hlength : cs.length using Nat.strong_induction_on generalizing cs with
  | _ length ih =>
    by_cases hends : EndsInKey cs
    · obtain ⟨k, front, rfl⟩ := hends
      -- the blanks before the key are all taken to it
      obtain ⟨blanks, hfront, hblanks⟩ := exists_eq_trimRightChars_append front
      have hlast' : ∀ c ∈ (trimRightChars front).getLast?, isBlank c = false :=
        fun c hc => not_isBlank_of_getLast?_trimRightChars hc
      have hshorter : (trimRightChars front).length < length := by
        have hfrontLength := congrArg List.length hfront
        simp only [← hlength, InnerKey.text, List.length_append, List.length_singleton]
          at hfrontLength ⊢
        omega
      obtain ⟨n, hn⟩ := ih _ hshorter hlast' rfl
      have hall : ∀ c ∈ blanks ++ k.blanks, isBlank c :=
        List.forall_mem_append.2 ⟨hblanks, k.blanks_blank⟩
      have hne : blanks ++ k.blanks ≠ [] := by simp [k.blanks_ne_nil]
      have htext : front ++ k.text = trimRightChars front ++
          InnerKey.text ⟨blanks ++ k.blanks, k.key, k.gap, hall, hne, k.isKey, k.gap_blank⟩ := by
        conv => lhs; rw [hfront]
        simp [InnerKey.text]
      exact ⟨n + 1, htext ▸ .next _ hn hlast'⟩
    · exact ⟨0, .none hends⟩

end Cutting

end BulletScript.Script
