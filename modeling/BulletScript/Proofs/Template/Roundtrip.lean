import BulletScript.Proofs.Template.Capture
import BulletScript.Proofs.Value.Record

/-! Extraction undoes interpolation: the values that a pattern was filled with are found again in
the text. -/
namespace BulletScript.Template

variable {pattern lead : String} {slot : Slot} {slots : List Slot} {vars values : Record}

/-- The values of slots by their names. -/
def slotValues (slots : List Slot) : Record :=
  slots.map fun slot => (.str slot.token.name, slot.value)

/-- A token finds its value again in the text that was written for it. -/
theorem tokenValue_text (hslot : slot.Valid) :
    tokenValue slot.token slot.text = .ok (some slot.value) := by
  have htext := hslot.trimmed
  have hfits := hslot.fits
  unfold Slot.text at htext ⊢
  obtain ⟨inner, position, ⟨name, kind, raw⟩, value, behind⟩ := slot
  cases hfits with
  | simple _ => simp only [tokenValue]; rw [if_neg htext.1]; rfl
  | greedy _ => simp only [tokenValue]; rw [if_neg htext.1]; rfl
  | @list delimiter texts hne htexts hsplit =>
    have hitems : (texts.map Value.str).map Value.templateText = texts :=
      (List.map_map ..).trans (List.map_id _)
    have hlist : listItems delimiter (Text.join delimiter texts) = texts := by
      have htrim : texts.map Text.trim = texts :=
        (List.map_congr_left fun t ht => (htexts t ht).2).trans (List.map_id _)
      rw [listItems, hsplit, htrim]
      exact List.filter_eq_self.2 fun t ht => decide_eq_true (htexts t ht).1
    simp only [hitems] at htext
    simp only [tokenValue, hitems]
    rw [if_neg htext.1, hlist]

/-- Tokens with different names add their values in order. -/
theorem collect_texts (hvalid : ∀ slot ∈ slots, slot.Valid)
    (hnames : (slots.map (·.token.name)).Nodup)
    (hnew : ∀ entry ∈ values, ∀ slot ∈ slots, entry.1.same (.str slot.token.name) = false) :
    collect values (slots.map fun slot => (slot.token, slot.text)) =
      ⟨values ++ slotValues slots, none⟩ := by
  induction slots generalizing values with
  | nil => simp [collect, slotValues]
  | cons slot rest ih =>
    rw [List.map_cons, List.nodup_cons] at hnames
    rw [List.map_cons, collect, tokenValue_text (hvalid slot (List.mem_cons_self ..))]
    dsimp only
    rw [Record.set_of_not_mem fun entry he => hnew entry he slot (List.mem_cons_self ..),
      ih (fun s hs => hvalid s (List.mem_cons_of_mem _ hs)) hnames.2]
    · simp [slotValues]
    · intro entry hentry s hs
      rcases List.mem_append.1 hentry with hold | hadded
      · exact hnew entry hold s (List.mem_cons_of_mem _ hs)
      · rw [List.mem_singleton.1 hadded, Key.same_str, beq_eq_false_iff_ne]
        intro heq
        exact hnames.1 (heq ▸ List.mem_map_of_mem hs)

/-- A pattern of slots with different names, of which only the last may have no literal text behind
it, is filled with values that fit; the same pattern extracts these values, and no others, from the
text that was made. -/
theorem extract_interpolate (hsegments : segments pattern = .ok (patternSegments lead slots))
    (hslots : slots ≠ []) (hvalid : ∀ slot ∈ slots, slot.Valid)
    (hnames : (slots.map (·.token.name)).Nodup)
    (hapart : ∀ slot ∈ slots.dropLast, slot.behind ≠ "")
    (hvars : ∀ slot ∈ slots, vars.get? (.str slot.token.name) = some slot.value) :
    ∃ text, interpolate pattern vars = .ok text ∧
      extract text pattern = .ok ⟨slotValues slots, none⟩ := by
  refine ⟨lead ++ slotsText slots, ?_, ?_⟩
  · rw [interpolate, interpolateWith, hsegments]
    exact segmentsText_patternSegments hvalid hvars
  · have htokens : tokensOf (patternSegments lead slots) = _ := tokensOf_patternSegments hvalid
    have hne : slots.map (·.token) ≠ [] := mt List.map_eq_nil_iff.1 hslots
    have hregex := patternRegex_patternSegments lead hvalid
    obtain ⟨m, hmatch, hcaptured⟩ := fullMatch_pattern hvalid hapart hregex
    have hcollect : collect [] (slots.map fun slot => (slot.token, slot.text)) = _ :=
      collect_texts hvalid hnames nofun
    simp only [extract, hsegments, htokens, bind, Except.bind, pure, Except.pure]
    rw [if_neg hne, matchTokens, hregex]
    dsimp only
    rw [hmatch]
    dsimp only
    rw [hcaptured, hcollect, List.nil_append]

/-- A pattern with a token of each kind that can be filled. -/
def letterPattern : String :=
  "To \x7b\x7bname\x7d\x7d: \x7b\x7bitems+:, \x7d\x7d / \x7b\x7bnote*\x7d\x7d"

def letterSlots : List Slot :=
  [{ inner := "name", position := 3, token := ⟨"name", .simple, rawText "name"⟩
     value := .str "Ann Lee", behind := ": " },
   { inner := "items+:, ", position := 13, token := ⟨"items", .list ", ", rawText "items+:, "⟩
     value := .list (["a b", "c"].map .str), behind := " / " },
   { inner := "note*", position := 29, token := ⟨"note", .greedy, rawText "note*"⟩
     value := .str "as said:\nno / later", behind := "" }]

theorem letterSlots_valid : ∀ slot ∈ letterSlots, slot.Valid := by
  have hname : Trimmed "Ann Lee" := ⟨by decide, by decide +kernel⟩
  have hnote : Trimmed "as said:\nno / later" := ⟨by decide, by decide +kernel⟩
  have hitems : ∀ t ∈ ["a b", "c"], Trimmed t := by
    rw [List.forall_mem_cons, List.forall_mem_singleton]
    exact ⟨⟨by decide, by decide +kernel⟩, by decide, by decide +kernel⟩
  rw [letterSlots, List.forall_mem_cons, List.forall_mem_cons, List.forall_mem_singleton]
  have hplain {name : String} (c : Char) (cs : List Char) (hchars : name.toList = c :: cs)
      (hc : isTokenStart c = true)
      (hcs : cs.all (fun d => decide (d.isAlphanum ∨ d = '_')) = true) : IsPlainName name :=
    ⟨c, cs, hchars, hc, fun d hd => of_decide_eq_true (List.all_eq_true.1 hcs d hd)⟩
  refine ⟨⟨by decide +kernel, hplain 'n' ['a', 'm', 'e'] rfl (by decide) (by decide), by decide,
      .simple hname, fun _ => by decide +kernel⟩,
    ⟨by decide +kernel, hplain 'i' ['t', 'e', 'm', 's'] rfl (by decide) (by decide), by decide,
      .list (by decide) hitems (by decide +kernel), fun _ => by decide +kernel⟩,
    by decide +kernel, hplain 'n' ['o', 't', 'e'] rfl (by decide) (by decide), by decide,
      .greedy hnote, fun h => absurd rfl h⟩

theorem extract_interpolate_letter :
    segments letterPattern = .ok (patternSegments "To " letterSlots) ∧ letterSlots ≠ [] ∧
      (∀ slot ∈ letterSlots, slot.Valid) ∧ (letterSlots.map (·.token.name)).Nodup ∧
      (∀ slot ∈ letterSlots.dropLast, slot.behind ≠ "") ∧
      interpolate letterPattern (slotValues letterSlots) =
        .ok "To Ann Lee: a b, c / as said:\nno / later" ∧
      extract "To Ann Lee: a b, c / as said:\nno / later" letterPattern =
        .ok ⟨slotValues letterSlots, none⟩ := by
  have hsegments : segments letterPattern = .ok (patternSegments "To " letterSlots) := by
    decide +kernel
  have hnames : (letterSlots.map (·.token.name)).Nodup := by decide
  have hapart : ∀ slot ∈ letterSlots.dropLast, slot.behind ≠ "" := by
    have hall : letterSlots.dropLast.all (fun slot => slot.behind ≠ "") = true := by decide
    exact fun slot hslot => of_decide_eq_true (List.all_eq_true.1 hall slot hslot)
  have hvars : ∀ slot ∈ letterSlots,
      (slotValues letterSlots).get? (.str slot.token.name) = some slot.value := by
    rw [letterSlots, List.forall_mem_cons, List.forall_mem_cons, List.forall_mem_singleton]
    exact ⟨rfl, rfl, rfl⟩
  obtain ⟨text, htext, hextract⟩ := extract_interpolate hsegments (List.cons_ne_nil _ _)
    letterSlots_valid hnames hapart hvars
  have hwritten : interpolate letterPattern (slotValues letterSlots) =
      .ok "To Ann Lee: a b, c / as said:\nno / later" := by
    decide +kernel
  obtain rfl := Except.ok.inj (hwritten.symm.trans htext)
  exact ⟨hsegments, List.cons_ne_nil _ _, letterSlots_valid, hnames, hapart, hwritten, hextract⟩

end BulletScript.Template
