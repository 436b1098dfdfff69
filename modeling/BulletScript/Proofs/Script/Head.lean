import BulletScript.Proofs.Script.Written
import BulletScript.Proofs.Text.Word
import BulletScript.Proofs.Value.Record

/-! The line of an action is taken apart again: its keyword, its value and its options. -/
namespace BulletScript.Script

open Text Outline Written

variable {key value s : String} {cs rest word : List Char}

section Keys

theorem isBlank_space : isBlank ' ' = true := by decide

theorem isBlank_colon : isBlank ':' = false := by decide

theorem isBlank_backtick : isBlank '\x60' = false := by decide

/-- A word that can stand before a colon. -/
def isKey (key : String) : Bool :=
  match key.toList with
  | c :: cs => startsKey c && cs.all isKeyChar
  | [] => false

theorem exists_of_isKey (h : isKey key = true) :
    ∃ c cs, key.toList = c :: cs ∧ startsKey c = true ∧ ∀ d ∈ cs, isKeyChar d = true := by
  unfold isKey at h
  split at h
  · next c cs heq =>
    rw [Bool.and_eq_true, List.all_eq_true] at h
    exact ⟨c, cs, heq, h⟩
  · cases h

theorem isBlank_of_isKeyChar {c : Char} (h : isKeyChar c = true) : isBlank c = false := by
  simp only [isKeyChar, Bool.or_eq_true, decide_eq_true_eq] at h
  exact isBlank_of_isAlphanum h

theorem isKeyChar_of_startsKey {c : Char} (h : startsKey c = true) : isKeyChar c = true := by
  simp only [startsKey, isKeyChar, Char.isAlphanum, Bool.or_eq_true] at h ⊢
  exact h.imp_left .inl

theorem isBlank_of_mem_key (h : isKey key = true) : ∀ c ∈ key.toList, isBlank c = false := by
  obtain ⟨c, cs, heq, hc, hcs⟩ := exists_of_isKey h
  rw [heq]
  exact List.forall_mem_cons.2 ⟨isBlank_of_isKeyChar (isKeyChar_of_startsKey hc),
    fun d hd => isBlank_of_isKeyChar (hcs d hd)⟩

/-- A key, with blanks before its colon. -/
theorem cutKey?_gap (h : isKey key = true) {gap : List Char} (hgap : ∀ c ∈ gap, isBlank c)
    (rest : List Char) : cutKey? (key.toList ++ (gap ++ ':' :: rest)) = some (key.toList, rest) := by
  obtain ⟨c, cs, heq, hc, hcs⟩ := exists_of_isKey h
  have hstop : ∃ d ds, gap ++ ':' :: rest = d :: ds ∧ isKeyChar d = false := by
    cases gap with
    | nil => exact ⟨':', rest, rfl, by decide⟩
    | cons d ds =>
      refine ⟨d, _, rfl, ?_⟩
      by_contra hd
      have hblank := isBlank_of_isKeyChar (Bool.not_eq_false _ ▸ hd)
      simp [hgap d List.mem_cons_self] at hblank
  obtain ⟨d, ds, hstart, hd⟩ := hstop
  rw [heq, List.cons_append, cutKey?, if_pos hc, hstart, dropWhile_append_cons hcs hd,
    takeWhile_append_cons hcs hd, ← hstart, dropWhile_append_cons hgap (by decide)]
  rfl

theorem cutKey?_append (h : isKey key = true) (rest : List Char) :
    cutKey? (key.toList ++ ':' :: rest) = some (key.toList, rest) :=
  cutKey?_gap h (List.forall_mem_nil _) rest

end Keys

section Pairs

theorem toList_pair (key value : String) :
    (pair key value).toList = key.toList ++ ':' :: ' ' :: '\x60' :: (value.toList ++ ['\x60']) := by
  simp [pair]

theorem scanPairs_none (known : Option (List String)) (h : cutKey? (cs.dropWhile isBlank) = none) :
    scanPairs known cs = [] := by
  rw [scanPairs]
  split
  · rfl
  · next hfound => cases h.symm.trans hfound

/-- A value in backticks at the start of what is left of a line. -/
theorem scanPairs_quoted (known : Option (List String)) {quoted : List Char}
    (hcut : cutKey? (cs.dropWhile isBlank) = some (word, rest))
    (hrest : rest.dropWhile isBlank = '\x60' :: quoted) :
    scanPairs known cs = (.ofList word, .ofList (quoted.takeWhile (· ≠ '\x60'))) ::
      scanPairs known (quoted.drop ((quoted.takeWhile (· ≠ '\x60')).length + 1)) := by
  rw [scanPairs]
  split
  · next hnone => cases hcut.symm.trans hnone
  · next found behind hfound =>
    cases hcut.symm.trans hfound
    split
    · next quoted' hquoted =>
      obtain ⟨-, rfl⟩ := List.cons.inj (hrest.symm.trans hquoted)
      rfl
    · next hbare => exact absurd hrest (hbare _)

/-- It ends where it is closed. -/
theorem scanPairs_closed (known : Option (List String)) {quoted tail : List Char}
    (hcut : cutKey? (cs.dropWhile isBlank) = some (word, rest)) (hquoted : '\x60' ∉ quoted)
    (hrest : rest.dropWhile isBlank = '\x60' :: (quoted ++ '\x60' :: tail)) :
    scanPairs known cs = (.ofList word, .ofList quoted) :: scanPairs known tail := by
  have htake : (quoted ++ '\x60' :: tail).takeWhile (· ≠ '\x60') = quoted := by
    refine takeWhile_append_cons (fun c hc => ?_) (by simp)
    simpa using fun heq : c = '\x60' => hquoted (heq ▸ hc)
  rw [scanPairs_quoted known hcut hrest, htake]
  simp

/-- One that is not closed is all that is left. -/
theorem scanPairs_unclosed (known : Option (List String)) {quoted : List Char}
    (hcut : cutKey? (cs.dropWhile isBlank) = some (word, rest)) (hquoted : '\x60' ∉ quoted)
    (hrest : rest.dropWhile isBlank = '\x60' :: quoted) :
    scanPairs known cs = [(.ofList word, .ofList quoted)] := by
  have htake : quoted.takeWhile (· ≠ '\x60') = quoted := by
    refine List.takeWhile_eq_self_iff.2 fun c hc => ?_
    simpa using fun heq : c = '\x60' => hquoted (heq ▸ hc)
  rw [scanPairs_quoted known hcut hrest, htake, List.drop_eq_nil_of_le (Nat.le_succ _),
    scanPairs_none known rfl]

/-- A bare value there. -/
theorem scanPairs_bare (known : Option (List String)) {bare : List Char}
    (hcut : cutKey? (cs.dropWhile isBlank) = some (word, rest))
    (hrest : rest.dropWhile isBlank = bare) (hbare : bare.head? ≠ some '\x60') :
    scanPairs known cs = (.ofList word, .ofList (trimChars (cutAtKey known bare).1)) ::
      scanPairs known (cutAtKey known bare).2 := by
  rw [scanPairs]
  split
  · next hnone => cases hcut.symm.trans hnone
  · next found behind hfound =>
    cases hcut.symm.trans hfound
    split
    · next quoted hquoted =>
      rw [← hrest, hquoted] at hbare
      exact absurd rfl hbare
    · rw [hrest]

/-- One pair at the start of what is left of a line. -/
theorem scanPairs_pair (known : Option (List String)) (hkey : isKey key = true)
    (hvalue : '\x60' ∉ value.toList)
    (hcs : cs.dropWhile isBlank = (pair key value).toList ++ rest) :
    scanPairs known cs = (key, value) :: scanPairs known rest := by
  have hcut : cutKey? (cs.dropWhile isBlank) =
      some (key.toList, ' ' :: '\x60' :: (value.toList ++ '\x60' :: rest)) := by
    rw [hcs, toList_pair, List.append_assoc]
    simpa using cutKey?_append hkey (' ' :: '\x60' :: (value.toList ++ '\x60' :: rest))
  have hafter : (' ' :: '\x60' :: (value.toList ++ '\x60' :: rest)).dropWhile isBlank =
      '\x60' :: (value.toList ++ '\x60' :: rest) := by
    simp [isBlank_space, isBlank_backtick]
  rw [scanPairs_closed known hcut hvalue hafter, String.ofList_toList, String.ofList_toList]

theorem toList_pairs (entries : List (String × String)) :
    (pairs entries).toList = [' '].intercalate (entries.map fun e => (pair e.1 e.2).toList) := by
  simp [pairs, Function.comp_def]

/-- Pairs as they are written: a word, and a value without backticks. -/
def Scannable (entries : List (String × String)) : Prop :=
  ∀ e ∈ entries, isKey e.1 = true ∧ '\x60' ∉ e.2.toList

variable {entries : List (String × String)} {e : String × String}

theorem pairs_cons (e : String × String) (entries : List (String × String)) :
    ∃ behind, (pairs (e :: entries)).toList = (pair e.1 e.2).toList ++ behind ∧
      (behind = [] ∧ entries = [] ∨ entries ≠ [] ∧ behind = ' ' :: (pairs entries).toList) := by
  by_cases hentries : entries = []
  · subst hentries
    exact ⟨[], by simp [toList_pairs], .inl ⟨rfl, rfl⟩⟩
  · refine ⟨_, ?_, .inr ⟨hentries, rfl⟩⟩
    rw [toList_pairs, toList_pairs, List.map_cons, List.intercalate_cons_of_ne_nil (by simpa)]
    simp

theorem pairs_start (h : Scannable (e :: entries)) :
    ∃ c cs, (pairs (e :: entries)).toList = c :: cs ∧ isBlank c = false := by
  obtain ⟨behind, htext, -⟩ := pairs_cons e entries
  have hkey := (h e (by simp)).1
  obtain ⟨c, cs, heq, -, -⟩ := exists_of_isKey hkey
  rw [htext, toList_pair, heq]
  exact ⟨c, _, rfl, isBlank_of_mem_key hkey c (by simp [heq])⟩

/-- A line of pairs is taken apart. -/
theorem scanPairs_pairs (known : Option (List String)) (h : Scannable entries)
    (hcs : cs.dropWhile isBlank = (pairs entries).toList) : scanPairs known cs = entries := by
  induction entries generalizing cs with
  | nil => exact scanPairs_none known (by rw [hcs, toList_pairs]; rfl)
  | cons e entries ih =>
    obtain ⟨behind, htext, hbehind⟩ := pairs_cons e entries
    have hfirst := h e (by simp)
    have hrest : Scannable entries := fun e he => h e (List.mem_cons_of_mem _ he)
    rw [scanPairs_pair known hfirst.1 hfirst.2 (hcs.trans htext)]
    congr 1
    refine ih hrest ?_
    -- between two pairs is one blank, which the next key is found behind
    rcases hbehind with ⟨rfl, rfl⟩ | ⟨hne, rfl⟩
    · rfl
    · obtain ⟨next, more, rfl⟩ := List.exists_cons_of_ne_nil hne
      obtain ⟨c, cs', heq, hc⟩ := pairs_start hrest
      rw [heq, List.dropWhile_cons_of_pos isBlank_space,
        List.dropWhile_cons_of_neg (by simp [hc])]

end Pairs

section Plain

/-- A text without backticks is only trimmed. -/
theorem clean_of_unquoted (h : '\x60' ∉ cs) : Template.clean (.ofList cs) = .ofList (trimChars cs) := by
  obtain ⟨front, back, heq, -⟩ := exists_eq_trimChars cs
  have hnot : '\x60' ∉ trimChars cs := fun hmem => h (by rw [heq]; simp [hmem])
  have hlast : (trimChars cs).getLast? ≠ some '\x60' := fun hlast =>
    hnot (List.mem_of_getLast? hlast)
  rw [Template.clean, String.toList_ofList]
  split
  · next rest hs => exact absurd (hs ▸ List.mem_cons_self) hnot
  · rw [if_neg hlast, trimChars_trimChars]

/-- A phrase is its own cleaned form. -/
theorem IsPhrase.clean (h : IsPhrase s) : Template.clean s = s := by
  have hclean := clean_of_unquoted h.unquoted
  rw [String.ofList_toList] at hclean
  exact hclean.trans h.plain.trimmed

theorem pairs_end (e : String × String) (entries : List (String × String)) :
    (pairs (e :: entries)).toList.getLast? = some '\x60' := by
  induction entries generalizing e with
  | nil =>
    obtain ⟨behind, htext, hbehind⟩ := pairs_cons e []
    obtain ⟨rfl, -⟩ | ⟨hne, -⟩ := hbehind
    · rw [htext, toList_pair]
      simp [List.getLast?_cons]
    · exact absurd rfl hne
  | cons next more ih =>
    obtain ⟨behind, htext, hbehind⟩ := pairs_cons e (next :: more)
    obtain ⟨-, hnil⟩ | ⟨-, rfl⟩ := hbehind
    · cases hnil
    · rw [htext, List.getLast?_append, List.getLast?_cons, ih next]
      rfl

theorem unbroken_pair (hkey : isKey key = true)
    (hvalue : ∀ c ∈ value.toList, isLineBoundary c = false) :
    ∀ c ∈ (pair key value).toList, isLineBoundary c = false := by
  intro c hc
  simp only [toList_pair, List.mem_append, List.mem_cons, List.not_mem_nil, or_false] at hc
  rcases hc with hc | rfl | rfl | rfl | hc | rfl
  · exact isLineBoundary_of_not_isBlank (isBlank_of_mem_key hkey c hc)
  · decide
  · decide
  · decide
  · exact hvalue c hc
  · decide

theorem unbroken_pairs (h : Scannable entries)
    (hvalues : ∀ p ∈ entries, ∀ c ∈ p.2.toList, isLineBoundary c = false) :
    ∀ c ∈ (pairs entries).toList, isLineBoundary c = false := by
  induction entries with
  | nil => simp [toList_pairs]
  | cons e entries ih =>
    obtain ⟨behind, htext, hbehind⟩ := pairs_cons e entries
    have hrest := ih (fun p hp => h p (List.mem_cons_of_mem _ hp))
      fun p hp => hvalues p (List.mem_cons_of_mem _ hp)
    rw [htext]
    refine List.forall_mem_append.2 ⟨unbroken_pair (h e (by simp)).1 (hvalues e (by simp)), ?_⟩
    obtain ⟨rfl, -⟩ | ⟨-, rfl⟩ := hbehind
    · exact List.forall_mem_nil _
    · exact List.forall_mem_cons.2 ⟨by decide, hrest⟩

theorem plainText_of_ends {c d : Char} (hstart : s.toList.head? = some c)
    (hend : s.toList.getLast? = some d) (hc : isBlank c = false) (hd : isBlank d = false)
    (hunbroken : ∀ c ∈ s.toList, isLineBoundary c = false) : PlainText s := by
  refine ⟨?_, hunbroken⟩
  rw [trim, trimChars_eq_self_iff.2, String.ofList_toList]
  exact ⟨fun x hx => Option.some.inj (hstart.symm.trans hx) ▸ hc,
    fun x hx => Option.some.inj (hend.symm.trans hx) ▸ hd⟩

theorem plainText_pairs (h : Scannable (e :: entries))
    (hvalues : ∀ p ∈ e :: entries, ∀ c ∈ p.2.toList, isLineBoundary c = false) :
    PlainText (pairs (e :: entries)) := by
  obtain ⟨c, cs, heq, hc⟩ := pairs_start h
  exact plainText_of_ends (by rw [heq]; rfl) (pairs_end e entries) hc (by decide)
    (unbroken_pairs h hvalues)

theorem plainText_key (h : isKey key = true) : PlainText (key ++ ":") := by
  obtain ⟨c, cs, heq, -⟩ := exists_of_isKey h
  have hblank := isBlank_of_mem_key h
  refine plainText_of_ends (c := c) (d := ':') (by simp [heq]) (by simp [List.getLast?_append])
    (hblank c (by simp [heq])) (by decide) fun x hx => ?_
  rw [String.toList_append] at hx
  rcases List.mem_append.1 hx with hx | hx
  · exact isLineBoundary_of_not_isBlank (hblank x hx)
  · obtain rfl : x = ':' := by simpa using hx
    decide

end Plain

section Heads

/-- The options of a line: words of their own, none of them the keyword, and phrases. -/
structure IsOptions (keyword : String) (options : List (String × String)) : Prop where
  keys : ∀ e ∈ options, isKey e.1 = true
  phrases : ∀ e ∈ options, IsPhrase e.2
  nodup : (keyword :: options.map (·.1)).Nodup

theorem isKey_keyword (keyword : Keyword) : isKey keyword.text = true := by
  cases keyword <;> decide

theorem ofText?_text (keyword : Keyword) : Keyword.ofText? keyword.text = some keyword := by
  cases keyword <;> decide

theorem keyValue?_eq_some (hplain : PlainText s) (hkey : isKey key = true)
    (hs : s.toList = key.toList ++ ':' :: rest) :
    keyValue? s = some (key, Template.clean (.ofList rest)) := by
  have htrim : trimChars s.toList = s.toList := by
    simpa [trim] using congrArg String.toList hplain.trimmed
  rw [keyValue?, htrim, hs, cutKey?_append hkey]
  simp

variable {keyword : Keyword} {main : Phrase} {options : List (String × String)}

theorem scannable_of_isOptions (h : IsOptions keyword.text options) (main : Phrase) :
    Scannable ((keyword.text, main.text) :: options) :=
  List.forall_mem_cons.2 ⟨⟨isKey_keyword keyword, main.isPhrase.unquoted⟩,
    fun e he => ⟨h.keys e he, (h.phrases e he).unquoted⟩⟩

theorem plainText_headText (h : IsOptions keyword.text options) (main : Option Phrase) :
    PlainText (headText keyword main options) := by
  cases main with
  | none => exact plainText_key (isKey_keyword keyword)
  | some main =>
    exact plainText_pairs (scannable_of_isOptions h main) (List.forall_mem_cons.2
      ⟨main.isPhrase.plain.unbroken, fun e he => (h.phrases e he).plain.unbroken⟩)

theorem keyValue?_headText (h : IsOptions keyword.text options) (main : Option Phrase) :
    ∃ value, keyValue? (headText keyword main options) = some (keyword.text, value) := by
  have hplain := plainText_headText h main
  cases main with
  | none => exact ⟨_, keyValue?_eq_some hplain (isKey_keyword keyword) (by simp [headText]; rfl)⟩
  | some main =>
    obtain ⟨behind, htext, -⟩ := pairs_cons (keyword.text, main.text) options
    rw [toList_pair, List.append_assoc, List.cons_append] at htext
    exact ⟨_, keyValue?_eq_some hplain (isKey_keyword keyword) htext⟩

/-- Nothing is left of nothing, and no key is in it. -/
theorem cutAtKey_of_eq_nil (known : Option (List String)) (h : cs = []) :
    cutAtKey known cs = ([], []) := by
  fun_cases cutAtKey known cs with
  | case1 => rfl
  | case2 | case3 | case4 => cases h

/-- A word and its colon, with nothing behind it. -/
theorem scanPairs_key (known : Option (List String)) (h : isKey key = true) :
    scanPairs known (key ++ ":").toList = [(key, "")] := by
  obtain ⟨c, cs, heq, hc, -⟩ := exists_of_isKey h
  have hblank : isBlank c = false := isBlank_of_isKeyChar (isKeyChar_of_startsKey hc)
  have hcut : cutKey? ((key ++ ":").toList.dropWhile isBlank) = some (key.toList, []) := by
    have htext : (key ++ ":").toList = key.toList ++ ':' :: [] := by simp
    have hfirst : (key.toList ++ ':' :: []).dropWhile isBlank = key.toList ++ ':' :: [] := by
      rw [heq, List.cons_append, List.dropWhile_cons_of_neg (by simp [hblank])]
    rw [htext, hfirst, cutKey?_append h]
  have hempty : String.ofList (trimChars []) = "" := by decide
  rw [scanPairs_bare known hcut rfl (by simp), List.dropWhile_nil, cutAtKey_of_eq_nil known rfl,
    scanPairs_none known rfl, String.ofList_toList, hempty]

/-- The options of an action as a record. -/
def optionRecord (options : List (String × String)) : Record :=
  options.map fun e => (.str e.1, .str e.2)

theorem ofEntries_scanned (h : (entries.map (·.1)).Nodup) :
    Record.ofEntries (entries.map fun (k, v) => (.str k, .str v)) = optionRecord entries := by
  let values : List (String × Value) := entries.map fun e => (e.1, .str e.2)
  have hvalues : values.map (fun e => ((.str e.1 : Key), e.2)) = optionRecord entries := by
    simp [values, optionRecord]
  have hnodup : (values.map (·.1)).Nodup := by simpa [values, Function.comp_def] using h
  have hupdate := Record.update_of_nodup hnodup (List.forall_mem_nil _)
  rw [hvalues, List.nil_append] at hupdate
  exact hupdate

/-- The record of a scanned line holds the main value, and without it the options. -/
theorem head_of_pairs (h : IsOptions key options) (value : String) :
    (optionRecord ((key, value) :: options)).get? key = some (.str value) ∧
      ((optionRecord ((key, value) :: options)).erase key).map
        (fun (k, v) => (k, .str (Template.clean v.plain))) = optionRecord options := by
  have hnot : key ∉ options.map (·.1) := (List.nodup_cons.1 h.nodup).1
  have hkept : ∀ entry ∈ optionRecord options, (!entry.1.same (.str key)) = true := by
    intro entry hentry
    obtain ⟨e, he, rfl⟩ := List.mem_map.1 hentry
    have hne : e.1 ≠ key := fun heq => hnot (heq ▸ List.mem_map_of_mem he)
    simpa using hne
  have hsame : (Key.str key).same (.str key) = true := by simp
  constructor
  · simp [optionRecord, Record.get?]
  · have herase : Record.erase (optionRecord ((key, value) :: options)) key =
        optionRecord options := by
      rw [Record.erase, optionRecord, List.map_cons, List.filter_cons_of_neg (by simp)]
      exact List.filter_eq_self.2 hkept
    rw [herase, optionRecord, List.map_map]
    refine List.map_congr_left fun e he => ?_
    have hclean : Template.clean e.2 = e.2 := (h.phrases e he).clean
    simp [Value.plain, hclean]

theorem headOf_headText (h : IsOptions keyword.text options) (main : Option Phrase)
    (hmain : main = none → options = []) (line : Option Nat) :
    headOf (headText keyword main options) line =
      .ok (keyword, (main.map (·.text)).getD "", optionRecord options) := by
  obtain ⟨value, hkey⟩ := keyValue?_headText h main
  obtain ⟨written, hwritten, hscan⟩ : ∃ written,
      Template.clean written = (main.map (·.text)).getD "" ∧
        scanPairs (some inlineKeys) (headText keyword main options).toList =
          (keyword.text, written) :: options := by
    cases main with
    | some main =>
      have hscannable := scannable_of_isOptions h main
      obtain ⟨c, cs, heq, hc⟩ := pairs_start hscannable
      refine ⟨main.text, main.isPhrase.clean, scanPairs_pairs _ hscannable ?_⟩
      rw [headText, heq, List.dropWhile_cons_of_neg (by simp [hc])]
    | none =>
      obtain rfl := hmain rfl
      exact ⟨"", by decide, scanPairs_key _ (isKey_keyword keyword)⟩
  have hnodup : (((keyword.text, written) :: options).map (·.1)).Nodup := by simpa using h.nodup
  obtain ⟨hget, hrest⟩ := head_of_pairs h written
  unfold headOf
  rw [(plainText_headText h main).trimmed]
  dsimp only
  rw [hkey]
  dsimp only
  rw [ofText?_text]
  dsimp only
  rw [inlineRecord, hscan, ofEntries_scanned hnodup, hrest, hget, hwritten]

end Heads

end BulletScript.Script
