import BulletScript.Proofs.Script.Inline

/-! The main value of an action is the text behind its keyword without the backticks around it, if no
option stands in that text and it is not closed early: of a text that starts in backticks and goes on
behind them, the rest is not in the value. -/
namespace BulletScript.Script

open Text Outline Written

variable {known : Option (List String)} {cs rest word : List Char} {key value s : String}

section Cleaning

/-- Blanks around a text do not matter. -/
theorem clean_of_trimChars {s t : String} (h : trimChars s.toList = trimChars t.toList) :
    Template.clean s = Template.clean t := by
  rw [Template.clean, Template.clean, h]

theorem clean_trimRightChars (cs : List Char) :
    Template.clean (.ofList (trimRightChars cs)) = Template.clean (.ofList cs) :=
  clean_of_trimChars (by simp [trimChars_trimRightChars])

/-- What is left between two backticks. -/
theorem clean_quoted (cs : List Char) :
    Template.clean (.ofList ('\x60' :: (cs ++ ['\x60']))) = .ofList (trimChars cs) := by
  have htrim : trimChars ('\x60' :: (cs ++ ['\x60'])) = '\x60' :: (cs ++ ['\x60']) := by
    rw [trimChars_eq_self_iff]
    constructor
    · rintro _ ⟨⟩
      exact isBlank_backtick
    · rw [← List.cons_append, List.getLast?_append]
      rintro _ ⟨⟩
      exact isBlank_backtick
  rw [Template.clean, String.toList_ofList, htrim]
  simp

/-- A backtick that is not closed is left out. -/
theorem clean_unclosed (h : '\x60' ∉ cs) :
    Template.clean (.ofList ('\x60' :: cs)) = .ofList (trimChars cs) := by
  have htrim : trimChars ('\x60' :: cs) = '\x60' :: trimRightChars cs := by
    have hfront : ∀ c ∈ ['\x60'].getLast?, isBlank c = false := by simp [isBlank_backtick]
    rw [trimChars, trimLeftChars, List.dropWhile_cons_of_neg (by simp [isBlank_backtick])]
    exact trimRightChars_append hfront cs
  obtain ⟨blanks, heq, -⟩ := exists_eq_trimRightChars_append cs
  have hlast : (trimRightChars cs).getLast? ≠ some '\x60' := fun hlast =>
    h (by rw [heq]; simp [List.mem_of_getLast? hlast])
  rw [Template.clean, String.toList_ofList, htrim]
  simp only [if_neg hlast, trimChars_trimRightChars]

/-- At most one character is left out at each end, besides blanks. -/
theorem exists_core_of_clean (s : String) : ∃ front core back,
    trimChars s.toList = front ++ core ++ back ∧ front.length ≤ 1 ∧ back.length ≤ 1 ∧
      Template.clean s = .ofList (trimChars core) := by
  have hback : ∀ cs : List Char, ∃ core back, cs = core ++ back ∧ back.length ≤ 1 ∧
      (if cs.getLast? = some '\x60' then cs.dropLast else cs) = core := by
    intro cs
    split
    · next hlast =>
      have hne : cs ≠ [] := by rintro rfl; cases hlast
      exact ⟨_, [cs.getLast hne], (List.dropLast_append_getLast hne).symm, Nat.le_refl 1, rfl⟩
    · exact ⟨cs, [], by simp, by simp, rfl⟩
  rw [Template.clean]
  split
  · next rest hs =>
    obtain ⟨core, back, heq, hlength, hcore⟩ := hback rest
    exact ⟨['\x60'], core, back, by rw [hs, heq]; rfl, Nat.le_refl 1, hlength, by rw [hcore]⟩
  · obtain ⟨core, back, heq, hlength, hcore⟩ := hback (trimChars s.toList)
    exact ⟨[], core, back, heq, Nat.zero_le 1, hlength, by rw [hcore]⟩

theorem inked_clean (s : String) : inked (Template.clean s).toList ≤ inked s.toList ∧
    inked s.toList ≤ inked (Template.clean s).toList + 2 := by
  obtain ⟨front, core, back, heq, hfront, hback, hclean⟩ := exists_core_of_clean s
  have hink := congrArg inked heq
  have hfront' : inked front ≤ front.length := List.countP_le_length
  have hback' : inked back ≤ back.length := List.countP_le_length
  rw [inked_trimChars, inked_append, inked_append] at hink
  rw [hclean, String.toList_ofList, inked_trimChars]
  omega

end Cleaning

section Scanning

theorem inked_dropWhile (cs : List Char) : inked (cs.dropWhile isBlank) = inked cs := by
  rw [← inked_trimChars cs, ← trimChars_trimLeftChars, inked_trimChars, trimLeftChars]

/-- A bare value and what follows it are the text they were cut from. -/
theorem cutAtKey_eq (known : Option (List String)) (cs : List Char) :
    (cutAtKey known cs).1 ++ (cutAtKey known cs).2 = cs := by
  fun_induction cutAtKey known cs with
  | case1 => rfl
  | case2 => rfl
  | case3 c cs found after hfound hunknown before tail hcut ih =>
    obtain ⟨k, blanks, -, heq, -, htake⟩ := exists_front_of_cutInnerKey? hfound
    rw [hcut] at ih
    rw [List.length_cons] at htake
    rw [htake, List.append_assoc, ih, ← heq]
  | case4 c cs hnone before tail hcut ih =>
    rw [hcut] at ih
    rw [List.cons_append, ih]

theorem inked_of_cutKey? {word : List Char}
    (h : cutKey? (cs.dropWhile isBlank) = some (word, rest)) : inked rest + 2 ≤ inked cs := by
  obtain ⟨gap, heq, hkey, -⟩ := exists_of_cutKey? h
  obtain ⟨c, word', hword, hc, -⟩ := exists_of_isKey hkey
  have hblank := isBlank_of_isKeyChar (isKeyChar_of_startsKey hc)
  have hhead : 0 < inked (c :: word') := by simp [inked, hblank]
  have hrest : inked (':' :: rest) = inked rest + 1 := inked_cons isBlank_colon rest
  have hink := congrArg inked heq
  rw [String.toList_ofList] at hword
  rw [inked_dropWhile, hword, inked_append, inked_append, hrest] at hink
  omega

/-- A value is shorter than the text it is read from, by its key and the colon. -/
theorem inked_of_mem_scanPairs {e : String × String} (h : e ∈ scanPairs known cs) :
    inked e.2.toList + 2 ≤ inked cs := by
  fun_induction scanPairs known cs with
  | case1 => cases h
  | case2 cs word rest hcut quoted hquoted read ih =>
    have hrest := inked_of_cutKey? hcut
    have hquote : inked ('\x60' :: quoted) = inked quoted + 1 := inked_cons isBlank_backtick quoted
    have hbehind := congrArg inked hquoted
    rw [inked_dropWhile, hquote] at hbehind
    rcases List.mem_cons.1 h with rfl | hlater
    · have hread : inked read ≤ inked quoted := (List.takeWhile_sublist _).countP_le
      rw [String.toList_ofList]
      omega
    · have hdrop : inked (quoted.drop (read.length + 1)) ≤ inked quoted :=
        (List.drop_sublist _ quoted).countP_le
      have := ih hlater
      omega
  | case3 cs word rest hcut hbare parts ih =>
    have hrest := inked_of_cutKey? hcut
    have hparts : inked parts.1 + inked parts.2 = inked rest := by
      rw [← inked_append, ← inked_dropWhile rest]
      exact congrArg inked (cutAtKey_eq known (rest.dropWhile isBlank))
    rcases List.mem_cons.1 h with rfl | hlater
    · rw [String.toList_ofList, inked_trimChars]
      omega
    · have := ih hlater
      omega

/-- The first pair is that of the key at the start. -/
theorem exists_scanPairs_cons (known : Option (List String))
    (hcut : cutKey? (cs.dropWhile isBlank) = some (word, rest)) :
    ∃ first others, scanPairs known cs = (.ofList word, first) :: others := by
  by_cases hquote : (rest.dropWhile isBlank).head? = some '\x60'
  · obtain ⟨quoted, hquoted⟩ := List.head?_eq_some_iff.1 hquote
    exact ⟨_, _, scanPairs_quoted known hcut hquoted⟩
  · exact ⟨_, _, scanPairs_bare known hcut rfl hquote⟩

/-- A key that is scanned has in the record one of the values that it is scanned with. -/
theorem exists_get?_inlineRecord {line : String}
    (h : (key, value) ∈ scanPairs known line.toList) :
    ∃ main, (inlineRecord known line).get? (.str key) = some (.str main) ∧
      (key, main) ∈ scanPairs known line.toList := by
  let values : List (String × Value) := (scanPairs known line.toList).map fun e => (e.1, .str e.2)
  have hvalues : inlineRecord known line = Record.update [] (values.map fun e => (.str e.1, e.2)) := by
    rw [List.map_map]
    rfl
  have hget := Record.get?_update_last values [] key
  cases hlookup : values.reverse.lookup key with
  | none =>
    have hmem : (key, .str value) ∈ values.reverse :=
      List.mem_reverse.2 (List.mem_map.2 ⟨_, h, rfl⟩)
    simpa using List.lookup_eq_none_iff.1 hlookup _ hmem
  | some found =>
    obtain ⟨front, back, hsplit, -⟩ := List.lookup_eq_some_iff.1 hlookup
    have hmem : (key, found) ∈ values := List.mem_reverse.1 (by rw [hsplit]; simp)
    obtain ⟨e, he, heq⟩ := List.mem_map.1 hmem
    obtain ⟨rfl, rfl⟩ := Prod.mk.inj heq
    exact ⟨e.2, by rw [hvalues, hget, hlookup]; rfl, he⟩

end Scanning

section Heads

/-- A text in backticks with more behind it. -/
def ClosedEarly (cs : List Char) : Prop :=
  ∃ blanks quoted tail, cs = blanks ++ '\x60' :: (quoted ++ '\x60' :: tail) ∧
    (∀ c ∈ blanks, isBlank c) ∧ '\x60' ∉ quoted ∧ ∃ c ∈ tail, isBlank c = false

variable {keyword : Keyword} {text : String} {before gap : List Char}

/-- The line of an action without the blanks around it. -/
theorem trimChars_line (hbefore : ∀ c ∈ before, isBlank c) :
    trimChars (before ++ (keyword.text.toList ++ (gap ++ ':' :: rest))) =
      keyword.text.toList ++ (gap ++ ':' :: trimRightChars rest) := by
  obtain ⟨c, cs, hkey, hc, -⟩ := exists_of_isKey (isKey_keyword keyword)
  have hblank := isBlank_of_isKeyChar (isKeyChar_of_startsKey hc)
  have hstart : trimLeftChars (before ++ (keyword.text.toList ++ (gap ++ ':' :: rest))) =
      keyword.text.toList ++ (gap ++ ':' :: rest) := by
    rw [trimLeftChars, hkey, List.cons_append, dropWhile_append_cons hbefore hblank]
  have hcolon : ∀ c ∈ (keyword.text.toList ++ (gap ++ [':'])).getLast?, isBlank c = false := by
    simp [List.getLast?_append, isBlank_colon]
  have hright := trimRightChars_append hcolon rest
  simp only [List.append_assoc, List.singleton_append] at hright
  rw [trimChars, hstart, hright]

variable (hbefore : ∀ c ∈ before, isBlank c) (hgap : ∀ c ∈ gap, isBlank c)
  (htext : text.toList = before ++ (keyword.text.toList ++ (gap ++ ':' :: rest)))

include hbefore hgap htext

theorem cutKey?_line : cutKey? (trim text).toList =
    some (keyword.text.toList, trimRightChars rest) := by
  rw [trim, htext, trimChars_line hbefore, String.toList_ofList,
    cutKey?_gap (isKey_keyword keyword) hgap]

theorem keyValue?_line : keyValue? text = some (keyword.text, Template.clean (.ofList rest)) := by
  have hcut := cutKey?_line hbefore hgap htext
  rw [trim, String.toList_ofList] at hcut
  rw [keyValue?, hcut]
  simp [clean_trimRightChars]

/-- The main value is that of a pair of the line with the keyword as its key. -/
theorem exists_headOf (line : Option Nat) :
    ∃ main, headOf text line = .ok (keyword, Template.clean main,
      ((inlineRecord (some inlineKeys) (trim text)).erase keyword.text).map
        fun (k, v) => (k, .str (Template.clean v.plain))) ∧
      (keyword.text, main) ∈ scanPairs (some inlineKeys) (trim text).toList := by
  have hcut := cutKey?_line hbefore hgap htext
  have hkeyValue : keyValue? (trim text) = keyValue? text := by
    rw [keyValue?, keyValue?, trim, String.toList_ofList, trimChars_trimChars]
  rw [← dropWhile_trim] at hcut
  obtain ⟨first, others, hscan⟩ := exists_scanPairs_cons (some inlineKeys) hcut
  have hmem : (keyword.text, first) ∈ scanPairs (some inlineKeys) (trim text).toList := by
    rw [hscan, String.ofList_toList]
    exact List.mem_cons_self
  obtain ⟨main, hget, hmain⟩ := exists_get?_inlineRecord hmem
  refine ⟨main, ?_, hmain⟩
  unfold headOf
  dsimp only
  rw [hkeyValue, keyValue?_line hbefore hgap htext]
  dsimp only
  rw [ofText?_text]
  dsimp only
  rw [hget]

omit hbefore hgap htext

theorem closedEarly_trimRightChars_iff : ClosedEarly (trimRightChars cs) ↔ ClosedEarly cs := by
  obtain ⟨behind, heq, hbehind⟩ := exists_eq_trimRightChars_append cs
  constructor
  · rintro ⟨blanks, quoted, tail, hcs, hblanks, hquoted, c, hc, hink⟩
    refine ⟨blanks, quoted, tail ++ behind, ?_, hblanks, hquoted, c, by simp [hc], hink⟩
    rw [heq, hcs]
    simp
  · rintro ⟨blanks, quoted, tail, hcs, hblanks, hquoted, c, hc, hink⟩
    have hlast : ∀ c ∈ (blanks ++ '\x60' :: (quoted ++ ['\x60'])).getLast?, isBlank c = false := by
      simp [List.getLast?_append, List.getLast?_cons, isBlank_backtick]
    have hright := trimRightChars_append hlast tail
    have hmem : c ∈ trimRightChars tail := by
      obtain ⟨more, htail, hmore⟩ := exists_eq_trimRightChars_append tail
      rcases List.mem_append.1 (htail ▸ hc) with hc | hc
      · exact hc
      · simp [hmore c hc] at hink
    refine ⟨blanks, quoted, trimRightChars tail, ?_, hblanks, hquoted, c, hmem, hink⟩
    rw [hcs]
    simpa using hright

theorem holdsKey_of_trimRightChars (h : HoldsKey known (trimLeftChars (trimRightChars cs))) :
    HoldsKey known (trimLeftChars cs) := by
  obtain ⟨behind, heq, hbehind⟩ := exists_eq_trimRightChars_append cs
  have hne : trimRightChars cs ≠ [] := by
    intro hnil
    rw [hnil] at h
    obtain ⟨k, front, back, hcs, -⟩ := h
    simp [trimLeftChars, InnerKey.text] at hcs
  have hdrop := (dropWhile_isBlank_append hne
    (fun c hc => not_isBlank_of_getLast?_trimRightChars hc) behind).1
  rw [← heq] at hdrop
  rw [trimLeftChars, hdrop]
  exact h.append_right fun c hc => hbehind c (List.mem_of_head? hc)

variable {main : String}

/-- Of a text that is closed early more is left out than the backticks. -/
theorem clean_ne_of_closedEarly (hclosed : ClosedEarly rest)
    (hcut : cutKey? (cs.dropWhile isBlank) = some (word, rest))
    (hmain : (key, main) ∈ scanPairs known cs) :
    Template.clean main ≠ Template.clean (.ofList rest) := by
  obtain ⟨blanks, quoted, tail, rfl, hblanks, hquoted, c, hc, hink⟩ := hclosed
  rw [scanPairs_closed known hcut hquoted (dropWhile_append_cons hblanks isBlank_backtick)] at hmain
  have hread : inked (blanks ++ '\x60' :: (quoted ++ '\x60' :: tail)) =
      inked quoted + inked tail + 2 := by
    rw [inked_append, inked_blanks hblanks, inked_cons isBlank_backtick, inked_append,
      inked_cons isBlank_backtick]
    omega
  have htail : 0 < inked tail := List.countP_pos_iff.2 ⟨c, hc, by simp [hink]⟩
  have hkept := (inked_clean (.ofList (blanks ++ '\x60' :: (quoted ++ '\x60' :: tail)))).2
  have hless := (inked_clean main).1
  rw [String.toList_ofList, hread] at hkept
  intro heq
  rw [← heq] at hkept
  rcases List.mem_cons.1 hmain with hfirst | hlater
  · obtain ⟨-, rfl⟩ := Prod.mk.inj hfirst
    rw [String.toList_ofList] at hless
    omega
  · have hvalue := inked_of_mem_scanPairs hlater
    dsimp only at hvalue
    omega

/-- A text without an option that is not closed early is the value of the only pair. -/
theorem clean_eq_of_not_closedEarly (hclosed : ¬ ClosedEarly rest)
    (hholds : ¬ HoldsKey known (trimLeftChars rest))
    (hcut : cutKey? (cs.dropWhile isBlank) = some (word, rest))
    (hmain : (key, main) ∈ scanPairs known cs) :
    Template.clean main = Template.clean (.ofList rest) := by
  by_cases hbare : (rest.dropWhile isBlank).head? = some '\x60'
  · obtain ⟨quoted, hquoted⟩ := List.head?_eq_some_iff.1 hbare
    have hrest : Template.clean (.ofList rest) = Template.clean (.ofList ('\x60' :: quoted)) := by
      refine clean_of_trimChars ?_
      rw [String.toList_ofList, String.toList_ofList, ← hquoted, ← trimLeftChars,
        trimChars_trimLeftChars]
    by_cases hclose : '\x60' ∈ quoted
    · obtain ⟨value, tail, rfl, hvalue⟩ := List.eq_append_cons_of_mem hclose
      have htail : ∀ c ∈ tail, isBlank c := by
        intro c hc
        by_contra hink
        refine hclosed ⟨rest.takeWhile isBlank, value, tail, ?_,
          List.all_eq_true.1 List.all_takeWhile, hvalue, c, hc, Bool.eq_false_iff.2 hink⟩
        rw [← hquoted, List.takeWhile_append_dropWhile]
      rw [scanPairs_closed known hcut hvalue hquoted,
        scanPairs_none known (by rw [List.dropWhile_eq_nil_iff.2 htail]; rfl), List.mem_singleton,
        Prod.mk.injEq] at hmain
      rw [hrest, hmain.2, clean_of_unquoted hvalue, ← clean_quoted]
      refine clean_of_trimChars ?_
      rw [String.toList_ofList, String.toList_ofList,
        ← trimChars_append_blanks ('\x60' :: (value ++ ['\x60'])) htail]
      simp
    · rw [scanPairs_unclosed known hcut hclose hquoted, List.mem_singleton, Prod.mk.injEq] at hmain
      rw [hrest, hmain.2, clean_of_unquoted hclose, clean_unclosed hclose]
  · rw [scanPairs_bare known hcut rfl hbare, ← trimLeftChars, cutAtKey_of_not_holdsKey hholds,
      scanPairs_none known rfl, List.mem_singleton, Prod.mk.injEq] at hmain
    rw [hmain.2]
    exact clean_of_trimChars (by simp [trimChars_trimChars, trimChars_trimLeftChars])

/-- What is behind the backticks of a text that is closed early is not in the main value. -/
theorem headOf_of_closedEarly (hbefore : ∀ c ∈ before, isBlank c) (hgap : ∀ c ∈ gap, isBlank c)
    (htext : text.toList = before ++ (keyword.text.toList ++ (gap ++ ':' :: rest)))
    (hclosed : ClosedEarly rest) (line : Option Nat) :
    ∃ value options, headOf text line = .ok (keyword, value, options) ∧
      value ≠ Template.clean (.ofList rest) := by
  obtain ⟨main, hhead, hmain⟩ := exists_headOf hbefore hgap htext line
  have hcut := cutKey?_line hbefore hgap htext
  rw [← dropWhile_trim] at hcut
  refine ⟨_, _, hhead, ?_⟩
  rw [← clean_trimRightChars]
  exact clean_ne_of_closedEarly (closedEarly_trimRightChars_iff.2 hclosed) hcut hmain

/-- On the line of an action whose text holds no option, the value of the line as a pair is the text
without the backticks around it; it is the main value if and only if the text is not closed early. -/
theorem main_value_iff (hbefore : ∀ c ∈ before, isBlank c) (hgap : ∀ c ∈ gap, isBlank c)
    (htext : text.toList = before ++ (keyword.text.toList ++ (gap ++ ':' :: rest)))
    (hholds : ¬ HoldsKey (some inlineKeys) (trimLeftChars rest)) (line : Option Nat) :
    keyValue? text = some (keyword.text, Template.clean (.ofList rest)) ∧
      ∃ value options, headOf text line = .ok (keyword, value, options) ∧
        (value = Template.clean (.ofList rest) ↔ ¬ ClosedEarly rest) := by
  refine ⟨keyValue?_line hbefore hgap htext, ?_⟩
  by_cases hclosed : ClosedEarly rest
  · obtain ⟨value, options, hhead, hne⟩ := headOf_of_closedEarly hbefore hgap htext hclosed line
    exact ⟨value, options, hhead, fun heq => absurd heq hne, fun hnot => absurd hclosed hnot⟩
  · obtain ⟨main, hhead, hmain⟩ := exists_headOf hbefore hgap htext line
    have hcut := cutKey?_line hbefore hgap htext
    rw [← dropWhile_trim] at hcut
    have heq := clean_eq_of_not_closedEarly (mt closedEarly_trimRightChars_iff.1 hclosed)
      (mt holdsKey_of_trimRightChars hholds) hcut hmain
    rw [clean_trimRightChars] at heq
    exact ⟨_, _, hhead, fun _ => hclosed, fun _ => heq⟩

theorem main_value_iff_question : (∀ c ∈ [' '], isBlank c) ∧
    " log : see: `a` in".toList =
      [' '] ++ (Keyword.log.text.toList ++ ([' '] ++ ':' :: " see: `a` in".toList)) ∧
    ¬ HoldsKey (some inlineKeys) (trimLeftChars " see: `a` in".toList) ∧
    ¬ ClosedEarly " see: `a` in".toList ∧
    keyValue? " log : see: `a` in" = some ("log", "see: `a` in") ∧
    ∃ options, headOf " log : see: `a` in" (some 2) = .ok (.log, "see: `a` in", options) := by
  have hblank : ∀ c ∈ [' '], isBlank c := List.forall_mem_singleton.2 isBlank_space
  have htext : " log : see: `a` in".toList =
      [' '] ++ (Keyword.log.text.toList ++ ([' '] ++ ':' :: " see: `a` in".toList)) := by
    decide
  have hholds : ¬ HoldsKey (some inlineKeys) (trimLeftChars " see: `a` in".toList) := by decide
  have hopen : ¬ ClosedEarly " see: `a` in".toList := by
    rintro ⟨blanks, quoted, tail, hsplit, hblanks, -⟩
    have htick : isBlank '\x60' = false := by decide
    have hstart := congrArg (List.dropWhile isBlank) hsplit
    rw [dropWhile_append_cons hblanks htick] at hstart
    exact absurd (List.cons.inj hstart).1 (by decide)
  have hclean : Template.clean (.ofList " see: `a` in".toList) = "see: `a` in" := by decide
  obtain ⟨hpair, value, options, hhead, hiff⟩ := main_value_iff hblank hblank htext hholds (some 2)
  rw [hclean] at hpair hiff
  obtain rfl := hiff.2 hopen
  exact ⟨hblank, htext, hholds, hopen, hpair, options, hhead⟩

/-- What stands behind the backticks is not in the value. -/
theorem text_behind_backticks_lost :
    ¬ HoldsKey (some inlineKeys) "`a` and b".toList ∧ Template.clean "`a` and b" = "a` and b" ∧
    ∃ options, headOf "log: `a` and b" none = .ok (.log, "a", options) := by
  refine ⟨by decide, by decide, ?_⟩
  have hnone : ∀ c ∈ ([] : List Char), isBlank c := nofun
  have htext : "log: `a` and b".toList =
      [] ++ (Keyword.log.text.toList ++ ([] ++ ':' :: " `a` and b".toList)) := by decide
  have hcut : cutKey? ((trim "log: `a` and b").toList.dropWhile isBlank) =
      some ("log".toList, " `a` and b".toList) := by decide
  have hquoted : " `a` and b".toList.dropWhile isBlank =
      '\x60' :: ("a".toList ++ '\x60' :: " and b".toList) := by decide
  obtain ⟨main, hhead, hmain⟩ := exists_headOf hnone hnone htext none
  rw [scanPairs_closed _ hcut (by decide) hquoted, scanPairs_none _ (by decide)] at hmain
  have hvalue : main = "a" := (Prod.mk.inj (List.mem_singleton.1 hmain)).2
  have hclean : Template.clean "a" = "a" := by decide
  rw [hvalue, hclean] at hhead
  exact ⟨_, hhead⟩

end Heads

end BulletScript.Script
