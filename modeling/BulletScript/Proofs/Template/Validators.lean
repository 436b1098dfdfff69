import BulletScript.Proofs.Template.Segments
import BulletScript.Proofs.Template.Slots

/-! Tokens with a regular expression. The closing mark of a placeholder is looked for without regard
to what the placeholder holds, so an expression that ends with a brace is cut short. -/
namespace BulletScript.Template

/-- A regular expression that can stand in a token: it is read, there is something in it, no blank
around it and no closing mark in it. -/
structure IsValidator (source : String) : Prop where
  readable : ∃ regex, Regex.read {} source.toList = .ok regex
  trimmed : Trimmed source
  unclosed : Text.cutChars closeMark source.toList = none

/-- What the placeholder of a token with a regular expression holds. -/
def regexInner (name source : String) : String := name ++ ":" ++ source

/-- The token of a name with a regular expression. -/
def regexToken (name source : String) : Token :=
  ⟨name, .regex source, rawText (regexInner name source)⟩

variable {name source inner : String} {parts : List Segment}

theorem rawText_injective {inner other : String} (h : rawText inner = rawText other) :
    inner = other := by
  have hchars := congrArg String.toList h
  rw [toList_rawText, toList_rawText] at hchars
  exact String.toList_injective (List.append_cancel_left (List.append_cancel_right hchars))

theorem raw_of_requireToken {token : Token} (h : requireToken inner = .ok token) :
    token.raw = rawText inner := by
  unfold requireToken tokenOf? at h
  split at h
  · cases h
  · rename_i chars marks _
    cases hkind : kindOf inner marks with
    | error failure => simp [hkind, bind, Except.bind] at h
    | ok kind =>
      cases kind with
      | none => simp [hkind, bind, Except.bind, pure, Except.pure] at h
      | some kind =>
        simp only [hkind, bind, Except.bind, pure, Except.pure, Option.map_some,
          Except.ok.injEq] at h
        rw [← h]

/-- Every token of a pattern is that of one of its placeholders. -/
theorem exists_placeholder_of_mem {tokens : List Token} (h : tokensOf parts = .ok tokens)
    {token : Token} (hmem : token ∈ tokens) :
    ∃ inner here, .placeholder inner here ∈ parts ∧ token.raw = rawText inner := by
  induction parts generalizing tokens with
  | nil =>
    cases h
    cases hmem
  | cons part parts ih =>
    cases part with
    | literal text =>
      obtain ⟨inner, here, hpart, hraw⟩ := ih h hmem
      exact ⟨inner, here, List.mem_cons_of_mem _ hpart, hraw⟩
    | placeholder inner here =>
      rw [tokensOf] at h
      cases hfirst : requireToken inner with
      | error failure => simp [hfirst, bind, Except.bind] at h
      | ok first =>
        cases hrest : tokensOf parts with
        | error failure => simp [hfirst, hrest, bind, Except.bind] at h
        | ok rest =>
          simp only [hfirst, hrest, bind, Except.bind, pure, Except.pure, Except.ok.injEq] at h
          subst h
          rcases List.mem_cons.1 hmem with rfl | hmem
          · exact ⟨inner, here, List.mem_cons_self .., raw_of_requireToken hfirst⟩
          · obtain ⟨inner', here', hpart, hraw⟩ := ih hrest hmem
            exact ⟨inner', here', List.mem_cons_of_mem _ hpart, hraw⟩

theorem getLast?_regexInner (h : Trimmed source) (name : String) :
    (regexInner name source).toList.getLast? = source.toList.getLast? := by
  have hne := (trimmed_iff.1 h).1
  rw [regexInner, String.toList_append, List.getLast?_append, List.getLast?_eq_some_getLast hne]
  rfl

theorem isInner_regexInner (hname : IsPlainName name) (hsource : IsValidator source)
    (hlast : source.toList.getLast? ≠ some '\x7d') : IsInner (regexInner name source) := by
  have hfront : '\x7d' ∉ (name ++ ":").toList := by
    intro hmem
    rw [String.toList_append, List.mem_append] at hmem
    rcases hmem with hmem | hmem
    · rcases hname.chars.2 _ hmem with h | h
      · exact absurd h (by decide)
      · cases h
    · simp at hmem
  refine isInner_iff.2 ⟨?_, getLast?_regexInner hsource.trimmed name ▸ hlast⟩
  have hcut : Text.cutChars closeMark ((name ++ ":").toList ++ source.toList) = _ :=
    Text.cutChars_append_of_none (Text.cutChars_double_of_not_mem hfront) (.inl (by simp))
  rw [regexInner, String.toList_append, hcut, ← closeMark, hsource.unclosed]
  rfl

/-- Behind a colon stands a regular expression. -/
theorem kindOf_colon {marks : List Char} (hne : marks ≠ []) (htrim : Text.trimChars marks = marks) :
    kindOf inner (':' :: marks) = (validatorKind inner marks).map some := by
  have hcolon : Text.isBlank ':' = false := by decide
  have hplus : ¬ (':' : Char) = '+' := by decide
  unfold kindOf
  dsimp only
  rw [List.all_cons, hcolon, Bool.false_and, if_neg Bool.false_ne_true, if_neg hplus]
  rw [if_pos rfl, htrim, if_neg hne]

/-- A plain name before a colon, with a regular expression behind it, is a token. -/
theorem tokenOf?_regexInner (hname : IsPlainName name) (hsource : IsValidator source) :
    tokenOf? (regexInner name source) = .ok (some (regexToken name source)) := by
  obtain ⟨hne, hchars⟩ := hname.chars
  obtain ⟨regex, hread⟩ := hsource.readable
  have hinner : (regexInner name source).toList = name.toList ++ ':' :: source.toList := by
    simp [regexInner]
  have hspan : (name.toList ++ ':' :: source.toList).span isTokenRest =
      (name.toList, ':' :: source.toList) :=
    Text.span_append (fun c hc => (plainChar (hchars c hc)).2.2) (by simp; decide)
  obtain ⟨c, cs, hname', hstart, -⟩ := hname
  have hleft : Text.trimLeftChars (name.toList ++ ':' :: source.toList) =
      name.toList ++ ':' :: source.toList := by
    have hblank : Text.isBlank c = false := (plainChar (hchars c (by simp [hname']))).2.1
    simp [Text.trimLeftChars, hname', hblank]
  have hcut : cutName (name.toList ++ ':' :: source.toList) =
      some (name.toList, ':' :: source.toList) := by
    rw [hname', List.cons_append] at hspan ⊢
    rw [cutName, if_pos hstart, hspan]
    simp [cutIndexes]
  have htrim : Text.trimChars source.toList = source.toList := by
    simpa [Text.trim] using congrArg String.toList hsource.trimmed.2
  have hkind : kindOf (regexInner name source) (':' :: source.toList) =
      .ok (some (.regex source)) := by
    rw [kindOf_colon (trimmed_iff.1 hsource.trimmed).1 htrim, validatorKind, hread]
    simp [Except.map]
  rw [tokenOf?, hinner, hleft, hcut]
  simp [hkind, bind, Except.bind, pure, Except.pure, regexToken]

/-- A token with a regular expression, by itself, is read as it is written exactly if the expression
does not end with a brace that closes. Between readable templates, which then keep their own
segments, there must also be no opening brace in front of it. -/
theorem regexToken_kept_iff (hname : IsPlainName name) (hsource : IsValidator source) :
    (parsePattern (rawText (regexInner name source)) = .ok [regexToken name source] ↔
      source.toList.getLast? ≠ some '\x7d') ∧
    ∀ before after front back, segments before = .ok front → segments after = .ok back →
      (segments (before ++ rawText (regexInner name source) ++ after) =
          .ok (front ++ .placeholder (regexInner name source) before.length ::
            back.map (·.shift (before ++ rawText (regexInner name source)).length)) ↔
        source.toList.getLast? ≠ some '\x7d' ∧ before.toList.getLast? ≠ some '\x7b') := by
  have hlast := getLast?_regexInner hsource.trimmed name
  refine ⟨⟨fun h => ?_, fun h => ?_⟩, fun before after front back hfront hback =>
    ⟨fun h => ?_, fun ⟨hbrace, hopen⟩ => ?_⟩⟩
  · unfold parsePattern at h
    cases hparts : segments (rawText (regexInner name source)) with
    | error failure => simp [hparts, bind, Except.bind] at h
    | ok parts =>
      rw [hparts] at h
      obtain ⟨inner, here, hmem, hraw⟩ := exists_placeholder_of_mem h (List.mem_cons_self ..)
      rw [← hlast, rawText_injective hraw]
      exact (segmentsFrom_tidy hparts).getLast?_inner hmem
  · have hone := segments_rawText (isInner_regexInner hname hsource h)
    simp [parsePattern, hone, tokensOf, requireToken, tokenOf?_regexInner hname hsource, bind,
      Except.bind, pure, Except.pure]
  · have htidy := segmentsFrom_tidy h
    have hwritten : rawChars front = before.toList := segments_written hfront
    exact ⟨hlast ▸ htidy.getLast?_inner (List.mem_append_right _ (List.mem_cons_self ..)),
      hwritten ▸ htidy.getLast?_front⟩
  · have hone := segments_rawText (isInner_regexInner hname hsource hbrace)
    have hmiddle := segments_append hfront hone (.inl hopen)
    have hclosed : Apart (before ++ rawText (regexInner name source)).toList after.toList :=
      .inl (by simp [toList_rawText, closeMark])
    rw [segments_append hmiddle hback hclosed]
    simp only [List.map_cons, List.map_nil, Segment.shift, Nat.zero_add, joinSegments_placeholder,
      joinSegments_concat, String.length_append]

theorem regexToken_kept_iff_digits : IsPlainName "id" ∧ IsValidator "\\d+" ∧
    parsePattern "\x7b\x7bid:\\d+\x7d\x7d" =
      .ok [⟨"id", .regex "\\d+", "\x7b\x7bid:\\d+\x7d\x7d"⟩] := by
  have hname : IsPlainName "id" := ⟨'i', ['d'], rfl, by decide, by simp⟩
  have hsource : IsValidator "\\d+" :=
    ⟨⟨_, rfl⟩, ⟨by decide, by decide +kernel⟩, by decide +kernel⟩
  exact ⟨hname, hsource, (regexToken_kept_iff hname hsource).1.2 (by decide +kernel)⟩

/-- The last brace of a repetition is taken for one of the closing mark. -/
theorem regexToken_cut_short : IsPlainName "year" ∧ IsValidator "\\d\x7b4\x7d" ∧
    parsePattern (rawText (regexInner "year" "\\d\x7b4\x7d")) =
      .ok [⟨"year", .regex "\\d\x7b4", "\x7b\x7byear:\\d\x7b4\x7d\x7d"⟩] ∧
    parsePattern (rawText (regexInner "year" "\\d\x7b4\x7d")) ≠
      .ok [regexToken "year" "\\d\x7b4\x7d"] := by
  have hname : IsPlainName "year" := ⟨'y', ['e', 'a', 'r'], rfl, by decide, by simp⟩
  have hsource : IsValidator "\\d\x7b4\x7d" :=
    ⟨⟨_, rfl⟩, ⟨by decide, by decide +kernel⟩, by decide +kernel⟩
  exact ⟨hname, hsource, by decide +kernel, by decide +kernel⟩

end BulletScript.Template
