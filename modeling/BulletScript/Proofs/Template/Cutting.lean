import BulletScript.Proofs.Template.Capture
import BulletScript.Proofs.Value.Record

/-! What is extracted stands in the text. A text that matches a pattern can be cut along the literals
of the pattern, and the value that is extracted for a token is made of the token's part of it. -/
namespace BulletScript.Template

open Regex

/-- A token with its part of a text. -/
structure Piece where
  token : Token
  text : String

/-- The value of a token in its part of a text; a blank part has none. -/
def Piece.value (piece : Piece) : Option Value :=
  let found := Text.trim piece.text
  if found = "" then none
  else match piece.token.kind with
    | .list delimiter => some (.list ((listItems delimiter found).map .str))
    | _ => some (.str found)

theorem Piece.value_eq_none_iff {piece : Piece} :
    piece.value = none ↔ Text.trim piece.text = "" := by
  unfold Piece.value
  by_cases hblank : Text.trim piece.text = ""
  · simp [hblank]
  · simp only [hblank, iff_false]
    cases piece.token.kind <;> simp

/-- The text of segments with parts of it in the places of the placeholders. -/
def filled : List Segment → List String → String
  | .literal text :: rest, parts => text ++ filled rest parts
  | .placeholder .. :: rest, part :: parts => part ++ filled rest parts
  | _, _ => ""

section Matching

variable {text : Array Char} {pos stop index : Nat} {caps caps' : Captures} {rest : Rest}
  {found : Nat × Captures} {segs : List Segment} {tokens : List Token}

theorem exists_of_run_loop {min : Nat} {beforeLiteral : Bool} (hpos : pos ≤ text.size)
    (h : run text (.loop min none (if beforeLiteral then .lazily else .greedy) anyChar) pos caps
      rest = some found) :
    ∃ stop, pos ≤ stop ∧ stop ≤ text.size ∧ rest stop caps = some found := by
  cases beforeLiteral <;> exact exists_of_repeatFrom_any hpos h

/-- A token takes some of the text, and the rest matches behind it. -/
theorem exists_of_run_captureNode {kind : TokenKind} {beforeLiteral : Bool} (hpos : pos ≤ text.size)
    (h : run text (captureNode kind beforeLiteral) pos caps rest = some found) :
    ∃ stop, pos ≤ stop ∧ stop ≤ text.size ∧ rest stop caps = some found := by
  have hplain (h : run text (captureNode .simple beforeLiteral) pos caps rest = some found) :
      ∃ stop, pos ≤ stop ∧ stop ≤ text.size ∧ rest stop caps = some found := by
    cases beforeLiteral with
    | true => exact exists_of_repeatFrom_any hpos h
    | false =>
      rw [captureNode, if_neg Bool.false_ne_true, run, run, matchChar] at h
      cases hchar : text[pos]? with
      | none => simp [hchar] at h
      | some c =>
        obtain ⟨hlt, -⟩ := Array.getElem?_eq_some_iff.1 hchar
        simp only [hchar, Option.ite_none_right_eq_some] at h
        obtain ⟨stop, hle, hsize, hrest⟩ := exists_of_repeatFrom_any hlt h.2
        exact ⟨stop, Nat.le_of_succ_le hle, hsize, hrest⟩
  cases kind with
  | simple => exact hplain h
  | regex validator => exact hplain h
  | greedy => exact exists_of_run_loop hpos h
  | list delimiter => exact exists_of_run_loop hpos h
  | optional => exact exists_of_run_loop hpos h

/-- The rest of a text from a position is what stands up to another one and the rest from there. -/
theorem drop_eq_slice_append (text : Array Char) (h : pos ≤ stop) :
    text.toList.drop pos = (slice text pos stop).toList ++ text.toList.drop stop := by
  obtain ⟨n, rfl⟩ := Nat.exists_eq_add_of_le h
  rw [slice, String.toList_ofList, Array.toList_extract, List.extract_eq_take_drop,
    Nat.add_sub_cancel_left, ← List.drop_drop, List.take_append_drop]

/-- The nodes of segments match a text only where it is made of the literals and of parts that the
groups of the tokens hold. -/
theorem exists_spans (htokens : tokensOf segs = .ok tokens) (hpos : pos ≤ text.size)
    (h : run text (.ofList (segmentNodes index segs tokens)) pos caps (atEnd text) =
      some (stop, caps')) :
    ∃ spans : Captures, caps' = spans.reverse ++ caps ∧
      spans.map (·.1) = List.range' (index + 1) tokens.length ∧
      text.toList.drop pos =
        (filled segs (spans.map fun span => slice text span.2.1 span.2.2)).toList := by
  induction segs generalizing index tokens pos caps with
  | nil =>
    cases htokens
    change (if pos = text.size then some (pos, caps) else none) = _ at h
    obtain ⟨hend, hcaps⟩ := Option.ite_none_right_eq_some.1 h
    cases hcaps
    refine ⟨[], rfl, rfl, ?_⟩
    rw [List.drop_eq_nil_of_le (by simp [hend])]
    rfl
  | cons segment segs ih =>
    cases segment with
    | literal t =>
      rw [segmentNodes, run_ofList_cons, literalNode, run_chars] at h
      obtain ⟨hliteral, h⟩ := Option.ite_none_right_eq_some.1 h
      rw [List.isPrefixOf_iff_prefix, List.prefix_iff_eq_append, List.drop_drop] at hliteral
      have hlength := congrArg List.length hliteral
      simp only [List.length_append, List.length_drop, Array.length_toList] at hlength
      obtain ⟨spans, hcaps, hspans, htext⟩ := ih htokens (by omega) h
      refine ⟨spans, hcaps, hspans, ?_⟩
      rw [← hliteral, htext, filled, String.toList_append]
    | placeholder inner position =>
      obtain ⟨token, others, rfl, hothers⟩ := tokensOf_placeholder_ok htokens
      rw [segmentNodes, run_ofList_cons, run] at h
      obtain ⟨after, hle, hsize, h⟩ := exists_of_run_captureNode hpos h
      obtain ⟨spans, hcaps, hspans, htext⟩ := ih hothers hsize h
      refine ⟨(index + 1, pos, after) :: spans, ?_, ?_, ?_⟩
      · rw [hcaps, List.reverse_cons, List.append_assoc, List.singleton_append]
      · rw [List.map_cons, hspans, List.length_cons, List.range'_succ]
      · rw [drop_eq_slice_append text hle, htext, List.map_cons, filled, String.toList_append]

/-- A text that a pattern matches is cut along its literals, and what is captured for the tokens is
their parts without the blanks around them. -/
theorem exists_pieces {string : String} (htokens : tokensOf segs = .ok tokens)
    (hkinds : ∀ token ∈ tokens, token.Unvalidated) {r : Regex} {m : Match}
    (hr : patternRegex segs tokens = .ok r)
    (hmatch : fullMatch r string.toList.toArray = some m) :
    ∃ pieces : List Piece, pieces.map (·.token) = tokens ∧
      string = filled segs (pieces.map (·.text)) ∧
      (tokens.zipIdx.map fun (token, i) => (token, captured r string.toList.toArray m i)) =
        pieces.map fun piece => (piece.token, Text.trim piece.text) := by
  rw [patternRegex_of_unvalidated htokens hkinds, Except.ok.injEq] at hr
  subst hr
  obtain ⟨⟨stop, caps⟩, hrun, rfl⟩ := Option.map_eq_some_iff.1 hmatch
  obtain ⟨spans, rfl, hspans, htext⟩ := exists_spans htokens (Nat.zero_le _) hrun
  have hlength : spans.length = tokens.length := by
    have := congrArg List.length hspans
    rwa [List.length_map, List.length_range'] at this
  let part (span : Nat × Nat × Nat) : String := slice string.toList.toArray span.2.1 span.2.2
  let pieces := (tokens.zip spans).map fun entry => (⟨entry.1, part entry.2⟩ : Piece)
  have hparts : pieces.map (·.text) = spans.map part := by
    have hsnd : (tokens.zip spans).map Prod.snd = spans := List.map_snd_zip (Nat.le_of_eq hlength)
    calc pieces.map (·.text) = ((tokens.zip spans).map Prod.snd).map part := by
          simp only [pieces, List.map_map]
          rfl
      _ = spans.map part := congrArg (List.map part) hsnd
  refine ⟨pieces, ?_, ?_, List.ext_getElem (by simp [pieces, hlength]) fun j hj _ => ?_⟩
  · rw [List.map_map]
    exact List.map_fst_zip (Nat.le_of_eq hlength.symm)
  · rw [hparts]
    apply String.toList_injective
    simpa [part] using htext
  · have hj' : j < spans.length := by simpa [hlength] using hj
    have hnumber : spans[j].1 = j + 1 := by
      have hget := congrArg (·[j]?) hspans
      simp only [List.getElem?_map, List.getElem?_eq_getElem hj', Option.map_some] at hget
      rw [List.getElem?_range' (by omega)] at hget
      have := Option.some.inj hget
      omega
    have hmem : (j + 1, spans[j].2.1, spans[j].2.2) ∈ spans := by
      rw [← hnumber]
      exact List.getElem_mem hj'
    simp only [pieces, part, List.getElem_map, List.getElem_zipIdx, List.getElem_zip, Nat.zero_add,
      Prod.mk.injEq, true_and]
    exact captured_of_mem hspans hmem _ _ _ _

end Matching

section Values

variable {pieces : List Piece} {values : Record}

/-- The values of pieces by the names of their tokens. -/
def pieceEntries (pieces : List Piece) : List (String × Value) :=
  pieces.filterMap fun piece => piece.value.map (piece.token.name, ·)

/-- The value of a token from its part: one that may be left out is if its part is blank, and any
other must not be blank. -/
theorem tokenValue_piece {piece : Piece} {v : Option Value}
    (h : tokenValue piece.token (Text.trim piece.text) = .ok v) :
    v = piece.value ∧ (piece.token.isOptional = false → piece.value.isSome) := by
  unfold tokenValue at h
  unfold Piece.value
  by_cases hblank : Text.trim piece.text = ""
  · rw [if_pos hblank] at h
    cases hoptional : piece.token.isOptional with
    | true =>
      rw [hoptional] at h
      cases h
      simp [hblank]
    | false =>
      rw [hoptional] at h
      cases h
  · rw [if_neg hblank] at h
    simp only [if_neg hblank]
    cases hkind : piece.token.kind with
    | regex validator =>
      simp only [hkind] at h
      split at h
      · cases h
        exact ⟨rfl, fun _ => rfl⟩
      · cases h
    | _ =>
      simp only [hkind, Except.ok.injEq] at h
      exact ⟨h.symm, fun _ => rfl⟩

/-- Pieces that are collected without a fault add their values in order. -/
theorem collect_pieces
    (h : (collect values
      (pieces.map fun piece => (piece.token, Text.trim piece.text))).error = none) :
    (∀ piece ∈ pieces, piece.token.isOptional = false → piece.value.isSome) ∧
      (collect values (pieces.map fun piece => (piece.token, Text.trim piece.text))).values =
        values.update ((pieceEntries pieces).map fun e => (.str e.1, e.2)) := by
  induction pieces generalizing values with
  | nil => exact ⟨nofun, rfl⟩
  | cons piece rest ih =>
    rw [List.map_cons, collect] at h ⊢
    cases hvalue : tokenValue piece.token (Text.trim piece.text) with
    | error reason =>
      rw [hvalue] at h
      cases h
    | ok v =>
      obtain ⟨rfl, hneeded⟩ := tokenValue_piece hvalue
      rw [hvalue] at h
      rw [List.forall_mem_cons, and_assoc]
      refine ⟨hneeded, ?_⟩
      cases hv : piece.value with
      | none =>
        rw [hv] at h
        simpa [pieceEntries, hv] using ih h
      | some v =>
        rw [hv] at h
        simpa [pieceEntries, hv, Record.update] using ih h

theorem pieceEntries_cons (piece : Piece) (rest : List Piece) :
    pieceEntries (piece :: rest) =
      (piece.value.map (piece.token.name, ·)).toList ++ pieceEntries rest := by
  cases hv : piece.value <;> simp [pieceEntries, hv]

theorem names_pieceEntries (pieces : List Piece) :
    ((pieceEntries pieces).map (·.1)).Sublist (pieces.map (·.token.name)) := by
  induction pieces with
  | nil => exact .refl _
  | cons piece rest ih =>
    rw [pieceEntries_cons, List.map_append, List.map_cons]
    cases piece.value with
    | none => exact ih.cons _
    | some v => exact ih.cons_cons _

/-- Among pieces with different names each value is under its name; where there is none there is no
entry. -/
theorem lookup_pieceEntries (hnames : (pieces.map (·.token.name)).Nodup) {piece : Piece}
    (hpiece : piece ∈ pieces) : (pieceEntries pieces).lookup piece.token.name = piece.value := by
  induction pieces with
  | nil => cases hpiece
  | cons first rest ih =>
    rw [List.map_cons, List.nodup_cons] at hnames
    rw [pieceEntries_cons]
    rcases List.mem_cons.1 hpiece with rfl | hrest
    · cases hv : piece.value with
      | some v => simp
      | none =>
        simpa using Record.lookup_of_not_mem fun hname =>
          hnames.1 ((names_pieceEntries rest).subset hname)
    · have hne : piece.token.name ≠ first.token.name := fun heq =>
        hnames.1 (heq ▸ List.mem_map_of_mem hrest)
      cases hv : first.value with
      | some v => simp [List.lookup_cons, beq_false_of_ne hne, ih hnames.2 hrest]
      | none => simpa using ih hnames.2 hrest

end Values

/-- What is extracted from a text stands in it. Unless all tokens may be left out and none has a value,
the text is the literals of the pattern with a part of the text in the place of each token. The value of
a token is its part without the blanks around it, that of a list the items between the delimiters in it
that are not blank; there are no other values. Only a token that may be left out can have a blank part,
and it has no value exactly if it has one. -/
theorem extract_cuts {text pattern : String} {segs : List Segment} {tokens : List Token}
    {e : Extraction} (hsegments : segments pattern = .ok segs) (htokens : tokensOf segs = .ok tokens)
    (hne : tokens ≠ []) (hkinds : ∀ token ∈ tokens, token.Unvalidated)
    (hnames : (tokens.map (·.name)).Nodup) (h : extract text pattern = .ok e)
    (hsuccess : e.error = none) :
    ((∀ token ∈ tokens, token.isOptional = true) ∧ e.values = []) ∨
      ∃ pieces : List Piece, pieces.map (·.token) = tokens ∧
        text = filled segs (pieces.map (·.text)) ∧
        e.values = (pieceEntries pieces).map (fun entry => (.str entry.1, entry.2)) ∧
        ∀ piece ∈ pieces,
          e.values.get? (.str piece.token.name) = piece.value ∧
            (Text.trim piece.text = "" ↔ piece.value = none) ∧
            (Text.trim piece.text = "" → piece.token.isOptional = true) := by
  have hregex := patternRegex_of_unvalidated htokens hkinds
  have hextract : extract text pattern = matchTokens text pattern segs tokens := by
    simp only [extract, hsegments, htokens, bind, Except.bind, pure, Except.pure]
    rw [if_neg hne]
  rw [hextract, matchTokens, hregex] at h
  dsimp only at h
  cases hmatch : fullMatch ⟨.ofList (segmentNodes 0 segs tokens), tokens.length,
      groupNames tokens.length⟩ text.toList.toArray with
  | none =>
    rw [hmatch] at h
    dsimp only at h
    split at h
    · rename_i hall
      cases h
      exact .inl ⟨fun token htoken => List.all_eq_true.1 hall token htoken, rfl⟩
    · cases h
      cases hsuccess
  | some m =>
    obtain ⟨pieces, rfl, htext, hcaptured⟩ := exists_pieces htokens hkinds hregex hmatch
    rw [hmatch] at h
    simp only [hcaptured, Except.ok.injEq] at h
    subst h
    rw [List.map_map] at hnames
    obtain ⟨hneeded, hvalues⟩ := collect_pieces hsuccess
    have hnodup := hnames.sublist (names_pieceEntries pieces)
    refine .inr ⟨pieces, rfl, htext, ?_, fun piece hpiece => ⟨?_, ?_, fun hblank => ?_⟩⟩
    · have hempty : ∀ entry ∈ ([] : Record), ∀ e ∈ pieceEntries pieces,
          entry.1.same (.str e.1) = false := by simp
      rw [hvalues, Record.update_of_nodup hnodup hempty, List.nil_append]
    · rw [hvalues, Record.get?_update_str hnodup, lookup_pieceEntries hnames hpiece]
      exact Option.or_none
    · exact Piece.value_eq_none_iff.symm
    · cases hoptional : piece.token.isOptional with
      | true => rfl
      | false =>
        have hsome := hneeded piece hpiece hoptional
        rw [Piece.value_eq_none_iff.2 hblank] at hsome
        cases hsome

/-- A pattern with brackets in its literals and a token that may be left out at its end. -/
def noticePattern : String :=
  "To \x7b\x7bname\x7d\x7d [\x7b\x7btags+:,\x7d\x7d]: \x7b\x7bnote?\x7d\x7d"

def noticeSegments : List Segment :=
  [.literal "To ", .placeholder "name" 3, .literal " [", .placeholder "tags+:," 13, .literal "]: ",
    .placeholder "note?" 27]

def noticeTokens : List Token :=
  [⟨"name", .simple, rawText "name"⟩, ⟨"tags", .list ",", rawText "tags+:,"⟩,
    ⟨"note", .optional, rawText "note?"⟩]

theorem extract_cuts_notice :
    segments noticePattern = .ok noticeSegments ∧ tokensOf noticeSegments = .ok noticeTokens ∧
      noticeTokens ≠ [] ∧ (∀ token ∈ noticeTokens, token.Unvalidated) ∧
      (noticeTokens.map (·.name)).Nodup ∧
      ∃ e, extract "To Ann [a,, b]: " noticePattern = .ok e ∧ e.error = none ∧
        ∃ pieces : List Piece, pieces.map (·.token) = noticeTokens ∧
          "To Ann [a,, b]: " = filled noticeSegments (pieces.map (·.text)) ∧
          ∀ piece ∈ pieces, e.values.get? (.str piece.token.name) = piece.value := by
  have hsegments : segments noticePattern = .ok noticeSegments := by decide +kernel
  have htokens : tokensOf noticeSegments = .ok noticeTokens := by decide +kernel
  have hkinds : ∀ token ∈ noticeTokens, token.Unvalidated := by
    rw [noticeTokens, List.forall_mem_cons, List.forall_mem_cons, List.forall_mem_singleton]
    exact ⟨nofun, nofun, nofun⟩
  have hnames : (noticeTokens.map (·.name)).Nodup := by decide
  have hmatches : (extract "To Ann [a,, b]: " noticePattern).toOption.map (·.error) = some none := by
    decide +kernel
  obtain ⟨e, he, hsuccess⟩ := Option.map_eq_some_iff.1 hmatches
  have hextract : extract "To Ann [a,, b]: " noticePattern = .ok e := by
    cases hresult : extract "To Ann [a,, b]: " noticePattern with
    | error failure => rw [hresult] at he; cases he
    | ok found => rw [hresult] at he; exact congrArg Except.ok (Option.some.inj he)
  refine ⟨hsegments, htokens, List.cons_ne_nil _ _, hkinds, hnames, e, hextract, hsuccess, ?_⟩
  obtain ⟨hall, -⟩ | ⟨pieces, hpieces, htext, -, hvalues⟩ :=
    extract_cuts hsegments htokens (List.cons_ne_nil _ _) hkinds hnames hextract hsuccess
  · exact absurd (hall ⟨"name", .simple, rawText "name"⟩ (by simp [noticeTokens])) (by decide)
  · exact ⟨pieces, hpieces, htext, fun piece hpiece => (hvalues piece hpiece).1⟩

end BulletScript.Template
