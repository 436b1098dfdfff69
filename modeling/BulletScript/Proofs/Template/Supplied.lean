import BulletScript.Proofs.Template.Cutting

/-! What a successful extraction has for the tokens that must not be left out: a text with something in
it, or of a list such texts. A list is judged by the part of the text that it takes, which must not be
blank, and not by its items: of a part that holds nothing but delimiters and blanks an empty list is
made. -/
namespace BulletScript.Template

open Regex

/-- The values that supply a token: a text, or of a list at least one, each with something in it and no
blank around it. -/
inductive Supplies : TokenKind → Value → Prop
  | text {kind : TokenKind} {s : String} : (∀ delimiter, kind ≠ .list delimiter) → Trimmed s →
      Supplies kind (.str s)
  | list {delimiter : String} {items : List String} : items ≠ [] → (∀ item ∈ items, Trimmed item) →
      Supplies (.list delimiter) (.list (items.map .str))

/-- The parts of a text that the groups of a pattern hold, where the pattern matches all of it. -/
def IsMatch (text pattern : String) (pieces : List Piece) : Prop :=
  ∃ segs tokens r m, segments pattern = .ok segs ∧ tokensOf segs = .ok tokens ∧
    patternRegex segs tokens = .ok r ∧ fullMatch r text.toList.toArray = some m ∧
      pieces = tokens.zipIdx.map fun (token, i) => ⟨token, captured r text.toList.toArray m i⟩

namespace Piece

/-- Unless the token is a list there is nothing to ask for; between the delimiters of a list there must
be something that is not blank. -/
def HasItem (piece : Piece) : Prop :=
  ∀ delimiter, piece.token.kind = .list delimiter →
    ∃ item ∈ Text.split delimiter (Text.trim piece.text), Text.isBlankText item = false

/-- The last one of its name that has a value. -/
def IsLast (pieces : List Piece) (piece : Piece) : Prop :=
  ∃ front back, pieces = front ++ piece :: back ∧ piece.value.isSome ∧
    ∀ later ∈ back, later.token.name = piece.token.name → later.value = none

end Piece

section Items

variable {delimiter found item : String} {kind : TokenKind} {piece : Piece} {v : Value}

theorem trimmed_of_mem_listItems (h : item ∈ listItems delimiter found) : Trimmed item := by
  obtain ⟨hmem, hne⟩ := List.mem_filter.1 h
  obtain ⟨part, -, rfl⟩ := List.mem_map.1 hmem
  exact ⟨of_decide_eq_true hne, Text.trim_trim part⟩

theorem listItems_ne_nil_iff : listItems delimiter found ≠ [] ↔
    ∃ item ∈ Text.split delimiter found, Text.isBlankText item = false := by
  simp [listItems, List.filter_eq_nil_iff, Text.trim_eq_empty_iff_isBlankText]

theorem Supplies.ne_nil {items : List Value} (h : Supplies kind (.list items)) : items ≠ [] := by
  cases h with
  | list hne _ => simpa using hne

/-- The value of a piece supplies its token, except for a list without an item. -/
theorem Piece.supplies (h : piece.value = some v) (hitem : piece.HasItem) :
    Supplies piece.token.kind v := by
  unfold Piece.value at h
  dsimp only at h
  split at h
  · cases h
  · next hne =>
    split at h
    · next delimiter hkind =>
      cases h
      rw [hkind]
      exact .list (listItems_ne_nil_iff.2 (hitem delimiter hkind)) fun _ => trimmed_of_mem_listItems
    · next hother =>
      cases h
      exact .text hother ⟨hne, Text.trim_trim piece.text⟩

/-- A list that supplies some token has an item. -/
theorem Piece.hasItem (h : piece.value = some v) (hv : Supplies kind v) : piece.HasItem := by
  intro delimiter hkind
  unfold Piece.value at h
  simp only [hkind] at h
  split at h
  · cases h
  · cases h
    exact listItems_ne_nil_iff.1 (by simpa using hv.ne_nil)

end Items

section Names

variable {pieces : List Piece} {piece : Piece}

/-- Where a piece has a value, some piece is the last of that name. -/
theorem Piece.exists_isLast (hpiece : piece ∈ pieces) (hvalue : piece.value.isSome) :
    ∃ last, Piece.IsLast pieces last ∧ last.token.name = piece.token.name := by
  obtain ⟨last, hlast⟩ : ∃ last, pieces.reverse.find?
      (fun p => p.token.name = piece.token.name && p.value.isSome) = some last := by
    rw [← Option.isSome_iff_exists, List.find?_isSome]
    exact ⟨piece, List.mem_reverse.2 hpiece, by simp [hvalue]⟩
  obtain ⟨htest, back, front, heq, hback⟩ := List.find?_eq_some_iff_append.1 hlast
  simp only [Bool.and_eq_true, decide_eq_true_eq] at htest
  refine ⟨last, ⟨front.reverse, back.reverse, ?_, htest.2, fun later hlater hname => ?_⟩, htest.1⟩
  · rw [← List.reverse_reverse pieces, heq]
    simp
  · have hnot := hback later (List.mem_reverse.1 hlater)
    simpa [hname, htest.1] using hnot

theorem Piece.IsLast.mem (h : Piece.IsLast pieces piece) : piece ∈ pieces := by
  obtain ⟨front, back, rfl, -⟩ := h
  simp

theorem Piece.IsLast.isSome (h : Piece.IsLast pieces piece) : piece.value.isSome := by
  obtain ⟨front, back, -, hvalue, -⟩ := h
  exact hvalue

/-- A name has the value of the last piece. -/
theorem Piece.IsLast.lookup (h : Piece.IsLast pieces piece) :
    (pieceEntries pieces).reverse.lookup piece.token.name = piece.value := by
  obtain ⟨front, back, rfl, hvalue, hback⟩ := h
  obtain ⟨v, hv⟩ := Option.isSome_iff_exists.1 hvalue
  have hlater : (pieceEntries back).reverse.lookup piece.token.name = none := by
    rw [List.lookup_eq_none_iff]
    intro entry hentry
    obtain ⟨later, hlater, hentry⟩ := List.mem_filterMap.1 (List.mem_reverse.1 hentry)
    obtain ⟨w, hw, rfl⟩ := Option.map_eq_some_iff.1 hentry
    rw [bne_iff_ne]
    intro hname
    cases (hback later hlater hname.symm).symm.trans hw
  have hentries : pieceEntries (front ++ piece :: back) =
      pieceEntries front ++ (piece.token.name, v) :: pieceEntries back := by
    simp [pieceEntries, hv]
  rw [hentries, List.reverse_append, List.reverse_cons, List.lookup_append, List.lookup_append,
    hlater, hv]
  simp

end Names

section Extraction

variable {text pattern : String} {e : Extraction} {pieces pieces' : List Piece}

theorem IsMatch.unique (h : IsMatch text pattern pieces) (h' : IsMatch text pattern pieces') :
    pieces = pieces' := by
  obtain ⟨segs, tokens, r, m, hsegs, htokens, hr, hm, rfl⟩ := h
  obtain ⟨segs', tokens', r', m', hsegs', htokens', hr', hm', rfl⟩ := h'
  cases hsegs.symm.trans hsegs'
  cases htokens.symm.trans htokens'
  cases hr.symm.trans hr'
  cases hm.symm.trans hm'
  rfl

theorem trim_captured (r : Regex) (chars : Array Char) (m : Match) (index : Nat) :
    Text.trim (captured r chars m index) = captured r chars m index := by
  unfold captured
  split
  · exact Text.trim_trim _
  · rfl

theorem pieces_of_match (tokens : List Token) (r : Regex) (chars : Array Char) (m : Match) :
    ((tokens.zipIdx.map fun (token, i) => (⟨token, captured r chars m i⟩ : Piece)).map
        fun piece => (piece.token, Text.trim piece.text)) =
      tokens.zipIdx.map fun (token, i) => (token, captured r chars m i) := by
  simp [Function.comp_def, trim_captured]

theorem map_token_pieces (tokens : List Token) (found : Nat → String) :
    (tokens.zipIdx.map fun (token, i) => (⟨token, found i⟩ : Piece)).map (·.token) = tokens := by
  simp [Function.comp_def, List.zipIdx_map_fst]

theorem IsMatch.mem_tokens {tokens : List Token} (h : IsMatch text pattern pieces)
    (hparse : parsePattern pattern = .ok tokens) {piece : Piece} (hpiece : piece ∈ pieces) :
    piece.token ∈ tokens := by
  obtain ⟨segs, tokens', r, m, hsegs, htokens, -, -, rfl⟩ := h
  simp only [parsePattern, hsegs, bind, Except.bind, htokens, Except.ok.injEq] at hparse
  subst hparse
  have hmem := List.mem_map_of_mem (f := Piece.token) hpiece
  rwa [map_token_pieces] at hmem

/-- An extraction that succeeds found nothing to be needed, or has the values of the pieces of a match,
in which each token that is needed has one. -/
theorem exists_of_extract (h : extract text pattern = .ok e) (hsuccess : e.error = none) :
    ∃ tokens, parsePattern pattern = .ok tokens ∧
      ((∀ token ∈ tokens, token.isOptional = true) ∨
        ∃ pieces, IsMatch text pattern pieces ∧ pieces.map (·.token) = tokens ∧
          (∀ piece ∈ pieces, piece.token.isOptional = false → piece.value.isSome) ∧
          e.values = Record.update [] ((pieceEntries pieces).map fun e => (.str e.1, e.2))) := by
  cases hsegs : segments pattern with
  | error failure =>
    simp only [extract, hsegs, bind, Except.bind] at h
    cases failure <;> cases h
    cases hsuccess
  | ok segs =>
    cases htokens : tokensOf segs with
    | error failure =>
      simp only [extract, hsegs, htokens, bind, Except.bind] at h
      cases failure <;> cases h
      cases hsuccess
    | ok tokens =>
      have hparse : parsePattern pattern = .ok tokens := by
        simp only [parsePattern, hsegs, bind, Except.bind, htokens]
      refine ⟨tokens, hparse, ?_⟩
      simp only [extract, hsegs, htokens, bind, Except.bind, pure, Except.pure] at h
      split at h
      · next hnil =>
        rw [hnil]
        exact .inl (List.forall_mem_nil _)
      · rw [matchTokens] at h
        split at h
        · cases h
        · cases h
          cases hsuccess
        · next r hr =>
          dsimp only at h
          split at h
          · split at h
            · next hall => exact .inl (List.all_eq_true.1 hall)
            · cases h
              cases hsuccess
          · next m hm =>
            cases h
            rw [← pieces_of_match] at hsuccess ⊢
            obtain ⟨hneeded, hvalues⟩ := collect_pieces hsuccess
            exact .inr ⟨_, ⟨segs, tokens, r, m, hsegs, htokens, hr, hm, rfl⟩,
              map_token_pieces tokens _, hneeded, hvalues⟩

/-- Each token that is needed has a value that supplies it: its own, or that of another token of its
name. -/
def AllSupplied (values : Record) (tokens : List Token) : Prop :=
  ∀ token ∈ tokens, token.isOptional = false →
    ∃ v, values.get? (.str token.name) = some v ∧
      ∃ other ∈ tokens, other.name = token.name ∧ Supplies other.kind v

/-- Where a text is matched, no list from which a needed token's name has its value is without an
item. -/
def ListsHaveItems (text pattern : String) (tokens : List Token) : Prop :=
  ∀ pieces, IsMatch text pattern pieces → ∀ last, Piece.IsLast pieces last →
    (∃ token ∈ tokens, token.isOptional = false ∧ token.name = last.token.name) → last.HasItem

/-- In a successful extraction each token that is needed takes a part of the text that is not blank. Each
has a value, a text or a list that is not empty, if and only if there is an item in the part that each
such list takes. -/
theorem required_supplied_iff (h : extract text pattern = .ok e) (hsuccess : e.error = none) :
    ∃ tokens, parsePattern pattern = .ok tokens ∧
      (∀ pieces, IsMatch text pattern pieces → ∀ piece ∈ pieces, piece.token.isOptional = false →
        Text.trim piece.text ≠ "") ∧
      (AllSupplied e.values tokens ↔ ListsHaveItems text pattern tokens) := by
  obtain ⟨tokens, hparse, hall | ⟨pieces, hmatch, rfl, hneeded, hvalues⟩⟩ :=
    exists_of_extract h hsuccess
  · have hnone {token : Token} (htoken : token ∈ tokens) : token.isOptional ≠ false := by
      simp [hall token htoken]
    exact ⟨tokens, hparse,
      fun _ hmatch _ hpiece hoptional => absurd hoptional (hnone (hmatch.mem_tokens hparse hpiece)),
      fun _ _ _ _ _ ⟨_, htoken, hoptional, _⟩ => absurd hoptional (hnone htoken),
      fun _ _ htoken hoptional => absurd hoptional (hnone htoken)⟩
  · have hlookup {last : Piece} (hlast : Piece.IsLast pieces last) :
        e.values.get? (.str last.token.name) = last.value := by
      rw [hvalues, Record.get?_update_last, hlast.lookup]
      exact Option.or_none
    refine ⟨_, hparse, fun pieces' hmatch' piece hpiece hoptional hblank => ?_,
      fun hsupplied pieces' hmatch' last hlast ⟨token, htoken, hoptional, hname⟩ => ?_,
      fun hitems token htoken hoptional => ?_⟩
    · obtain rfl := hmatch.unique hmatch'
      have hvalue := hneeded piece hpiece hoptional
      rw [Piece.value_eq_none_iff.2 hblank] at hvalue
      cases hvalue
    · obtain rfl := hmatch.unique hmatch'
      obtain ⟨v, hv, other, -, -, hsupplies⟩ := hsupplied token htoken hoptional
      rw [hname, hlookup hlast] at hv
      exact last.hasItem hv hsupplies
    · obtain ⟨piece, hpiece, rfl⟩ := List.mem_map.1 htoken
      obtain ⟨last, hlast, hname⟩ := Piece.exists_isLast hpiece (hneeded piece hpiece hoptional)
      obtain ⟨v, hv⟩ := Option.isSome_iff_exists.1 hlast.isSome
      have hitem := hitems pieces hmatch last hlast ⟨_, htoken, hoptional, hname.symm⟩
      refine ⟨v, ?_, last.token, List.mem_map_of_mem hlast.mem, hname, last.supplies hv hitem⟩
      rw [← hname, hlookup hlast, hv]

theorem exists_extraction {test : Extraction → Bool}
    (h : (extract text pattern).toOption.any test = true) :
    ∃ e, extract text pattern = .ok e ∧ test e = true := by
  cases hresult : extract text pattern with
  | error failure =>
    rw [hresult] at h
    cases h
  | ok e =>
    rw [hresult] at h
    exact ⟨e, rfl, h⟩

/-- A list, and a name that is checked. -/
def bylinePattern : String := "\x7b\x7btags+:,\x7d\x7d by \x7b\x7bname:\\w+\x7d\x7d"

def bylineTokens : List Token :=
  [⟨"tags", .list ",", rawText "tags+:,"⟩, ⟨"name", .regex "\\w+", rawText "name:\\w+"⟩]

def hasByline (e : Extraction) : Bool :=
  e.error.isNone && match e.values.get? "tags", e.values.get? "name" with
    | some (.list [.str "a", .str "b"]), some (.str "Ann") => true
    | _, _ => false

theorem allSupplied_byline {e : Extraction} (h : hasByline e = true) :
    e.error = none ∧ AllSupplied e.values bylineTokens := by
  obtain ⟨hnone, hvalues⟩ := Bool.and_eq_true_iff.1 h
  refine ⟨Option.isNone_iff_eq_none.1 hnone, ?_⟩
  split at hvalues
  · next htags hname =>
    have hshown : ∀ item ∈ ["a", "b"], Trimmed item := by simp only [Trimmed]; decide
    have hlist : Supplies (.list ",") (.list (["a", "b"].map .str)) := .list (by decide) hshown
    have htext : Supplies (.regex "\\w+") (.str "Ann") :=
      .text (by simp) ⟨by decide, by decide⟩
    intro token htoken _
    rcases List.mem_pair.1 htoken with rfl | rfl
    · exact ⟨_, htags, _, htoken, rfl, hlist⟩
    · exact ⟨_, hname, _, htoken, rfl, htext⟩
  · cases hvalues

/-- The name is there, and there is a tag. -/
theorem required_supplied_iff_byline : ∃ e, extract "a,, b by Ann" bylinePattern = .ok e ∧
    e.error = none ∧ parsePattern bylinePattern = .ok bylineTokens ∧
      (∀ pieces, IsMatch "a,, b by Ann" bylinePattern pieces → ∀ piece ∈ pieces,
        piece.token.isOptional = false → Text.trim piece.text ≠ "") ∧
      AllSupplied e.values bylineTokens ∧
      ListsHaveItems "a,, b by Ann" bylinePattern bylineTokens := by
  have hbyline : (extract "a,, b by Ann" bylinePattern).toOption.any hasByline = true := by
    decide +kernel
  obtain ⟨e, he, htest⟩ := exists_extraction hbyline
  obtain ⟨hsuccess, hsupplied⟩ := allSupplied_byline htest
  have hparse : parsePattern bylinePattern = .ok bylineTokens := by decide +kernel
  obtain ⟨tokens, hparse', hshown, hiff⟩ := required_supplied_iff he hsuccess
  obtain rfl := Except.ok.inj (hparse.symm.trans hparse')
  exact ⟨e, he, hsuccess, hparse, hshown, hsupplied, hiff.1 hsupplied⟩

def tagsPattern : String := "\x7b\x7btags+:,\x7d\x7d"

def tagsToken : Token := ⟨"tags", .list ",", rawText "tags+:,"⟩

/-- Of a comma alone an empty list is made. -/
def hasNoTags (e : Extraction) : Bool :=
  e.error.isNone && match e.values.get? "tags" with
    | some (.list []) => true
    | _ => false

theorem comma_not_supplied : ∃ e, extract "," tagsPattern = .ok e ∧ e.error = none ∧
    parsePattern tagsPattern = .ok [tagsToken] ∧ ¬ AllSupplied e.values [tagsToken] := by
  have hempty : (extract "," tagsPattern).toOption.any hasNoTags = true := by decide +kernel
  obtain ⟨e, he, htest⟩ := exists_extraction hempty
  obtain ⟨hnone, hvalue⟩ := Bool.and_eq_true_iff.1 htest
  refine ⟨e, he, Option.isNone_iff_eq_none.1 hnone, by decide +kernel, fun hall => ?_⟩
  obtain ⟨v, hv, other, -, -, hsupplies⟩ := hall tagsToken (List.mem_singleton.2 rfl) (by decide)
  have hget : e.values.get? (.str "tags") = some v := hv
  rw [hget] at hvalue
  split at hvalue
  · next heq =>
    cases heq
    exact hsupplies.ne_nil rfl
  · cases hvalue

end Extraction

end BulletScript.Template
