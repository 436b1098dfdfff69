import BulletScript.Proofs.Template.Slots
import BulletScript.Regex.Matcher
import Mathlib.Data.List.Nodup

/-! Where sequences, literals and loops over all characters match: a literal where it stands, a lazy
loop up to the first place from which the rest matches, a greedy loop up to the end if the rest
matches there. Wherever such a loop is left, the rest matches from there. -/
namespace BulletScript.Regex

variable {text : Array Char} {pos stop : Nat} {caps : Captures} {rest : Rest} {found : Nat × Captures}

theorem run_ofList_cons (text : Array Char) (node : Node) (nodes : List Node) (pos : Nat)
    (caps : Captures) (rest : Rest) :
    run text (.ofList (node :: nodes)) pos caps rest =
      run text node pos caps fun p c => run text (.ofList nodes) p c rest := by
  cases nodes with
  | nil => rfl
  | cons next nodes => rfl

/-- Literal characters match where they stand, and nowhere else. -/
theorem run_chars (text : Array Char) (cs : List Char) (pos : Nat) (caps : Captures)
    (rest : Rest) :
    run text (.ofList (cs.map .char)) pos caps rest =
      if cs.isPrefixOf (text.toList.drop pos) then rest (pos + cs.length) caps else none := by
  induction cs generalizing pos with
  | nil => simp [Node.ofList, run]
  | cons c cs ih =>
    rw [List.map_cons, run_ofList_cons, run, matchChar, ← Array.getElem?_toList]
    by_cases hpos : pos < text.toList.length
    · rw [List.getElem?_eq_getElem hpos, List.drop_eq_getElem_cons hpos,
        List.isPrefixOf_cons_cons]
      dsimp only
      rw [ih]
      by_cases hc : text.toList[pos] = c
      · simp [hc, Nat.add_assoc, Nat.add_comm 1]
      · rw [beq_false_of_ne hc, beq_false_of_ne (Ne.symm hc)]
        rfl
    · have hle : text.toList.length ≤ pos := Nat.le_of_not_lt hpos
      rw [List.getElem?_eq_none hle, List.drop_eq_nil_of_le hle]
      rfl

/-- A character of any kind. -/
theorem run_any (text : Array Char) (pos : Nat) (caps : Captures) (rest : Rest) :
    run text (.any true) pos caps rest = if pos < text.size then rest (pos + 1) caps else none := by
  rw [run, matchChar]
  by_cases hpos : pos < text.size
  · simp [hpos]
  · simp [hpos]

/-- A lazy loop goes on as long as the rest fails, and stops where it first matches. -/
theorem repeatFrom_lazily {min count fuel : Nat} {last : Option Nat} (hcount : min ≤ count)
    (hlast : last ≠ some pos) (hfuel : stop - pos < fuel) (hpos : pos ≤ stop)
    (hstop : stop ≤ text.size) (hrest : rest stop caps = some found)
    (hbefore : ∀ p, pos ≤ p → p < stop → rest p caps = none) :
    repeatFrom (run text (.any true)) min none true fuel count last pos caps rest = some found := by
  induction fuel generalizing pos count last with
  | zero => omega
  | succ fuel ih =>
    rw [repeatFrom, if_neg (by omega)]
    rcases Nat.eq_or_lt_of_le hpos with rfl | hlt
    · simp [hrest]
    · have hagain := @ih (pos + 1) (count + 1) (some pos) (by omega) (by simp) (by omega) hlt
        fun p hp => hbefore p (by omega)
      simp [hbefore pos (Nat.le_refl _) hlt, hlast, run_any, show pos < text.size by omega, hagain]

/-- A greedy loop goes on to the end. -/
theorem repeatFrom_greedy {min count fuel : Nat} {last : Option Nat} (hcount : min ≤ count)
    (hlast : last ≠ some pos) (hfuel : text.size - pos < fuel) (hpos : pos ≤ text.size)
    (hrest : rest text.size caps = some found) :
    repeatFrom (run text (.any true)) min none false fuel count last pos caps rest =
      some found := by
  induction fuel generalizing pos count last with
  | zero => omega
  | succ fuel ih =>
    rw [repeatFrom, if_neg (by omega)]
    rcases Nat.eq_or_lt_of_le hpos with rfl | hlt
    · simp [run_any, hrest]
    · have hagain := @ih (pos + 1) (count + 1) (some pos) (by omega) (by simp) (by omega) hlt
      simp [hlast, run_any, hlt, hagain]

/-- At least one character, up to the first place from which the rest matches. -/
theorem run_lazily (hpos : pos < stop) (hstop : stop ≤ text.size)
    (hrest : rest stop caps = some found)
    (hbefore : ∀ p, pos < p → p < stop → rest p caps = none) :
    run text (.loop 1 none .lazily (.any true)) pos caps rest = some found := by
  rw [run]
  change repeatFrom _ 1 none true (1 + (text.size - pos) + 1 + 1) 0 none pos caps rest = _
  rw [repeatFrom, if_pos Nat.one_pos, run_any, if_pos (by omega)]
  exact repeatFrom_lazily (Nat.le_refl _) (by simp) (by omega) hpos hstop hrest hbefore

/-- At least one character, up to the end. -/
theorem run_greedy (hpos : pos < text.size) (hrest : rest text.size caps = some found) :
    run text (.loop 1 none .greedy (.any true)) pos caps rest = some found := by
  rw [run]
  change repeatFrom _ 1 none false (1 + (text.size - pos) + 1 + 1) 0 none pos caps rest = _
  rw [repeatFrom, if_pos Nat.one_pos, run_any, if_pos hpos]
  exact repeatFrom_greedy (Nat.le_refl _) (by simp) (by omega) hpos hrest

/-- A character that is not blank and all that follow it. -/
theorem run_nonblank_greedy (hpos : pos < text.size) (hblank : Text.isBlank text[pos] = false)
    (hrest : rest text.size caps = some found) :
    run text (.seq (.set ⟨false, [.category .space true], false, false⟩)
      (.loop 0 none .greedy (.any true))) pos caps rest = some found := by
  have hset : CharSet.contains ⟨false, [.category .space true], false, false⟩ text[pos] = true := by
    simp [CharSet.contains, SetItem.contains, Category.contains, hblank]
  rw [run, run, matchChar, Array.getElem?_eq_getElem hpos]
  dsimp only
  rw [if_pos hset, run]
  exact repeatFrom_greedy (Nat.le_refl _) (by simp) (by omega) hpos hrest

/-- A loop over all characters leaves the groups as they are, and the rest matches where it stops. -/
theorem exists_of_repeatFrom_any {min fuel count : Nat} {lazily : Bool} {last : Option Nat}
    (hpos : pos ≤ text.size)
    (h : repeatFrom (run text (.any true)) min none lazily fuel count last pos caps rest =
      some found) :
    ∃ stop, pos ≤ stop ∧ stop ≤ text.size ∧ rest stop caps = some found := by
  induction fuel generalizing pos count last with
  | zero => exact ⟨pos, Nat.le_refl _, hpos, h⟩
  | succ fuel ih =>
    -- one more round, from the next position on
    have hround {last : Option Nat} (h : run text (.any true) pos caps (fun p c =>
        repeatFrom (run text (.any true)) min none lazily fuel (count + 1) last p c rest) =
          some found) :
        ∃ stop, pos ≤ stop ∧ stop ≤ text.size ∧ rest stop caps = some found := by
      rw [run_any] at h
      split at h
      · rename_i hlt
        obtain ⟨stop, hle, hsize, hrest⟩ := ih hlt h
        exact ⟨stop, Nat.le_of_succ_le hle, hsize, hrest⟩
      · cases h
    rw [repeatFrom] at h
    by_cases hmin : count < min
    · rw [if_pos hmin] at h
      exact hround h
    · rw [if_neg hmin] at h
      -- whichever of the two is tried first, it is one of them that matches
      dsimp only at h
      split at h
      · rcases Option.or_eq_some_iff.1 h with hstop | ⟨-, hagain⟩
        · exact ⟨pos, Nat.le_refl _, hpos, hstop⟩
        · exact hround (Option.ite_none_right_eq_some.1 hagain).2
      · rcases Option.or_eq_some_iff.1 h with hagain | ⟨-, hstop⟩
        · exact hround (Option.ite_none_right_eq_some.1 hagain).2
        · exact ⟨pos, Nat.le_refl _, hpos, hstop⟩

end BulletScript.Regex

/-! The regular expression of a pattern, and what its groups hold when it matches the text that the
pattern was filled with: the texts of the slots. The expression is that of any pattern whose tokens
have no regular expressions of their own. -/
namespace BulletScript.Template

open Regex

variable {lead : String} {slot : Slot} {slots : List Slot} {vars : Record} {kind : TokenKind}
  {value : Value}

/-- A literal as nodes; an empty one is left out. -/
def literalNodes (s : String) : List Node := if s = "" then [] else [literalNode s.toList]

/-- The nodes of slots, of which the first has the given index. -/
def slotNodes (index : Nat) : List Slot → List Node
  | [] => []
  | slot :: rest =>
    .group (index + 1) (captureNode slot.token.kind (slot.behind ≠ "")) ::
      (literalNodes slot.behind ++ slotNodes (index + 1) rest)

/-- A token of a kind that has no regular expression of its own. -/
def Token.Unvalidated (token : Token) : Prop := ∀ validator, token.kind ≠ .regex validator

/-- The nodes of segments with their tokens, of which the first has the given index. -/
def segmentNodes (index : Nat) : List Segment → List Token → List Node
  | .literal text :: rest, tokens => literalNode text.toList :: segmentNodes index rest tokens
  | .placeholder .. :: rest, token :: tokens =>
    .group (index + 1) (captureNode token.kind (startsWithLiteral rest)) ::
      segmentNodes (index + 1) rest tokens
  | _, _ => []

def groupName (index : Nat) : String := "t" ++ toString index

theorem groupName_injective : Function.Injective groupName := by
  intro i j h
  have hdigits := List.append_cancel_left
    ((String.toList_append ..).symm.trans ((congrArg String.toList h).trans (String.toList_append ..)))
  have hnumber := congrArg (fun ds => Nat.ofDigitChars 10 ds 0) hdigits
  simpa [Nat.toString_eq_ofList_toDigits] using hnumber

theorem lookup_of_mem {α β : Type} [BEq α] [LawfulBEq α] {entries : List (α × β)} {a : α} {b : β}
    (hnodup : (entries.map (·.1)).Nodup) (h : (a, b) ∈ entries) : entries.lookup a = some b := by
  induction entries with
  | nil => cases h
  | cons entry rest ih =>
    obtain ⟨a', b'⟩ := entry
    rw [List.map_cons, List.nodup_cons] at hnodup
    rw [List.lookup_cons]
    rcases List.mem_cons.1 h with heq | hrest
    · cases heq
      simp
    · have hne : a ≠ a' := by
        rintro rfl
        exact hnodup.1 (List.mem_map.2 ⟨(a, b), hrest, rfl⟩)
      rw [beq_false_of_ne hne]
      exact ih hnodup.2 hrest

section Building

/-- The names of the groups of the first tokens. -/
def groupNames (count : Nat) : List (String × Nat) :=
  (List.range count).map fun index => (groupName index, index + 1)

theorem lookup_groupNames {count index : Nat} (h : index < count) :
    (groupNames count).lookup (groupName index) = some (index + 1) := by
  refine lookup_of_mem ?_ (List.mem_map.2 ⟨index, List.mem_range.2 h, rfl⟩)
  rw [groupNames, List.map_map]
  exact List.nodup_range.map groupName_injective

theorem lookup_groupNames_eq_none (count : Nat) :
    (groupNames count).lookup (groupName count) = none := by
  rw [List.lookup_eq_none_iff]
  intro entry hentry
  obtain ⟨index, hindex, rfl⟩ := List.mem_map.1 hentry
  rw [bne_iff_ne]
  intro heq
  exact absurd (groupName_injective heq) (Nat.ne_of_gt (List.mem_range.1 hindex))

/-- The state of a reader that has made the groups of the first tokens. -/
structure HasGroups (s : State) (count : Nat) : Prop where
  groups : s.groups = count + 1
  names : s.names = groupNames count
  conditions : s.conditions = []
  evenBehind : s.unevenBehind = false

theorem openGroup_of_new {s : State} {name : String} (h : s.names.lookup name = none) :
    (openGroup (some name)).run s =
      .ok (s.groups, { s with groups := s.groups + 1, names := s.names ++ [(name, s.groups)] }) := by
  simp only [openGroup, StateT.run_bind, StateT.run_get, pure_bind, h]
  rfl

/-- A token opens the next group. -/
theorem tokenNode_of_unvalidated {s : State} {index : Nat} {token : Token}
    (htoken : token.Unvalidated) (hs : HasGroups s index) (beforeLiteral : Bool) :
    ∃ s', (tokenNode index token beforeLiteral).run s =
        .ok (.group (index + 1) (captureNode token.kind beforeLiteral), s') ∧
      HasGroups s' (index + 1) := by
  have hlookup : s.names.lookup ("t" ++ toString index) = none := by
    rw [hs.names]
    exact lookup_groupNames_eq_none index
  have hinner : (tokenNode index token beforeLiteral) = (do
      let group ← openGroup (some ("t" ++ toString index))
      closeGroup group (captureNode token.kind beforeLiteral)
      return .group group (captureNode token.kind beforeLiteral)) := by
    unfold tokenNode
    cases hkind : token.kind with
    | regex validator => exact absurd hkind (htoken validator)
    | _ => rfl
  rw [hinner, StateT.run_bind, openGroup_of_new hlookup, hs.groups]
  refine ⟨_, rfl, ⟨rfl, ?_, hs.conditions, hs.evenBehind⟩⟩
  change s.names ++ [("t" ++ toString index, index + 1)] = groupNames (index + 1)
  rw [hs.names, groupNames, groupNames, List.range_succ, List.map_append]
  rfl

/-- A placeholder that has a token is followed by what has the other tokens. -/
theorem tokensOf_placeholder_ok {inner : String} {position : Nat} {segs : List Segment}
    {tokens : List Token} (h : tokensOf (.placeholder inner position :: segs) = .ok tokens) :
    ∃ token rest, tokens = token :: rest ∧ tokensOf segs = .ok rest := by
  rw [tokensOf] at h
  cases htoken : requireToken inner with
  | error failure => simp [htoken, bind, Except.bind] at h
  | ok token =>
    cases hrest : tokensOf segs with
    | error failure => simp [htoken, hrest, bind, Except.bind] at h
    | ok rest =>
      simp only [htoken, hrest, bind, Except.bind, pure, Except.pure, Except.ok.injEq] at h
      exact ⟨token, rest, h.symm, rfl⟩

/-- Segments make one group for each token. -/
theorem patternNodes_of_unvalidated {s : State} {index : Nat} {segs : List Segment}
    {tokens : List Token} (htokens : tokensOf segs = .ok tokens)
    (hkinds : ∀ token ∈ tokens, token.Unvalidated) (hs : HasGroups s index) :
    ∃ s', (patternNodes index segs tokens).run s = .ok (segmentNodes index segs tokens, s') ∧
      HasGroups s' (index + tokens.length) := by
  induction segs generalizing index tokens s with
  | nil =>
    cases htokens
    exact ⟨s, rfl, hs⟩
  | cons segment rest ih =>
    cases segment with
    | literal text =>
      obtain ⟨s', hrest, hs'⟩ := ih htokens hkinds hs
      refine ⟨s', ?_, hs'⟩
      rw [patternNodes, StateT.run_bind, hrest]
      rfl
    | placeholder inner position =>
      obtain ⟨token, others, rfl, hothers⟩ := tokensOf_placeholder_ok htokens
      obtain ⟨htoken, hkinds⟩ := List.forall_mem_cons.1 hkinds
      obtain ⟨s', hnode, hs'⟩ := tokenNode_of_unvalidated htoken hs (startsWithLiteral rest)
      obtain ⟨s'', hrest, hs''⟩ := ih hothers hkinds hs'
      refine ⟨s'', ?_, by rwa [List.length_cons, Nat.add_comm others.length, ← Nat.add_assoc]⟩
      rw [patternNodes, StateT.run_bind, hnode]
      change ((patternNodes (index + 1) rest others).run s' >>= fun r => _) = _
      rw [hrest]
      rfl

/-- The regular expression of a pattern. -/
theorem patternRegex_of_unvalidated {segs : List Segment} {tokens : List Token}
    (htokens : tokensOf segs = .ok tokens) (hkinds : ∀ token ∈ tokens, token.Unvalidated) :
    patternRegex segs tokens =
      .ok ⟨.ofList (segmentNodes 0 segs tokens), tokens.length, groupNames tokens.length⟩ := by
  have hstart : HasGroups (.start {} []) 0 := ⟨rfl, rfl, rfl, rfl⟩
  obtain ⟨s, hnodes, hs⟩ := patternNodes_of_unvalidated htokens hkinds hstart
  rw [Nat.zero_add] at hs
  unfold patternRegex
  dsimp only
  rw [StateT.run_bind, hnodes]
  change ((finish (.ofList (segmentNodes 0 segs tokens))).run s).map (·.1) = _
  simp only [finish, StateT.run_bind, StateT.run_get, pure_bind, hs.conditions, List.find?_nil,
    hs.evenBehind, Bool.false_eq_true, if_false, hs.groups, hs.names, Nat.add_sub_cancel]
  rfl

theorem startsWithLiteral_behind (behind : String) (slots : List Slot) :
    startsWithLiteral (literalBefore behind.toList (slotSegments slots)) =
      decide (behind ≠ "") := by
  rw [literalBefore_eq]
  by_cases h : behind = ""
  · rw [if_pos h]
    cases slots <;> simp [slotSegments, startsWithLiteral, h]
  · simp [startsWithLiteral, h]

theorem segmentNodes_literalBefore (index : Nat) (behind : String) (segs : List Segment)
    (tokens : List Token) :
    segmentNodes index (literalBefore behind.toList segs) tokens =
      literalNodes behind ++ segmentNodes index segs tokens := by
  rw [literalBefore_eq, literalNodes]
  by_cases h : behind = ""
  · rw [if_pos h, if_pos h, List.nil_append]
  · rw [if_neg h, if_neg h]
    rfl

theorem segmentNodes_slotSegments (index : Nat) (slots : List Slot) :
    segmentNodes index (slotSegments slots) (slots.map (·.token)) = slotNodes index slots := by
  induction slots generalizing index with
  | nil => rfl
  | cons slot rest ih =>
    rw [slotSegments, List.map_cons, segmentNodes, segmentNodes_literalBefore, ih,
      startsWithLiteral_behind, slotNodes]

theorem Fits.unvalidated {token : Token} (h : Fits token.kind value) : token.Unvalidated := by
  intro validator hkind
  rw [hkind] at h
  cases h

/-- The regular expression of a pattern that is filled. -/
theorem patternRegex_patternSegments (lead : String) (hvalid : ∀ slot ∈ slots, slot.Valid) :
    patternRegex (patternSegments lead slots) (slots.map (·.token)) =
      .ok ⟨.ofList (literalNodes lead ++ slotNodes 0 slots), slots.length,
        groupNames slots.length⟩ := by
  have hkinds : ∀ token ∈ slots.map (·.token), token.Unvalidated := by
    intro token htoken
    obtain ⟨slot, hslot, rfl⟩ := List.mem_map.1 htoken
    exact (hvalid slot hslot).fits.unvalidated
  rw [patternRegex_of_unvalidated (tokensOf_patternSegments hvalid) hkinds, patternSegments,
    segmentNodes_literalBefore, segmentNodes_slotSegments, List.length_map]

end Building

/-- Where slots stand in a text from a position on, by the numbers of their groups. -/
def spansFrom (index pos : Nat) : List Slot → Captures
  | [] => []
  | slot :: rest =>
    (index + 1, pos, pos + slot.text.length) ::
      spansFrom (index + 1) (pos + slot.text.length + slot.behind.length) rest

section Matching

variable {text : Array Char} {pos index : Nat} {caps : Captures}

/-- What has to match after the last node of a pattern: nothing more. -/
def atEnd (text : Array Char) : Rest := fun p c => if p = text.size then some (p, c) else none

theorem run_literalNodes (text : Array Char) (s : String) (nodes : List Node) (pos : Nat)
    (caps : Captures) (rest : Rest) :
    run text (.ofList (literalNodes s ++ nodes)) pos caps rest =
      if s.toList.isPrefixOf (text.toList.drop pos) then
        run text (.ofList nodes) (pos + s.length) caps rest else none := by
  rw [literalNodes]
  split
  · rename_i hs
    subst hs
    simp
  · rw [List.singleton_append, run_ofList_cons, literalNode, run_chars, String.length_toList]

theorem toList_slotsText_cons (slot : Slot) (rest : List Slot) :
    (slotsText (slot :: rest)).toList =
      slot.text.toList ++ slot.behind.toList ++ (slotsText rest).toList := by
  rw [slotsText, List.map_cons, String.join_cons, ← slotsText, String.toList_append,
    String.toList_append]

/-- What follows a slot's text in a text, and what follows the literal behind it. -/
theorem drop_slot {after : List Char}
    (htext : text.toList.drop pos = slot.text.toList ++ slot.behind.toList ++ after) :
    text.toList.drop (pos + slot.text.length) = slot.behind.toList ++ after ∧
      text.toList.drop (pos + slot.text.length + slot.behind.length) = after := by
  have hbehind : text.toList.drop (pos + slot.text.length) = slot.behind.toList ++ after := by
    rw [← List.drop_drop, htext, List.append_assoc, ← String.length_toList, List.drop_left]
  refine ⟨hbehind, ?_⟩
  rw [← List.drop_drop, hbehind, ← String.length_toList, List.drop_left]

theorem captureNode_of_fits (h : Fits kind value) :
    captureNode kind true = .loop 1 none .lazily (.any true) ∧
      (captureNode kind false = .loop 1 none .greedy (.any true) ∨
        captureNode kind false = .seq (.set ⟨false, [.category .space true], false, false⟩)
          (.loop 0 none .greedy (.any true))) := by
  cases h with
  | simple _ => exact ⟨rfl, .inr rfl⟩
  | greedy _ => exact ⟨rfl, .inl rfl⟩
  | list _ _ _ => exact ⟨rfl, .inl rfl⟩

/-- A token takes its value: lazily up to the literal behind it, else all that is left. -/
theorem run_captureNode (hslot : slot.Valid) {after : List Char} {rest : Rest}
    {found : Nat × Captures} (hpos : pos ≤ text.size)
    (htext : text.toList.drop pos = slot.text.toList ++ slot.behind.toList ++ after)
    (hlast : slot.behind = "" → after = [])
    (hrest : rest (pos + slot.text.length) caps = some found)
    (hbefore : slot.behind ≠ "" →
      ∀ p, pos < p → p < pos + slot.text.length → rest p caps = none) :
    run text (captureNode slot.token.kind (slot.behind ≠ "")) pos caps rest = some found := by
  obtain ⟨hne, hhead, -⟩ := trimmed_iff.1 hslot.trimmed
  obtain ⟨hlazy, hgreedy⟩ := captureNode_of_fits hslot.fits
  obtain ⟨first, others, hfirst⟩ := List.exists_cons_of_ne_nil hne
  have hlength := congrArg List.length htext
  simp only [List.length_drop, List.length_append, Array.length_toList, String.length_toList]
    at hlength
  have hpositive : 0 < slot.text.length := by
    rw [← String.length_toList, hfirst]
    exact Nat.succ_pos _
  by_cases hbehind : slot.behind = ""
  · have hend : pos + slot.text.length = text.size := by
      rw [hlast hbehind, hbehind, String.length_empty, List.length_nil] at hlength
      omega
    have hlt : pos < text.size := by omega
    rw [hend] at hrest
    rw [decide_eq_false (not_not.2 hbehind)]
    rcases hgreedy with hgreedy | hgreedy
    · rw [hgreedy]
      exact run_greedy hlt hrest
    · rw [hgreedy]
      refine run_nonblank_greedy hlt (hhead _ ?_) hrest
      have hget := congrArg (·[0]?) htext
      simp only [List.getElem?_drop, Nat.add_zero, hfirst, Array.getElem?_toList,
        Array.getElem?_eq_getElem hlt, List.cons_append, List.getElem?_cons_zero] at hget
      rw [hfirst, Option.some.inj hget]
      rfl
  · rw [decide_eq_true hbehind, hlazy]
    exact run_lazily (by omega) (by omega) hrest (hbefore hbehind)

/-- Slots match the text that they write, each with its own part of it. -/
theorem run_slotNodes (hvalid : ∀ slot ∈ slots, slot.Valid)
    (hapart : ∀ slot ∈ slots.dropLast, slot.behind ≠ "") (hpos : pos ≤ text.size)
    (htext : text.toList.drop pos = (slotsText slots).toList) :
    run text (.ofList (slotNodes index slots)) pos caps (atEnd text) =
      some (text.size, (spansFrom index pos slots).reverse ++ caps) := by
  induction slots generalizing index pos caps with
  | nil =>
    have hend : pos = text.size := by
      have hnil : text.toList.drop pos = [] := htext
      rw [List.drop_eq_nil_iff, Array.length_toList] at hnil
      omega
    simp [slotNodes, Node.ofList, run, atEnd, hend, spansFrom]
  | cons slot rest ih =>
    have hslot := hvalid slot (List.mem_cons_self ..)
    have hapart' (s : Slot) (hs : s ∈ rest.dropLast) : s.behind ≠ "" := by
      cases rest with
      | nil => cases hs
      | cons next rest => exact hapart s (List.mem_cons_of_mem _ hs)
    have hlast (hbehind : slot.behind = "") : (slotsText rest).toList = [] := by
      cases rest with
      | nil => rfl
      | cons next rest => exact absurd hbehind (hapart slot (List.mem_cons_self ..))
    rw [toList_slotsText_cons] at htext
    obtain ⟨hskip, hskip'⟩ := drop_slot htext
    have hlength := congrArg List.length htext
    simp only [List.length_drop, List.length_append, Array.length_toList, String.length_toList]
      at hlength
    rw [slotNodes, run_ofList_cons, run]
    refine run_captureNode hslot hpos htext hlast ?_ fun hbehind p hp hstop => ?_
    · rw [run_literalNodes, hskip, if_pos (by simp),
        ih (fun s hs => hvalid s (List.mem_cons_of_mem _ hs)) hapart' (by omega) hskip']
      simp [spansFrom]
    · obtain ⟨k, rfl⟩ := Nat.exists_eq_add_of_lt hp
      have hcut := Text.cutChars_of_indexOf? (hslot.first hbehind)
      rw [run_literalNodes, Nat.add_assoc pos k 1, ← List.drop_drop, htext,
        Text.isPrefixOf_drop_eq_false hcut (by rw [String.length_toList]; omega)]
      rfl

theorem slice_of_drop {xs ys : List Char} (h : text.toList.drop pos = xs ++ ys) :
    slice text pos (pos + xs.length) = .ofList xs := by
  rw [slice, Array.toList_extract, List.extract_eq_take_drop, h, Nat.add_sub_cancel_left,
    List.take_left]

theorem map_fst_spansFrom (index pos : Nat) (slots : List Slot) :
    (spansFrom index pos slots).map (·.1) = List.range' (index + 1) slots.length := by
  induction slots generalizing index pos with
  | nil => rfl
  | cons slot rest ih => rw [spansFrom, List.map_cons, ih, List.length_cons, List.range'_succ]

/-- Each slot's part of the text is its own text. -/
theorem slice_of_mem_slots (htext : text.toList.drop pos = (slotsText slots).toList) {j : Nat}
    (hj : slots[j]? = some slot) :
    ∃ start stop, (index + 1 + j, start, stop) ∈ spansFrom index pos slots ∧
      slice text start stop = slot.text := by
  induction slots generalizing index pos j with
  | nil => cases hj
  | cons first rest ih =>
    rw [toList_slotsText_cons] at htext
    cases j with
    | zero =>
      cases hj
      rw [List.append_assoc] at htext
      refine ⟨pos, pos + slot.text.length, List.mem_cons_self .., ?_⟩
      rw [← String.length_toList, slice_of_drop htext, String.ofList_toList]
    | succ j =>
      obtain ⟨start, stop, hmem, hslice⟩ := @ih _ (index + 1) (drop_slot htext).2 _ hj
      refine ⟨start, stop, List.mem_cons_of_mem _ ?_, hslice⟩
      rwa [Nat.add_comm j, ← Nat.add_assoc]

/-- What is captured for a token is what stands where its group matched. -/
theorem captured_of_mem {spans : Captures} {count j start stop : Nat}
    (hspans : spans.map (·.1) = List.range' 1 count) (hmem : (j + 1, start, stop) ∈ spans)
    (node : Node) (groups first last : Nat) :
    captured ⟨node, groups, groupNames count⟩ text ⟨first, last, spans.reverse ++ []⟩ j =
      Text.trim (slice text start stop) := by
  have hindex : j + 1 ∈ List.range' 1 count := hspans ▸ List.mem_map.2 ⟨_, hmem, rfl⟩
  rw [List.mem_range'_1] at hindex
  have hspan : (spans.reverse ++ []).lookup (j + 1) = some (start, stop) := by
    rw [List.append_nil]
    refine lookup_of_mem ?_ (List.mem_reverse.2 hmem)
    rw [List.map_reverse, hspans, List.nodup_reverse]
    exact List.nodup_range'
  have hname : (groupNames count).lookup ("t" ++ toString j) = some (j + 1) :=
    lookup_groupNames (by omega)
  simp only [captured, hname, Match.group?, hspan, Option.map_some, Option.getD_some]

/-- What is captured for each token of a pattern is the text of its slot. -/
theorem captured_eq (hvalid : ∀ slot ∈ slots, slot.Valid)
    (htext : text.toList.drop pos = (slotsText slots).toList) {node : Node} {groups j : Nat}
    (hj : slots[j]? = some slot) :
    captured ⟨node, groups, groupNames slots.length⟩ text
      ⟨0, text.size, (spansFrom 0 pos slots).reverse ++ []⟩ j = slot.text := by
  obtain ⟨start, stop, hmem, hslice⟩ := @slice_of_mem_slots _ _ _ _ 0 htext _ hj
  rw [Nat.zero_add, Nat.add_comm] at hmem
  rw [captured_of_mem (map_fst_spansFrom 0 pos slots) hmem, hslice]
  exact (hvalid slot (List.mem_of_getElem? hj)).trimmed.2

/-- A pattern matches the text that it was filled with, and captures the texts of its slots. -/
theorem fullMatch_pattern (hvalid : ∀ slot ∈ slots, slot.Valid)
    (hapart : ∀ slot ∈ slots.dropLast, slot.behind ≠ "") {r : Regex}
    (hr : patternRegex (patternSegments lead slots) (slots.map (·.token)) = .ok r) :
    let chars := (lead ++ slotsText slots).toList.toArray
    ∃ m, fullMatch r chars = some m ∧
      ((slots.map (·.token)).zipIdx.map fun (token, i) => (token, captured r chars m i)) =
        slots.map fun slot => (slot.token, slot.text) := by
  intro chars
  rw [patternRegex_patternSegments lead hvalid, Except.ok.injEq] at hr
  have hdrop : chars.toList.drop lead.length = (slotsText slots).toList := by
    rw [List.toList_toArray, String.toList_append, ← String.length_toList, List.drop_left]
  have hsize : lead.length ≤ chars.size := by
    simp [chars, String.length_toList]
  have hrun := @run_slotNodes _ chars lead.length 0 [] hvalid hapart hsize hdrop
  refine ⟨⟨0, chars.size, (spansFrom 0 lead.length slots).reverse ++ []⟩, ?_, ?_⟩
  · rw [← hr, fullMatch]
    change (run chars _ 0 [] (atEnd chars)).map _ = _
    rw [run_literalNodes, List.drop_zero, List.toList_toArray, if_pos (by simp), Nat.zero_add, hrun]
    rfl
  · refine List.ext_getElem? fun j => ?_
    rw [← hr]
    simp only [List.getElem?_map, List.getElem?_zipIdx, Option.map_map, Nat.zero_add]
    cases hj : slots[j]? with
    | none => rfl
    | some slot =>
      simp only [Option.map_some, Function.comp_apply, Option.some.injEq, Prod.mk.injEq, true_and]
      exact captured_eq hvalid hdrop hj

end Matching

end BulletScript.Template
