import BulletScript.Proofs.Expr.Names
import BulletScript.Proofs.Template.Segments
import BulletScript.Proofs.Template.Slots

/-! The names that a template mentions. What a template becomes depends on the variables of these
names alone, and the text of a value is never read as a template. -/
namespace BulletScript.Template

open BulletScript.Expr (isNameRest identifiers)

/-- The identifier at the start of a token's name. -/
def firstIdentifier (name : String) : String := .ofList (name.toList.takeWhile isNameRest)

/-- The names in a placeholder: the first identifier of its token, or all identifiers of its
expression. -/
def namesIn (inner : String) : List String :=
  match tokenOf? inner with
  | .ok (some token) => [firstIdentifier token.name]
  | .ok none => identifiers (Text.trim inner)
  | .error _ => []

/-- The names that segments mention. The marker of the cursor is no name. -/
def mentionedIn : List Segment → List String
  | [] => []
  | .literal _ :: rest => mentionedIn rest
  | .placeholder inner _ :: rest =>
    (if isCursor inner then [] else namesIn inner) ++ mentionedIn rest

/-- The names that a template mentions. -/
def mentioned (template : String) : List String :=
  match segments template with
  | .ok parts => mentionedIn parts
  | .error _ => []

section Paths

variable {cs name marks head tail : List Char} {vars other : Record} {c : Char}

theorem isNameRest_iff : isNameRest c = true ↔ c.isAlphanum ∨ c = '_' := by
  simp [isNameRest]

/-- In a name without brackets, only a point ends an identifier. -/
theorem isNameChar_of_isTokenRest (h : isTokenRest c = true) : isNameChar c = isNameRest c := by
  simp only [isTokenRest, Bool.or_eq_true, beq_iff_eq] at h
  rcases h with hplain | rfl
  · rw [(plainChar hplain).1, isNameRest_iff.2 hplain]
  · rfl

theorem head?_cutIndexes (fuel : Nat) (cs : List Char) :
    ∀ c ∈ (cutIndexes fuel cs).1.head?, c = '[' := by
  unfold cutIndexes
  split
  · split <;> simp
  · simp

/-- A token's name has no bracket but behind its first part. -/
theorem cutName_eq_some (h : cutName cs = some (name, marks)) :
    ∃ head tail, name = head ++ tail ∧ (∀ c ∈ head.head?, isTokenStart c = true) ∧ head ≠ [] ∧
      (∀ c ∈ head, isTokenRest c = true) ∧ ∀ c ∈ tail.head?, c = '[' := by
  cases cs with
  | nil => cases h
  | cons c rest =>
    rw [cutName] at h
    split at h
    · next hc =>
      rw [List.span_eq_takeWhile_dropWhile] at h
      have hrest : isTokenRest c = true := by
        simp only [isTokenStart, Bool.or_eq_true] at hc
        rcases hc with hc | hc <;> simp [isTokenRest, Char.isAlphanum, hc]
      obtain ⟨rfl, -⟩ := Prod.mk.inj (Option.some.inj h)
      refine ⟨_, _, rfl, ?_, ?_, fun d hd => ?_, head?_cutIndexes _ _⟩
      · simpa [List.takeWhile_cons, hrest] using hc
      · simp [hrest]
      · exact List.all_eq_true.1 (List.all_takeWhile (p := isTokenRest)) d hd
    · cases h

/-- The first step of such a name takes its first identifier. -/
theorem takeWhile_isNameChar (hhead : ∀ c ∈ head, isTokenRest c = true)
    (htail : ∀ c ∈ tail.head?, c = '[') :
    (head ++ tail).takeWhile isNameChar = (head ++ tail).takeWhile isNameRest := by
  induction head with
  | nil =>
    cases tail with
    | nil => rfl
    | cons c tail =>
      obtain rfl := htail c rfl
      rfl
  | cons c head ih =>
    rw [List.forall_mem_cons] at hhead
    rw [List.cons_append, List.takeWhile_cons, List.takeWhile_cons,
      isNameChar_of_isTokenRest hhead.1, ih hhead.2]

theorem trim_firstIdentifier (name : String) :
    Text.trim (firstIdentifier name) = firstIdentifier name := by
  have hplain : ∀ c ∈ name.toList.takeWhile isNameRest, Text.isBlank c = false := fun c hc =>
    (plainChar (isNameRest_iff.1
      (List.all_eq_true.1 (List.all_takeWhile (p := isNameRest)) c hc))).2.1
  rw [firstIdentifier, Text.trim, String.toList_ofList, Text.trimChars_eq_self_iff.2]
  exact ⟨fun c hc => hplain c (List.mem_of_mem_head? hc),
    fun c hc => hplain c (List.mem_of_getLast? hc)⟩

/-- A token's path begins with the step to its first identifier. -/
theorem splitPath_of_cutName (h : cutName cs = some (name, marks)) :
    ∃ below : Result (List PathStep), splitPath (.ofList name) =
      (.name (firstIdentifier (.ofList name)) :: ·) <$> below := by
  obtain ⟨head, tail, rfl, hstart, hne, hhead, htail⟩ := cutName_eq_some h
  obtain ⟨c, rest, rfl⟩ := List.exists_cons_of_ne_nil hne
  have hc : isNameChar c = true := by
    have hplain : c.isAlphanum ∨ c = '_' := by
      have hc := hstart c rfl
      simp only [isTokenStart, Bool.or_eq_true, beq_iff_eq] at hc
      exact hc.imp (fun h => by simp [Char.isAlphanum, h]) id
    exact (plainChar hplain).1
  have hbracket : c ≠ '[' := by
    rintro rfl
    exact absurd hc (by decide)
  have hindex : cutIndex (c :: (rest ++ tail)) = none := by simp [cutIndex, hbracket]
  have hquoted : cutQuoted (c :: (rest ++ tail)) = none := by simp [cutQuoted, hbracket]
  have hfirst : String.ofList ((c :: rest ++ tail).takeWhile isNameChar) =
      firstIdentifier (.ofList (c :: rest ++ tail)) := by
    rw [takeWhile_isNameChar hhead htail, firstIdentifier, String.toList_ofList]
  refine ⟨pathSteps (rest ++ tail).length ((c :: rest ++ tail).dropWhile isNameChar), ?_⟩
  rw [splitPath, ← String.length_toList, String.toList_ofList, List.cons_append, List.length_cons,
    pathSteps, hindex, hquoted]
  dsimp only
  rw [if_pos hc, List.span_eq_takeWhile_dropWhile, ← List.cons_append, hfirst,
    trim_firstIdentifier]
  rfl

theorem tokenOf?_eq_some {inner : String} {token : Token} (h : tokenOf? inner = .ok (some token)) :
    ∃ name marks, cutName (Text.trimLeftChars inner.toList) = some (name, marks) ∧
      token.name = .ofList name := by
  unfold tokenOf? at h
  split at h
  · cases h
  · next name marks hcut =>
    cases hkind : kindOf inner marks with
    | error failure => simp [hkind, bind, Except.bind] at h
    | ok kind =>
      cases kind with
      | none => simp [hkind, bind, Except.bind, pure, Except.pure] at h
      | some kind =>
        simp only [hkind, bind, Except.bind, pure, Except.pure, Option.map_some, Except.ok.injEq,
          Option.some.injEq] at h
        exact ⟨name, marks, hcut, h ▸ rfl⟩

/-- What a token's path leads to is decided by the variable it begins with. -/
theorem resolvePath_congr {inner : String} {token : Token}
    (htoken : tokenOf? inner = .ok (some token))
    (h : vars.get? (.str (firstIdentifier token.name)) =
      other.get? (.str (firstIdentifier token.name))) :
    resolvePath vars token.name = resolvePath other token.name := by
  obtain ⟨name, marks, hcut, hname⟩ := tokenOf?_eq_some htoken
  obtain ⟨below, hsteps⟩ := splitPath_of_cutName hcut
  rw [← hname] at hsteps
  rw [resolvePath, resolvePath, hsteps]
  cases below with
  | error failure => rfl
  | ok steps => simp only [Functor.map, Except.map, bind, Except.bind, Value.steps?, Value.step?, h]

end Paths

section Congruence

variable {vars other : Record} {strict : Bool} {escape : String → String}

theorem placeholderValue_congr {inner : String}
    (h : ∀ name ∈ namesIn inner, vars.get? (.str name) = other.get? (.str name)) :
    placeholderValue vars strict inner = placeholderValue other strict inner := by
  unfold namesIn at h
  cases htoken : tokenOf? inner with
  | error failure => simp only [placeholderValue, htoken, bind, Except.bind]
  | ok found =>
    rw [htoken] at h
    cases found with
    | none => simp only [placeholderValue, htoken, bind, Except.bind, Expr.evaluate_congr h]
    | some token =>
      have hpath := resolvePath_congr htoken (h _ (List.mem_singleton_self _))
      simp only [placeholderValue, htoken, bind, Except.bind, hpath]

theorem segmentsText_congr {parts : List Segment}
    (h : ∀ name ∈ mentionedIn parts, vars.get? (.str name) = other.get? (.str name)) :
    segmentsText vars strict escape parts = segmentsText other strict escape parts := by
  induction parts with
  | nil => rfl
  | cons part rest ih =>
    cases part with
    | literal text => rw [segmentsText, segmentsText, ih h]; rfl
    | placeholder inner position =>
      rw [mentionedIn, List.forall_mem_append] at h
      have hhere : segmentText vars strict escape (.placeholder inner position) =
          segmentText other strict escape (.placeholder inner position) := by
        cases hcursor : isCursor inner with
        | true => simp only [segmentText, hcursor, if_true]
        | false =>
          rw [hcursor, if_neg Bool.false_ne_true] at h
          rw [segmentText, segmentText, placeholderValue_congr h.1]
      rw [segmentsText, segmentsText, hhere, ih h.2]

/-- A template becomes the same text, or fails in the same way, with any variables that have the same
values, or none, under the names that it mentions. The text of a value is put in as it is, with what
is made of the template before and after the placeholder around it: marks in a value are no marks of
a template. -/
theorem interpolateWith_congr (escape : String → String) (strict : Bool) (template : String)
    (vars other : Record)
    (h : ∀ name ∈ mentioned template, vars.get? (.str name) = other.get? (.str name)) :
    interpolateWith escape strict template vars = interpolateWith escape strict template other ∧
      ∀ front inner position back text,
        segments template = .ok (front ++ .placeholder inner position :: back) →
        isCursor inner = false → placeholderValue vars strict inner = .ok (.str text) →
        interpolateWith escape strict template vars = (do
          let before ← segmentsText vars strict escape front
          let after ← segmentsText vars strict escape back
          return before ++ escape text ++ after) := by
  constructor
  · unfold interpolateWith
    unfold mentioned at h
    cases hsegments : segments template with
    | error failure => rfl
    | ok parts =>
      rw [hsegments] at h
      exact segmentsText_congr h
  · intro front inner position back text hsegments hcursor hvalue
    rw [interpolateWith, hsegments]
    exact segmentsText_around hcursor hvalue front back

end Congruence

/-- A letter that reads a part of a value, an item under a computed place, and a note. -/
def noteTemplate : String :=
  "Dear \x7b\x7b who.name \x7d\x7d: \x7b\x7b count + rates[day] \x7d\x7d; \x7b\x7bnote\x7d\x7d."

/-- The note looks like a template that asks for another variable. -/
def noteVars (secret : String) : Record :=
  [(.str "secret", .str secret), (.str "who", .map [(.str "name", .str "Ann")]),
    (.str "count", .int 2), (.str "rates", .list [.int 5, .int 7]), (.str "day", .int 1),
    (.str "note", .str "as \x7b\x7bsecret\x7d\x7d said")]

theorem interpolateWith_congr_note :
    mentioned noteTemplate = ["who", "count", "rates", "day", "note"] ∧
      interpolateWith id true noteTemplate (noteVars "one") =
        interpolateWith id true noteTemplate (noteVars "two") ∧
      interpolateWith id true noteTemplate (noteVars "two") =
        .ok "Dear Ann: 9; as \x7b\x7bsecret\x7d\x7d said." := by
  have hmentioned : mentioned noteTemplate = ["who", "count", "rates", "day", "note"] := by
    decide +kernel
  have hagree : ∀ name ∈ mentioned noteTemplate,
      (noteVars "one").get? (.str name) = (noteVars "two").get? (.str name) := by
    rw [hmentioned]
    simp only [List.forall_mem_cons]
    exact ⟨rfl, rfl, rfl, rfl, rfl, List.forall_mem_nil _⟩
  refine ⟨hmentioned, (interpolateWith_congr id true noteTemplate _ _ hagree).1, ?_⟩
  decide +kernel

end BulletScript.Template
