import BulletScript.Proofs.Shell.Quoting

/-! Values in the commands of templates. A value that stands outside of quotes, with no name in front
of it, cannot change how a command is read. What a value may be elsewhere is said by what the shell is
in where the value begins. -/
namespace BulletScript.Shell

open Template

/-- A part of a command: text of the template, or a value. -/
inductive Piece where
  | literal (text : String)
  | value (text : String)
  deriving Repr, DecidableEq

def Piece.text : Piece → String
  | .literal text => text
  | .value text => quote text

def Piece.marks : Piece → List Mark
  | .literal text => literalMarks text.toList
  | .value text => quotedMarks text

/-- The characters that a value brings into a command. -/
def Piece.fromValue : Piece → List Char
  | .literal _ => []
  | .value text => text.toList

/-- The text of a command before any shell reads it. -/
def commandText (pieces : List Piece) : String := .join (pieces.map Piece.text)

/-- A command with the characters marked that come from a value. -/
def commandMarks (pieces : List Piece) : List Mark := pieces.flatMap Piece.marks

/-- The part of a command that is made of a segment. -/
def pieceOf (vars : Record) (strict : Bool) : Segment → Result Piece
  | .literal text => .ok (.literal text)
  | .placeholder inner _ =>
    if isCursor inner then .ok (.literal cursorMarker)
    else do return .value (← placeholderValue vars strict inner).templateText

/-- The parts of the command that is made of a template. -/
def piecesOf (strict : Bool) (template : String) (vars : Record) : Result (List Piece) := do
  (← segments template).mapM (pieceOf vars strict)

/-- Whether the shell is outside of quotes, with no name begun, in front of each value. It depends on
the text of the template alone. -/
def Open : Quoting → List Segment → Prop
  | _, [] => True
  | q, .literal text :: rest => Open (q.after text.toList) rest
  | q, .placeholder inner _ :: rest =>
    if isCursor inner then Open (q.after cursorMarker.toList) rest
    else (q = .plain .blank ∨ q = .plain .word) ∧ Open (.plain .word) rest

section Commands

variable {template command : String} {vars : Record} {strict : Bool} {q : Quoting} {p : Place}
  {pieces : List Piece} {parts : List Segment}

theorem Piece.marks_text (piece : Piece) : piece.marks.map (·.1) = piece.text.toList := by
  cases piece with
  | literal text => simp [Piece.marks, Piece.text, literalMarks, Function.comp_def]
  | value text => exact quotedMarks_text text

theorem commandMarks_text (pieces : List Piece) :
    (commandMarks pieces).map (·.1) = (commandText pieces).toList := by
  induction pieces with
  | nil => rfl
  | cons piece pieces ih =>
    have htext : commandText (piece :: pieces) = piece.text ++ commandText pieces := by
      simp [commandText, String.join_cons]
    rw [commandMarks, List.flatMap_cons, List.map_append, Piece.marks_text, htext, String.toList_append,
      ← ih]
    rfl

/-- The marked characters of a command are those of its values, in order. -/
theorem commandMarks_value (pieces : List Piece) :
    ((commandMarks pieces).filter (·.2)).map (·.1) = pieces.flatMap Piece.fromValue := by
  induction pieces with
  | nil => rfl
  | cons piece pieces ih =>
    rw [commandMarks, List.flatMap_cons, List.filter_append, List.map_append, List.flatMap_cons, ← ih]
    refine congrArg (· ++ _) ?_
    cases piece with
    | literal text => simp [Piece.marks, Piece.fromValue, literalMarks]
    | value text => exact quotedMarks_value text

theorem segmentText_quote (segment : Segment) :
    segmentText vars strict quote segment = Piece.text <$> pieceOf vars strict segment := by
  cases segment with
  | literal text => rfl
  | placeholder inner position =>
    rw [segmentText, pieceOf]
    split
    · rfl
    · cases placeholderValue vars strict inner <;> rfl

theorem segmentsText_quote (parts : List Segment) :
    segmentsText vars strict quote parts = commandText <$> parts.mapM (pieceOf vars strict) := by
  induction parts with
  | nil => rfl
  | cons segment parts ih =>
    rw [segmentsText, segmentText_quote, ih, List.mapM_cons]
    cases pieceOf vars strict segment with
    | error f => rfl
    | ok piece =>
      cases parts.mapM (pieceOf vars strict) with
      | error f => rfl
      | ok pieces => simp [commandText, String.join_cons, bind, Except.bind, pure, Except.pure]

/-- A command is its parts with the values quoted. -/
theorem interpolateWith_quote (strict : Bool) (template : String) (vars : Record) :
    interpolateWith quote strict template vars = commandText <$> piecesOf strict template vars := by
  unfold interpolateWith piecesOf
  cases segments template with
  | error f => rfl
  | ok parts => exact segmentsText_quote parts

theorem intact_cons (q : Quoting) (piece : Piece) (pieces : List Piece) :
    Intact q (commandMarks (piece :: pieces)) ↔
      (∀ text, piece = .value text → Harmless q text) ∧
        Intact (q.after piece.text.toList) (commandMarks pieces) := by
  rw [commandMarks, List.flatMap_cons]
  cases piece with
  | literal text => exact (intact_literal q text.toList _).trans (by simp [Piece.text, commandMarks])
  | value text => exact (intact_quoted_append q text _).trans (by simp [Piece.text, commandMarks])

theorem commandText_cons (piece : Piece) (pieces : List Piece) :
    (commandText (piece :: pieces)).toList = piece.text.toList ++ (commandText pieces).toList := by
  simp [commandText, String.join_cons]

/-- The values of a command mean themselves as long as each is harmless where it stands. -/
theorem intact_commandMarks (q : Quoting) (pieces : List Piece) :
    Intact q (commandMarks pieces) ↔ ∀ front text back, pieces = front ++ .value text :: back →
      Harmless (q.after (commandText front).toList) text := by
  induction pieces generalizing q with
  | nil => simp [commandMarks, Intact]
  | cons piece pieces ih =>
    rw [intact_cons, ih]
    constructor
    · rintro ⟨hpiece, hpieces⟩ front text back heq
      cases front with
      | nil =>
        obtain ⟨rfl, -⟩ := List.cons.inj heq
        exact hpiece text rfl
      | cons first front =>
        obtain ⟨rfl, hrest⟩ := List.cons.inj heq
        rw [commandText_cons, Quoting.after_append]
        exact hpieces front text back hrest
    · intro h
      refine ⟨?_, fun front text back heq => ?_⟩
      · rintro text rfl
        exact h [] text pieces rfl
      · have hpiece := h (piece :: front) text back (by rw [heq]; rfl)
        rwa [commandText_cons, Quoting.after_append] at hpiece

theorem mapM_pieceOf_cons {segment : Segment}
    (h : (segment :: parts).mapM (pieceOf vars strict) = .ok pieces) :
    ∃ piece rest, pieceOf vars strict segment = .ok piece ∧
      parts.mapM (pieceOf vars strict) = .ok rest ∧ pieces = piece :: rest := by
  rw [List.mapM_cons] at h
  cases hpiece : pieceOf vars strict segment with
  | error f =>
    rw [hpiece] at h
    cases h
  | ok piece =>
    cases hrest : parts.mapM (pieceOf vars strict) with
    | error f =>
      rw [hpiece, hrest] at h
      cases h
    | ok rest =>
      rw [hpiece, hrest] at h
      cases h
      exact ⟨piece, rest, rfl, rfl, rfl⟩

/-- A template with its placeholders outside of quotes makes intact commands, whatever the values. -/
theorem intact_of_open (hopen : Open q parts) (h : parts.mapM (pieceOf vars strict) = .ok pieces) :
    Intact q (commandMarks pieces) := by
  induction parts generalizing q pieces with
  | nil =>
    cases h
    trivial
  | cons segment parts ih =>
    obtain ⟨piece, rest, hpiece, hrest, rfl⟩ := mapM_pieceOf_cons h
    rw [intact_cons]
    cases segment with
    | literal text =>
      cases hpiece
      exact ⟨fun _ hvalue => (by cases hvalue), ih hopen hrest⟩
    | placeholder inner position =>
      rw [pieceOf] at hpiece
      rw [Open] at hopen
      split at hpiece
      next hcursor =>
        rw [if_pos hcursor] at hopen
        cases hpiece
        exact ⟨fun _ hvalue => (by cases hvalue), ih hopen hrest⟩
      next hcursor =>
        rw [if_neg hcursor] at hopen
        obtain ⟨hplain, hopen⟩ := hopen
        cases hvalue : placeholderValue vars strict inner with
        | error f =>
          rw [hvalue] at hpiece
          cases hpiece
        | ok v =>
          rw [hvalue] at hpiece
          cases hpiece
          obtain ⟨p, hp, rfl⟩ : ∃ p : Place, (p = .blank ∨ p = .word) ∧ q = .plain p := by
            rcases hplain with rfl | rfl
            · exact ⟨.blank, .inl rfl, rfl⟩
            · exact ⟨.word, .inr rfl, rfl⟩
          refine ⟨fun _ _ => harmless_plain hp _, ?_⟩
          rw [Piece.text, after_quote hp]
          exact ih hopen hrest

/-- In the command that is made of a template, with every value quoted, the characters of the values
mean themselves exactly if each value is harmless where it stands; and they do for all values if the
template has its placeholders outside of quotes, with no name begun. -/
theorem values_intact_iff (h : interpolateWith quote strict template vars = .ok command) :
    ∃ parts pieces, segments template = .ok parts ∧
      parts.mapM (pieceOf vars strict) = .ok pieces ∧
      (commandMarks pieces).map (·.1) = command.toList ∧
      ((commandMarks pieces).filter (·.2)).map (·.1) = pieces.flatMap Piece.fromValue ∧
      (Intact (.plain .blank) (commandMarks pieces) ↔
        ∀ front text back, pieces = front ++ .value text :: back →
          Harmless (Quoting.after (.plain .blank) (commandText front).toList) text) ∧
      (Open (.plain .blank) parts → Intact (.plain .blank) (commandMarks pieces)) := by
  rw [interpolateWith_quote, piecesOf] at h
  cases hparts : segments template with
  | error f =>
    rw [hparts] at h
    cases h
  | ok parts =>
    cases hpieces : parts.mapM (pieceOf vars strict) with
    | error f =>
      rw [hparts] at h
      change commandText <$> parts.mapM (pieceOf vars strict) = .ok command at h
      rw [hpieces] at h
      cases h
    | ok pieces =>
      rw [hparts] at h
      change commandText <$> parts.mapM (pieceOf vars strict) = .ok command at h
      rw [hpieces] at h
      cases h
      exact ⟨parts, pieces, rfl, hpieces, commandMarks_text pieces, commandMarks_value pieces,
        intact_commandMarks _ pieces, fun hopen => intact_of_open hopen hpieces⟩

end Commands

/-- A value that would be two commands. -/
def pairVars : Record := [(.str "x", .str "a; b")]

/-- Outside of quotes it is one word. -/
theorem values_intact_iff_word :
    interpolateWith quote true "echo \x7b\x7bx\x7d\x7d" pairVars = .ok "echo 'a; b'" ∧
      ∃ parts pieces, segments "echo \x7b\x7bx\x7d\x7d" = .ok parts ∧ Open (.plain .blank) parts ∧
        parts.mapM (pieceOf pairVars true) = .ok pieces ∧
        (commandMarks pieces).map (·.1) = "echo 'a; b'".toList ∧
        Intact (.plain .blank) (commandMarks pieces) := by
  have hcommand : interpolateWith quote true "echo \x7b\x7bx\x7d\x7d" pairVars = .ok "echo 'a; b'" := by
    decide +kernel
  obtain ⟨parts, pieces, hparts, hpieces, htext, -, -, hintact⟩ := values_intact_iff hcommand
  have hsegments : segments "echo \x7b\x7bx\x7d\x7d" = .ok [.literal "echo ", .placeholder "x" 5] := by
    decide +kernel
  have hopen : Open (.plain .blank) parts := by
    rw [hsegments] at hparts
    cases hparts
    exact ⟨.inl rfl, trivial⟩
  exact ⟨hcommand, parts, pieces, hparts, hopen, hpieces, htext, hintact hopen⟩

/-- In quotes of the template the quotes of the value close them, and what follows is a command. -/
theorem not_intact_in_quotes :
    ∃ pieces, piecesOf true "echo '\x7b\x7bx\x7d\x7d'" pairVars = .ok pieces ∧
      interpolateWith quote true "echo '\x7b\x7bx\x7d\x7d'" pairVars = .ok "echo ''a; b''" ∧
      (commandMarks pieces).map (·.1) = "echo ''a; b''".toList ∧
      ¬ Intact (.plain .blank) (commandMarks pieces) :=
  ⟨[.literal "echo '", .value "a; b", .literal "'"], by decide +kernel, by decide +kernel,
    by decide +kernel, by decide +kernel⟩

end BulletScript.Shell
