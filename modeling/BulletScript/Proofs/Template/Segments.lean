import BulletScript.Proofs.Text.Search
import BulletScript.Template.Interpolate

/-! Templates and their segments: the segments of a template are its text in order, and what is
made of a template is made of its segments one after the other. Where two templates are put one behind
the other and no opening mark arises between them, the segments are those of the first and then those
of the second, and so is the text that is made of them. -/
namespace BulletScript.Template

/-- The characters of segments as they were written. -/
def rawChars (parts : List Segment) : List Char := parts.flatMap fun part => part.raw.toList

/-- Whether placeholders know how many characters are before them, `position` of them before all. -/
def Placed (position : Nat) : List Segment → Prop
  | [] => True
  | .literal text :: rest => Placed (position + text.length) rest
  | .placeholder inner here :: rest => here = position ∧ Placed (position + inner.length + 4) rest

section Written

variable {template : String} {position : Nat} {cs : List Char} {parts front back : List Segment}
  {inner : String}

@[simp] theorem rawChars_nil : rawChars [] = [] := rfl

@[simp] theorem rawChars_cons (part : Segment) (parts : List Segment) :
    rawChars (part :: parts) = part.raw.toList ++ rawChars parts := rfl

@[simp] theorem rawChars_append (front back : List Segment) :
    rawChars (front ++ back) = rawChars front ++ rawChars back := List.flatMap_append

@[simp] theorem rawChars_literalBefore (cs : List Char) (parts : List Segment) :
    rawChars (literalBefore cs parts) = cs ++ rawChars parts := by
  unfold literalBefore
  split
  · next h => rw [h, List.nil_append]
  · simp [Segment.raw]

theorem placed_literalBefore {cs : List Char} (h : Placed (position + cs.length) parts) :
    Placed position (literalBefore cs parts) := by
  unfold literalBefore
  split
  · next hnil => simpa [hnil] using h
  · simpa [Placed] using h

/-- The segments of a text are the text, and its placeholders know their places. -/
theorem segmentsFrom_written (h : segmentsFrom template position cs = .ok parts) :
    rawChars parts = cs ∧ Placed position parts := by
  fun_induction segmentsFrom template position cs generalizing parts with
  | case1 position cs hcut =>
    cases h
    have hend : Placed (position + cs.length) [] := trivial
    exact ⟨by simp, placed_literalBefore hend⟩
  | case2 => cases h
  | case3 position cs before after hopen inner rest hclose _ here =>
    rename_i ih
    cases htail : segmentsFrom template (here + inner.length + 4) rest with
    | error failure => simp [htail, bind, Except.bind] at h
    | ok tail =>
      simp only [htail, bind, Except.bind, pure, Except.pure, Except.ok.injEq] at h
      obtain ⟨hraw, hplaced⟩ := ih htail
      subst h
      constructor
      · rw [rawChars_literalBefore, rawChars_cons, hraw, Text.cutChars_eq hopen,
          Text.cutChars_eq hclose]
        simp [Segment.raw, rawText]
      · exact placed_literalBefore ⟨rfl, by simpa [here] using hplaced⟩

/-- A template that is read has its own text as its segments, written one after the other. -/
theorem segments_written (h : segments template = .ok parts) : rawChars parts = template.toList :=
  (segmentsFrom_written h).1

theorem Placed.here_eq {here : Nat}
    (h : Placed position (front ++ .placeholder inner here :: back)) :
    here = position + (rawChars front).length := by
  induction front generalizing position with
  | nil => exact h.1
  | cons part front ih =>
    cases part with
    | literal text =>
      rw [ih h, rawChars_cons, Segment.raw, List.length_append, String.length_toList, Nat.add_assoc]
    | placeholder inner _ =>
      rw [ih h.2]
      simp only [rawChars_cons, Segment.raw, rawText, openMark, closeMark, String.toList_ofList,
        List.length_append, List.length_cons, List.length_nil, String.length_toList]
      omega

/-- A placeholder whose place is behind some text of its template has this text in front of it. -/
theorem exists_around {before after : String}
    (h : segments (before ++ rawText inner ++ after) = .ok parts)
    (hmem : .placeholder inner before.length ∈ parts) :
    ∃ front back, parts = front ++ .placeholder inner before.length :: back ∧
      rawChars front = before.toList ∧ rawChars back = after.toList := by
  obtain ⟨front, back, rfl⟩ := List.append_of_mem hmem
  obtain ⟨hraw, hplaced⟩ := segmentsFrom_written h
  have hlength : before.length = (rawChars front).length := by simpa using hplaced.here_eq
  simp only [rawChars_append, rawChars_cons, Segment.raw, String.toList_append,
    List.append_assoc] at hraw
  obtain ⟨hfront, hrest⟩ := List.append_inj hraw (by rw [← hlength, String.length_toList])
  exact ⟨front, back, rfl, hfront, List.append_cancel_left hrest⟩

end Written

section Filled

variable {vars : Record} {strict : Bool} {escape : String → String} {parts : List Segment}
  {text : String}

theorem segmentsText_append (front back : List Segment) :
    segmentsText vars strict escape (front ++ back) = (do
      let before ← segmentsText vars strict escape front
      let after ← segmentsText vars strict escape back
      return before ++ after) := by
  induction front with
  | nil =>
    rw [List.nil_append]
    cases segmentsText vars strict escape back <;>
      simp [segmentsText, bind, Except.bind, pure, Except.pure]
  | cons part front ih =>
    rw [List.cons_append, segmentsText, segmentsText, ih]
    cases segmentText vars strict escape part with
    | error failure => rfl
    | ok text =>
      cases segmentsText vars strict escape front with
      | error failure => rfl
      | ok before =>
        cases segmentsText vars strict escape back with
        | error failure => rfl
        | ok after => simp [bind, Except.bind, pure, Except.pure, String.append_assoc]

/-- A placeholder with a value has its text put in its place, and what is around it does not
matter. -/
theorem segmentsText_around {inner : String} {position : Nat} {value : Value}
    (hcursor : isCursor inner = false) (hvalue : placeholderValue vars strict inner = .ok value)
    (front back : List Segment) :
    segmentsText vars strict escape (front ++ .placeholder inner position :: back) = (do
      let before ← segmentsText vars strict escape front
      let after ← segmentsText vars strict escape back
      return before ++ escape value.templateText ++ after) := by
  have hpart : segmentText vars strict escape (.placeholder inner position) =
      .ok (escape value.templateText) := by
    simp [segmentText, hcursor, hvalue, bind, Except.bind, pure, Except.pure]
  rw [segmentsText_append, segmentsText, hpart]
  cases segmentsText vars strict escape front with
  | error failure => rfl
  | ok before =>
    cases segmentsText vars strict escape back with
    | error failure => rfl
    | ok after => simp [bind, Except.bind, pure, Except.pure, String.append_assoc]

theorem segmentsText_cons_ok {part : Segment}
    (h : segmentsText vars strict escape (part :: parts) = .ok text) :
    ∃ here below, segmentText vars strict escape part = .ok here ∧
      segmentsText vars strict escape parts = .ok below ∧ text = here ++ below := by
  rw [segmentsText] at h
  cases hpart : segmentText vars strict escape part with
  | error failure => simp [hpart, bind, Except.bind] at h
  | ok here =>
    cases hparts : segmentsText vars strict escape parts with
    | error failure => simp [hpart, hparts, bind, Except.bind] at h
    | ok below =>
      simp only [hpart, hparts, bind, Except.bind, pure, Except.pure, Except.ok.injEq] at h
      exact ⟨here, below, rfl, rfl, h.symm⟩

end Filled

/-- A segment of a template that has `n` more characters in front of it. -/
def Segment.shift (n : Nat) : Segment → Segment
  | .literal text => .literal text
  | .placeholder inner position => .placeholder inner (position + n)

/-- Segments in a row. Where two literal texts meet, they are one. -/
def joinSegments : List Segment → List Segment → List Segment
  | [], more => more
  | [.literal s], .literal t :: more => .literal (s ++ t) :: more
  | part :: parts, more => part :: joinSegments parts more

/-- No opening mark arises where two texts meet. -/
def Apart (front back : List Char) : Prop :=
  front.getLast? ≠ some '\x7b' ∨ back.head? ≠ some '\x7b'

section Segmenting

variable {template : String} {position : Nat} {cs before after inner rest front back : List Char}
  {parts more : List Segment}

theorem cutChars_openMark_append (h : Text.cutChars openMark front = none)
    (hapart : Apart front back) : Text.cutChars openMark (front ++ back) =
      (Text.cutChars openMark back).map fun (before, after) => (front ++ before, after) :=
  Text.cutChars_append_of_none h hapart

theorem segmentsFrom_of_none (h : Text.cutChars openMark cs = none) :
    segmentsFrom template position cs = .ok (literalBefore cs []) := by
  rw [segmentsFrom]
  split
  · rfl
  · next hopen => simp [h] at hopen

theorem segmentsFrom_of_open (hopen : Text.cutChars openMark cs = some (before, after))
    (hclose : Text.cutChars closeMark after = none) :
    segmentsFrom template position cs =
      .error (.pattern (.unterminatedPlaceholder template (position + before.length))) := by
  rw [segmentsFrom]
  split
  · next h => simp [h] at hopen
  · next h =>
    cases hopen.symm.trans h
    split
    · rfl
    · next h => simp [hclose] at h

theorem segmentsFrom_of_closed (hopen : Text.cutChars openMark cs = some (before, after))
    (hclose : Text.cutChars closeMark after = some (inner, rest)) :
    segmentsFrom template position cs =
      (segmentsFrom template (position + before.length + inner.length + 4) rest).map fun tail =>
        literalBefore before (.placeholder (.ofList inner) (position + before.length) :: tail) := by
  rw [segmentsFrom]
  split
  · next h => simp [h] at hopen
  · next h =>
    cases hopen.symm.trans h
    split
    · next h => simp [h] at hclose
    · next h =>
      cases hclose.symm.trans h
      dsimp only
      cases segmentsFrom template (position + before.length + inner.length + 4) rest <;> rfl

/-- The segments of a text do not depend on what is told of it when it cannot be read; its
placeholders move with it. -/
theorem segmentsFrom_shift (h : segmentsFrom template position cs = .ok parts) (other : String)
    (n : Nat) : segmentsFrom other (position + n) cs = .ok (parts.map (·.shift n)) := by
  fun_induction segmentsFrom template position cs generalizing parts with
  | case1 position cs hcut =>
    cases h
    rw [segmentsFrom_of_none hcut, literalBefore]
    split <;> rfl
  | case2 => cases h
  | case3 position cs before after hopen inner rest hclose _ here =>
    rename_i ih
    cases htail : segmentsFrom template (here + inner.length + 4) rest with
    | error failure => simp [htail, bind, Except.bind] at h
    | ok tail =>
      simp only [htail, bind, Except.bind, pure, Except.pure, Except.ok.injEq] at h
      have hplace : position + n + before.length + inner.length + 4 =
          here + inner.length + 4 + n := by
        simp only [here]
        omega
      rw [segmentsFrom_of_closed hopen hclose, hplace, ih htail, ← h]
      simp only [Except.map, literalBefore, here, Nat.add_right_comm position n]
      split <;> rfl

theorem joinSegments_placeholder (parts : List Segment) (inner : String) (here : Nat) :
    joinSegments parts (.placeholder inner here :: more) =
      parts ++ .placeholder inner here :: more := by
  induction parts with
  | nil => rfl
  | cons part parts ih =>
    rw [joinSegments, ih, List.cons_append]
    simp

theorem joinSegments_behind (inner : String) (here : Nat) (tail : List Segment) :
    joinSegments (.placeholder inner here :: tail) more =
      .placeholder inner here :: joinSegments tail more := by
  rw [joinSegments]
  simp

theorem joinSegments_concat (parts : List Segment) (inner : String) (here : Nat) :
    joinSegments (parts ++ [.placeholder inner here]) more =
      parts ++ .placeholder inner here :: more := by
  induction parts with
  | nil => rw [List.nil_append, joinSegments_behind, joinSegments, List.nil_append]
  | cons part parts ih =>
    rw [List.cons_append, joinSegments, ih, List.cons_append]
    simp

theorem joinSegments_literalBefore {cs : List Char} {inner : String} {here : Nat}
    (tail : List Segment) :
    joinSegments (literalBefore cs (.placeholder inner here :: tail)) more =
      literalBefore cs (.placeholder inner here :: joinSegments tail more) := by
  unfold literalBefore
  split
  · rw [joinSegments_behind]
  · rw [joinSegments, joinSegments_behind]
    simp

/-- Literal text is put in front of the literal text that a template begins with. -/
theorem joinSegments_literal (cs ds : List Char) (hmore : ∀ t tail, more ≠ .literal t :: tail) :
    joinSegments (literalBefore cs []) (literalBefore ds more) = literalBefore (cs ++ ds) more := by
  by_cases hcs : cs = []
  · simp [hcs, literalBefore, joinSegments]
  by_cases hds : ds = []
  · have hjoin : joinSegments [.literal (.ofList cs)] more = .literal (.ofList cs) :: more := by
      cases more with
      | nil => rfl
      | cons part tail =>
        cases part with
        | literal t => exact absurd rfl (hmore t tail)
        | placeholder inner here => rfl
    simpa [literalBefore, hcs, hds] using hjoin
  · simp [literalBefore, hcs, hds, joinSegments]

theorem segmentsFrom_append
    (h : segmentsFrom template position front = .ok parts) (hapart : Apart front back) :
    segmentsFrom template position (front ++ back) =
      (segmentsFrom template (position + front.length) back).map (joinSegments parts) := by
  fun_induction segmentsFrom template position front generalizing parts with
  | case1 position front hcut =>
    cases h
    have hnext := cutChars_openMark_append hcut hapart
    cases hopen : Text.cutChars openMark back with
    | none =>
      rw [hopen] at hnext
      rw [segmentsFrom_of_none hopen, segmentsFrom_of_none hnext, Except.map,
        joinSegments_literal _ _ (by simp)]
    | some found =>
      obtain ⟨before, after⟩ := found
      rw [hopen] at hnext
      cases hclose : Text.cutChars closeMark after with
      | none =>
        rw [segmentsFrom_of_open hopen hclose, segmentsFrom_of_open hnext hclose, Except.map,
          List.length_append, Nat.add_assoc]
      | some found =>
        obtain ⟨inner, rest⟩ := found
        rw [segmentsFrom_of_closed hopen hclose, segmentsFrom_of_closed hnext hclose,
          List.length_append, ← Nat.add_assoc]
        cases segmentsFrom template
          (position + front.length + before.length + inner.length + 4) rest with
        | error failure => rfl
        | ok tail =>
          simp only [Except.map]
          rw [joinSegments_literal _ _ (by simp)]
  | case2 => cases h
  | case3 position front before after hopen inner rest hclose _ here =>
    rename_i ih
    cases htail : segmentsFrom template (here + inner.length + 4) rest with
    | error failure => simp [htail, bind, Except.bind] at h
    | ok tail =>
      simp only [htail, bind, Except.bind, pure, Except.pure, Except.ok.injEq] at h
      have hfront : front = before ++ openMark ++ (inner ++ closeMark ++ rest) := by
        rw [← Text.cutChars_eq hclose, ← Text.cutChars_eq hopen]
      have hrest : Apart rest back := by
        refine hapart.imp_left fun hlast => ?_
        cases rest with
        | nil => simp
        | cons c rest => simpa [hfront] using hlast
      have hplace : here + inner.length + 4 + rest.length = position + front.length := by
        simp only [hfront, here, openMark, closeMark, List.length_append, List.length_cons,
          List.length_nil]
        omega
      have hopen' := Text.cutChars_append_of_some hopen back
      have hclose' := Text.cutChars_append_of_some hclose back
      rw [segmentsFrom_of_closed hopen' hclose', ih htail hrest, hplace, ← h]
      cases segmentsFrom template (position + front.length) back with
      | error failure => rfl
      | ok more => simp only [Except.map, joinSegments_literalBefore, here]

/-- The segments of two templates, one behind the other. -/
theorem segments_append {front back : String} (hfront : segments front = .ok parts)
    (hback : segments back = .ok more) (hapart : Apart front.toList back.toList) :
    segments (front ++ back) = .ok (joinSegments parts (more.map (·.shift front.length))) := by
  have hparts := segmentsFrom_shift hfront (front ++ back) 0
  have hmore := segmentsFrom_shift hback (front ++ back) front.length
  rw [Nat.zero_add] at hmore
  have hself : parts.map (·.shift 0) = parts := by
    refine (List.map_congr_left fun part _ => ?_).trans (List.map_id parts)
    cases part <;> rfl
  rw [hself] at hparts
  rw [segments, String.toList_append, segmentsFrom_append hparts hapart, Nat.add_zero,
    Nat.zero_add, String.length_toList, hmore]
  rfl

/-- No literal text is empty or runs into the opening mark behind it, and no placeholder runs into
its closing mark. -/
def Tidy : List Segment → Prop
  | [] => True
  | .literal text :: rest =>
    (text ≠ "" ∧ ((∃ inner here tail, rest = .placeholder inner here :: tail) →
      text.toList.getLast? ≠ some '\x7b')) ∧ Tidy rest
  | .placeholder inner _ :: rest => inner.toList.getLast? ≠ some '\x7d' ∧ Tidy rest

theorem Tidy.of_append {front : List Segment} (h : Tidy (front ++ more)) : Tidy more := by
  induction front with
  | nil => exact h
  | cons part front ih => cases part <;> exact ih h.2

theorem Tidy.getLast?_inner {inner : String} {here : Nat} (h : Tidy parts)
    (hmem : .placeholder inner here ∈ parts) : inner.toList.getLast? ≠ some '\x7d' := by
  obtain ⟨front, back, rfl⟩ := List.append_of_mem hmem
  exact h.of_append.1

/-- The text in front of a placeholder does not run into its opening mark. -/
theorem Tidy.getLast?_front {front back : List Segment} {inner : String} {here : Nat}
    (h : Tidy (front ++ .placeholder inner here :: back)) :
    (rawChars front).getLast? ≠ some '\x7b' := by
  rcases List.eq_nil_or_concat front with rfl | ⟨init, part, rfl⟩
  · simp
  · rw [List.concat_eq_append, List.append_assoc] at h
    rw [List.concat_eq_append, rawChars_append, List.getLast?_append]
    cases part with
    | literal text =>
      obtain ⟨⟨hne, hlast⟩, -⟩ := h.of_append
      have hsome := List.getLast?_eq_some_getLast (mt String.toList_eq_nil_iff.1 hne)
      have hlit : text.toList.getLast? ≠ some '\x7b' := hlast ⟨inner, here, back, rfl⟩
      rw [hsome] at hlit
      simpa [Segment.raw, hsome] using hlit
    | placeholder inner here =>
      simp [Segment.raw, rawText, closeMark]

theorem segmentsFrom_tidy (h : segmentsFrom template position cs = .ok parts) : Tidy parts := by
  fun_induction segmentsFrom template position cs generalizing parts with
  | case1 position cs hcut =>
    cases h
    unfold literalBefore
    split
    · trivial
    · next hcs => exact ⟨⟨by simpa using hcs, by simp⟩, trivial⟩
  | case2 => cases h
  | case3 position cs before after hopen inner rest hclose _ here =>
    rename_i ih
    cases htail : segmentsFrom template (here + inner.length + 4) rest with
    | error failure => simp [htail, bind, Except.bind] at h
    | ok tail =>
      simp only [htail, bind, Except.bind, pure, Except.pure, Except.ok.injEq] at h
      have hbehind : Tidy (.placeholder (.ofList inner) here :: tail) :=
        ⟨by simpa using Text.getLast?_of_cutChars_double hclose, ih htail⟩
      subst h
      unfold literalBefore
      split
      · exact hbehind
      · next hbefore =>
        have hlast := Text.getLast?_of_cutChars_double hopen
        exact ⟨⟨by simpa using hbefore, fun _ => by simpa using hlast⟩, hbehind⟩

/-- A text that a placeholder can hold: the first closing mark is the one behind it. -/
def IsInner (inner : String) : Prop :=
  Text.cutChars closeMark (inner.toList ++ closeMark) = some (inner.toList, [])

theorem isInner_iff {inner : String} : IsInner inner ↔
    Text.cutChars closeMark inner.toList = none ∧ inner.toList.getLast? ≠ some '\x7d' :=
  Text.cutChars_double_iff

theorem toList_rawText (inner : String) :
    (rawText inner).toList = openMark ++ inner.toList ++ closeMark := String.toList_ofList

/-- A placeholder by itself is one segment. -/
theorem segments_rawText {inner : String} (h : IsInner inner) :
    segments (rawText inner) = .ok [.placeholder inner 0] := by
  have hopen : Text.cutChars openMark (rawText inner).toList =
      some ([], inner.toList ++ closeMark) := by
    simp [toList_rawText, openMark, Text.cutChars]
  rw [segments, segmentsFrom_of_closed hopen h, segmentsFrom_of_none (by rfl)]
  simp [Except.map, literalBefore]

/-- A text without placeholders is one segment. -/
theorem segments_of_none {text : String} (h : Text.cutChars openMark text.toList = none) :
    segments text = .ok (literalBefore text.toList []) := segmentsFrom_of_none h

end Segmenting

section Filling

variable {vars : Record} {strict : Bool} {escape : String → String} {parts more : List Segment}

theorem segmentsText_shift (n : Nat) (parts : List Segment) :
    segmentsText vars strict escape (parts.map (·.shift n)) =
      segmentsText vars strict escape parts := by
  induction parts with
  | nil => rfl
  | cons part parts ih =>
    rw [List.map_cons, segmentsText, segmentsText, ih]
    cases part <;> rfl

theorem segmentsText_joinSegments (parts more : List Segment) :
    segmentsText vars strict escape (joinSegments parts more) = (do
      let before ← segmentsText vars strict escape parts
      let after ← segmentsText vars strict escape more
      return before ++ after) := by
  fun_induction joinSegments parts more with
  | case1 more => exact segmentsText_append [] more
  | case2 s t more =>
    have hjoin : segmentsText vars strict escape ([.literal s] ++ .literal t :: more) = _ :=
      segmentsText_append _ _
    rw [← hjoin]
    simp only [List.cons_append, List.nil_append, segmentsText, segmentText]
    cases segmentsText vars strict escape more <;>
      simp [bind, Except.bind, pure, Except.pure, String.append_assoc]
  | case3 part parts more _ ih =>
    rw [segmentsText, segmentsText, ih]
    cases segmentText vars strict escape part with
    | error failure => rfl
    | ok text =>
      cases segmentsText vars strict escape parts with
      | error failure => rfl
      | ok before =>
        cases segmentsText vars strict escape more with
        | error failure => rfl
        | ok after => simp [bind, Except.bind, pure, Except.pure, String.append_assoc]

/-- A text without placeholders is kept as it is. -/
theorem interpolateWith_of_none {text : String} (h : Text.cutChars openMark text.toList = none) :
    interpolateWith escape strict text vars = .ok text := by
  rw [interpolateWith, segments_of_none h]
  by_cases hnil : text.toList = []
  · obtain rfl := String.toList_eq_nil_iff.1 hnil
    rfl
  · simp [literalBefore, hnil, segmentsText, segmentText, bind, Except.bind, pure, Except.pure]

/-- Two templates, one behind the other, are filled one after the other. -/
theorem interpolateWith_append {front back : String} (hfront : segments front = .ok parts)
    (hback : segments back = .ok more) (hapart : Apart front.toList back.toList) :
    interpolateWith escape strict (front ++ back) vars = (do
      let before ← interpolateWith escape strict front vars
      let after ← interpolateWith escape strict back vars
      return before ++ after) := by
  simp only [interpolateWith, segments_append hfront hback hapart, hfront, hback]
  exact (segmentsText_joinSegments _ _).trans (by rw [segmentsText_shift]; rfl)

end Filling

end BulletScript.Template
