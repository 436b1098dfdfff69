import BulletScript.Proofs.Engine.Act
import BulletScript.Proofs.Shell.Quoting
import BulletScript.Proofs.Template.Segments

/-! Values that lead out of the folder a command runs in. The check of a command sees them through
their quotes, as long as they stand in the template as words. -/
namespace BulletScript.Shell

open Text Template Engine

/-- Whether a text leads, as a path, out of the folder that it is read in. -/
def Escapes (value : String) : Prop :=
  value.toList.head? = some '/' ∨ value.toList.head? = some '~' ∨ ".." ∈ split "/" value

section Check

variable {starts : List Char → Bool} {opens : Char → Bool} {cs front back : List Char}
  {command : String}

theorem someEnd_append {holds : List Char → Bool} (front : List Char) (h : holds back = true) :
    someEnd holds (front ++ back) = true := by
  induction front with
  | nil => cases back <;> simp [someEnd, h]
  | cons c front ih => simp [someEnd, ih]

/-- What is looked for is found where nothing stands in front of it but what may. -/
theorem startsBehind_append (hfront : ∀ c ∈ front.getLast?, opens c = true)
    (h : starts back = true) : startsBehind opens starts (front ++ back) = true := by
  rcases List.eq_nil_or_concat front with rfl | ⟨before, c, rfl⟩
  · simp [startsBehind, h]
  · have hopens : opens c = true := hfront c (by simp)
    rw [startsBehind, List.concat_append, someEnd_append before (by simp [hopens, h]), Bool.or_true]

theorem checkSandbox_of_names (h : namesRoot command.toList = true ∨
    namesHome command.toList = true ∨ namesParent command.toList = true) :
    ∃ what, checkSandbox command = .error (.action (.mayNotReference what command)) := by
  cases hfind : violations.find? fun violation => violation.1 command.toList with
  | none =>
    rw [List.find?_eq_none] at hfind
    simp only [violations, List.forall_mem_cons, Bool.not_eq_true] at hfind
    simp [hfind.1, hfind.2.1, hfind.2.2.1] at h
  | some violation => exact ⟨violation.2, by simp only [checkSandbox, hfind]⟩

end Check

section Quotes

variable {value : String} {cs front middle back : List Char} {c : Char}

/-- What is written for the characters of a word in single quotes. -/
def innerText (cs : List Char) : List Char := (cs.flatMap innerMarks).map (·.1)

theorem innerText_append (front back : List Char) :
    innerText (front ++ back) = innerText front ++ innerText back := by
  simp [innerText]

theorem innerText_quote : innerText ['\''] = ['\'', '"', '\'', '"', '\''] := rfl

theorem innerText_singleton (hc : c ≠ '\'') : innerText [c] = [c] := by
  simp [innerText, innerMarks, hc]

theorem innerText_of_no_quote (h : '\'' ∉ cs) : innerText cs = cs := by
  induction cs with
  | nil => rfl
  | cons c cs ih =>
    rw [List.mem_cons, not_or] at h
    rw [← List.singleton_append, innerText_append, innerText_singleton (Ne.symm h.1), ih h.2]

theorem toList_quote (hempty : value ≠ "") (hplain : ¬value.toList.all isPlain = true) :
    (quote value).toList = '\'' :: innerText value.toList ++ ['\''] := by
  rw [← quotedMarks_text, quotedMarks, if_neg hempty, if_neg hplain]
  simp [innerText]

theorem getLast?_innerText (h : c ∈ ('\'' :: innerText cs).getLast?) :
    c = '\'' ∨ c ∈ cs.getLast? := by
  rcases List.eq_nil_or_concat cs with rfl | ⟨init, d, rfl⟩
  · exact .inl (Option.some.inj h).symm
  · rw [List.concat_eq_append, innerText_append, ← List.cons_append, List.getLast?_append] at h
    by_cases hd : d = '\''
    · left
      rw [hd, innerText_quote] at h
      simpa [eq_comm] using h
    · right
      rw [innerText_singleton hd] at h
      simpa using h

theorem head?_innerText (h : c ∈ (innerText cs ++ ['\'']).head?) : c = '\'' ∨ c ∈ cs.head? := by
  cases cs with
  | nil => exact .inl (Option.some.inj h).symm
  | cons d cs =>
    rw [← List.singleton_append, innerText_append] at h
    by_cases hd : d = '\''
    · left
      rw [hd, innerText_quote] at h
      exact (Option.some.inj h).symm
    · right
      rwa [innerText_singleton hd] at h

/-- A part of a text that has no quote in it is found again in the quoted text. What is next to it
there is a quote, or what is next to it in the text. -/
theorem quote_around (hvalue : value.toList = front ++ middle ++ back) (hmiddle : '\'' ∉ middle)
    (hne : middle ≠ []) :
    ∃ before after, (quote value).toList = before ++ middle ++ after ∧
      (∀ c ∈ before.getLast?, c = '\'' ∨ c ∈ front.getLast?) ∧
        ∀ c ∈ after.head?, c = '\'' ∨ c ∈ back.head? := by
  have hempty : value ≠ "" := by
    rintro rfl
    simp [hne] at hvalue
  by_cases hplain : value.toList.all isPlain = true
  · refine ⟨front, back, ?_, fun c hc => .inr hc, fun c hc => .inr hc⟩
    rw [quote, if_neg hempty, if_pos hplain, hvalue]
  · refine ⟨'\'' :: innerText front, innerText back ++ ['\''], ?_,
      fun c hc => getLast?_innerText hc, fun c hc => head?_innerText hc⟩
    rw [toList_quote hempty hplain, hvalue, innerText_append, innerText_append,
      innerText_of_no_quote hmiddle]
    simp

end Quotes

section Words

variable {value : String} {before after quoted front back : List Char}

/-- What stands in front of a part of a quoted value opens a word, or stands there in the value. -/
theorem opens_before (hbefore : ∀ c ∈ before.getLast?, isBlank c = true)
    (hquoted : ∀ c ∈ quoted.getLast?, c = '\'' ∨ c ∈ front.getLast?) :
    ∀ c ∈ (before ++ quoted).getLast?, opensWord c = true ∨ c ∈ front.getLast? := by
  intro c hc
  rcases List.eq_nil_or_concat quoted with rfl | ⟨init, d, rfl⟩
  · rw [List.append_nil] at hc
    exact .inl (by simp [opensWord, hbefore c hc])
  · obtain rfl : d = c := by simpa using hc
    rcases hquoted d (by simp) with rfl | hfront
    · exact .inl (by decide)
    · exact .inr hfront

/-- What stands behind it ends a segment, or stands there in the value. -/
theorem ends_after (hafter : ∀ c ∈ after.head?, isBlank c = true)
    (hquoted : ∀ c ∈ quoted.head?, c = '\'' ∨ c ∈ back.head?) :
    ∀ c ∈ (quoted ++ after).head?, (isBlank c || "/;|&)'\"\x60\\".toList.contains c) = true ∨
      c ∈ back.head? := by
  intro c hc
  cases quoted with
  | nil => exact .inl (by simp [hafter c hc])
  | cons d rest =>
    obtain rfl : d = c := by simpa using hc
    rcases hquoted d rfl with rfl | hback
    · exact .inl (by decide)
    · exact .inr hback

/-- A quoted value that leads out of the folder is seen where it stands as a word. -/
theorem names_of_escapes (h : Escapes value) (hbefore : ∀ c ∈ before.getLast?, isBlank c = true)
    (hafter : ∀ c ∈ after.head?, isBlank c = true) :
    namesRoot (before ++ (quote value).toList ++ after) = true ∨
      namesHome (before ++ (quote value).toList ++ after) = true ∨
        namesParent (before ++ (quote value).toList ++ after) = true := by
  have hfirst {c : Char} (hc : value.toList.head? = some c) (hquote : c ≠ '\'') :
      startsBehind opensWord ([c].isPrefixOf ·)
        (before ++ (quote value).toList ++ after) = true := by
    obtain ⟨rest, hrest⟩ := List.head?_eq_some_iff.1 hc
    have hvalue : value.toList = [] ++ [c] ++ rest := hrest
    obtain ⟨q, r, hquoted, hq, -⟩ := quote_around hvalue (by simpa using hquote.symm) (by simp)
    have hgroup : before ++ (q ++ [c] ++ r) ++ after = before ++ q ++ ([c] ++ (r ++ after)) := by
      simp
    rw [hquoted, hgroup]
    refine startsBehind_append (fun d hd => ?_) (by simp)
    simpa using opens_before hbefore hq d hd
  rcases h with hroot | hhome | hparent
  · exact .inl (hfirst hroot (by decide))
  · right; left
    rw [namesHome, hfirst hhome (by decide), Bool.true_or]
  · right; right
    obtain ⟨piece, hpiece, hdots⟩ :
        ∃ piece ∈ value.toList.splitOn '/', String.ofList piece = ".." := by
      simpa [split, splitChars_singleton] using hparent
    obtain rfl : piece = ['.', '.'] := by simpa using congrArg String.toList hdots
    obtain ⟨front, back, hvalue, hfront, hback⟩ := exists_around_of_mem_splitOn hpiece
    obtain ⟨q, r, hquoted, hq, hr⟩ := quote_around hvalue (by decide) (by simp)
    rw [hquoted, show before ++ (q ++ ['.', '.'] ++ r) ++ after =
      before ++ q ++ (['.', '.'] ++ (r ++ after)) by simp]
    refine startsBehind_append (fun c hc => ?_) ?_
    · rcases opens_before hbefore hq c hc with hopens | hslash
      · simp [hopens]
      · simp [hfront c hslash]
    · have hend : ∀ c ∈ (r ++ after).head?,
          (isBlank c || "/;|&)'\"\x60\\".toList.contains c) = true := by
        intro c hc
        rcases ends_after hafter hr c hc with hends | hslash
        · exact hends
        · rw [hback c hslash]
          decide
      rw [isParentSegment, Bool.and_eq_true]
      exact ⟨by simp, (Option.all_eq_true ..).2 hend⟩

end Words

section Rendered

variable {vars : Record} {strict : Bool} {escape : String → String} {parts : List Segment}
  {text : String} {c : Char}

theorem segmentsText_eq_empty (h : segmentsText vars strict escape parts = .ok text)
    (hraw : rawChars parts = []) : text = "" := by
  induction parts generalizing text with
  | nil => cases h; rfl
  | cons part rest ih =>
    obtain ⟨here, below, hhere, hbelow, rfl⟩ := segmentsText_cons_ok h
    rw [rawChars_cons, List.append_eq_nil_iff] at hraw
    cases part with
    | literal t =>
      cases hhere
      rw [ih hbelow hraw.2]
      simpa [Segment.raw] using hraw.1
    | placeholder inner _ => simp [Segment.raw, rawText, openMark] at hraw

/-- What is made of segments ends as they do, if this is not with a placeholder. -/
theorem getLast?_segmentsText (h : segmentsText vars strict escape parts = .ok text)
    (hraw : (rawChars parts).getLast? = some c) (hc : c ≠ '\x7d') :
    text.toList.getLast? = some c := by
  induction parts generalizing text with
  | nil => cases hraw
  | cons part rest ih =>
    obtain ⟨here, below, hhere, hbelow, rfl⟩ := segmentsText_cons_ok h
    rw [rawChars_cons, List.getLast?_append] at hraw
    rw [String.toList_append, List.getLast?_append]
    cases hrest : (rawChars rest).getLast? with
    | some d =>
      rw [hrest, Option.some_or] at hraw
      rw [ih hbelow (hrest.trans hraw), Option.some_or]
    | none =>
      rw [segmentsText_eq_empty hbelow (List.getLast?_eq_none_iff.1 hrest)]
      rw [hrest, Option.none_or] at hraw
      cases part with
      | literal t =>
        cases hhere
        simpa [Segment.raw] using hraw
      | placeholder inner _ =>
        simp [Segment.raw, rawText, closeMark, hc.symm] at hraw

/-- And it starts as they do. -/
theorem head?_segmentsText (h : segmentsText vars strict escape parts = .ok text)
    (hraw : (rawChars parts).head? = some c) (hc : c ≠ '\x7b') :
    text.toList.head? = some c := by
  induction parts generalizing text with
  | nil => cases hraw
  | cons part rest ih =>
    obtain ⟨here, below, hhere, hbelow, rfl⟩ := segmentsText_cons_ok h
    rw [rawChars_cons] at hraw
    rw [String.toList_append]
    cases part with
    | literal t =>
      cases hhere
      rw [Segment.raw] at hraw
      cases htext : here.toList with
      | nil =>
        rw [htext, List.nil_append] at hraw
        rw [List.nil_append, ih hbelow hraw]
      | cons d ds => simpa [htext] using hraw
    | placeholder inner _ => simp [Segment.raw, rawText, openMark, hc.symm] at hraw

end Rendered

section Commands

variable {template inner before after value command : String}

/-- A template that is a placeholder with these texts around it. -/
structure StandsIn (template inner before after : String) : Prop where
  written : template = before ++ rawText inner ++ after
  isPlaceholder : ∃ parts, segments template = .ok parts ∧ .placeholder inner before.length ∈ parts

/-- Blanks at the edges of a template are blanks at the edges of what is made of it. -/
theorem edges_of_segmentsText {vars : Record} {strict : Bool} {escape : String → String}
    {parts : List Segment} {text : String} (h : segmentsText vars strict escape parts = .ok text) :
    ((∀ c ∈ (rawChars parts).getLast?, isBlank c = true) →
      ∀ c ∈ text.toList.getLast?, isBlank c = true) ∧
    ((∀ c ∈ (rawChars parts).head?, isBlank c = true) →
      ∀ c ∈ text.toList.head?, isBlank c = true) := by
  by_cases hraw : rawChars parts = []
  · rw [segmentsText_eq_empty h hraw]
    simp
  constructor
  · intro hblank c hc
    have hlast := List.getLast?_eq_some_getLast hraw
    have hd : isBlank _ = true := hblank _ hlast
    have htext := getLast?_segmentsText h hlast (by rintro heq; rw [heq] at hd; cases hd)
    rw [Option.mem_def, htext] at hc
    exact Option.some.inj hc ▸ hd
  · intro hblank c hc
    have hhead := List.head?_eq_some_head hraw
    have hd : isBlank _ = true := hblank _ hhead
    have htext := head?_segmentsText h hhead (by rintro heq; rw [heq] at hd; cases hd)
    rw [Option.mem_def, htext] at hc
    exact Option.some.inj hc ▸ hd

/-- A command is not run if it is made of a template in which a placeholder with blanks, or nothing,
around it stands for a value that leads out of the folder, whatever else is in the value. -/
theorem shell_refuses_escaping {engine : Runner} {scene : Scene} (storeAs : Option Value)
    (timeoutMs : Option Int) (henabled : engine.settings.shell.enabled = true)
    (htemplate : StandsIn template inner before after)
    (hbefore : ∀ c ∈ before.toList.getLast?, isBlank c = true)
    (hafter : ∀ c ∈ after.toList.head?, isBlank c = true) (hcursor : isCursor inner = false)
    (hvalue : placeholderValue scene.context.vars true inner = .ok (.str value))
    (hescapes : Escapes value)
    (hcommand : interpolateWith quote true template scene.context.vars = .ok command) :
    ∃ what, (Act.shell engine template storeAs timeoutMs).run scene =
      (.error (.action (.mayNotReference what command)), scene) := by
  obtain ⟨rfl, parts, hsegments, hmem⟩ := htemplate
  obtain ⟨front, back, rfl, hfront, hback⟩ := exists_around hsegments hmem
  have htext := hcommand
  rw [interpolateWith, hsegments] at htext
  change segmentsText _ _ _ _ = _ at htext
  rw [segmentsText_around hcursor hvalue] at htext
  cases hleft : segmentsText scene.context.vars true quote front with
  | error failure => simp [hleft, bind, Except.bind] at htext
  | ok left =>
    cases hright : segmentsText scene.context.vars true quote back with
    | error failure => simp [hleft, hright, bind, Except.bind] at htext
    | ok right =>
      simp only [hleft, hright, bind, Except.bind, pure, Except.pure, Except.ok.injEq] at htext
      have hnames : namesRoot command.toList = true ∨ namesHome command.toList = true ∨
          namesParent command.toList = true := by
        rw [← htext, String.toList_append, String.toList_append]
        exact names_of_escapes hescapes ((edges_of_segmentsText hleft).1 (hfront ▸ hbefore))
          ((edges_of_segmentsText hright).2 (hback ▸ hafter))
      obtain ⟨what, hcheck⟩ := checkSandbox_of_names hnames
      refine ⟨what, ?_⟩
      simp [Act.shell, Act.run_bind, henabled, hcommand, hcheck]

end Commands

/-- A runner with a folder, and variables of which one leads out of it, with a quote and a newline. -/
def folderRunner : Runner :=
  { settings := { documentRoot := "/notes" }, now := ⟨⟨2000, 1, 1⟩, none, none⟩ }

def folderScene : Scene :=
  { world := { tree := { root := "/notes" } }
    context := { vars := [(.str "x", .str "it's a/../b\nor c"), (.str "n", .int 3)] } }

def headTemplate : String := "head -n \x7b\x7bn\x7d\x7d \x7b\x7bx\x7d\x7d 2>&1"

def headCommand : String := "head -n 3 'it'\"'\"'s a/../b\nor c' 2>&1"

theorem shell_refuses_escaping_quoted :
    interpolateWith quote true headTemplate folderScene.context.vars = .ok headCommand ∧
      ∃ what, (Act.shell folderRunner headTemplate none none).run folderScene =
        (.error (.action (.mayNotReference what headCommand)), folderScene) := by
  have hcommand : interpolateWith quote true headTemplate folderScene.context.vars =
      .ok headCommand := by
    decide +kernel
  have hsegments : segments headTemplate = .ok [.literal "head -n ", .placeholder "n" 8,
      .literal " ", .placeholder "x" 14, .literal " 2>&1"] := by
    decide +kernel
  have htemplate : StandsIn headTemplate "x" "head -n \x7b\x7bn\x7d\x7d " " 2>&1" :=
    ⟨by decide, _, hsegments, by decide⟩
  have hbefore : ∀ c ∈ "head -n \x7b\x7bn\x7d\x7d ".toList.getLast?, isBlank c = true := by
    intro c hc
    obtain rfl : ' ' = c := Option.some.inj hc
    decide
  have hafter : ∀ c ∈ " 2>&1".toList.head?, isBlank c = true := by
    intro c hc
    obtain rfl : ' ' = c := Option.some.inj hc
    decide
  exact ⟨hcommand, shell_refuses_escaping none none rfl htemplate hbefore hafter (by decide)
    rfl (.inr (.inr (by decide +kernel))) hcommand⟩

end BulletScript.Shell
