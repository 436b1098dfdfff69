import Mathlib.Data.List.Chain
import Mathlib.Tactic.Tauto
import BulletScript.Proofs.Text.Lines
import BulletScript.Shell.Quote
import BulletScript.Template.Interpolate

/-! Commands as a shell reads them. Each value in a command is quoted as a word of its own, which is
right where the template is outside of quotes. Where it is inside of quotes, or behind a backslash,
the quotes of the word are taken for others, and characters of the value can get a meaning. -/
namespace BulletScript

theorem Text.replaceChars_singleton (c : Char) (image cs : List Char) :
    Text.replaceChars [c] image cs = cs.flatMap fun d => if d = c then image else [d] := by
  rw [Text.replaceChars, Text.joinChars, Text.splitChars_singleton]
  induction cs with
  | nil => simp
  | cons d cs ih =>
    obtain ⟨first, others, hsplit⟩ := List.exists_cons_of_ne_nil (List.splitOn_ne_nil c cs)
    rw [List.splitOn_cons_eq_if_modifyHead, List.flatMap_cons, ← ih, hsplit]
    by_cases hd : d = c
    · simp [hd, List.intercalate_cons_cons]
    · cases others with
      | nil => simp [hd]
      | cons next others => simp [hd, List.intercalate_cons_cons]

namespace Shell

/-- Where in a word the shell is: where one may begin, in its text, right behind a dollar sign, or in
the name of a parameter. -/
inductive Place where
  | blank | word | sign | name
  deriving Repr, DecidableEq

/-- What a shell is in while it reads a command: outside of quotes, in single or double quotes, right
behind a backslash, or in a comment. Here-documents, and what a substitution reads anew, are not told
apart. -/
inductive Quoting where
  | plain (place : Place) | single | double (place : Place) | escaped | doubleEscaped | comment
  deriving Repr, DecidableEq

/-- Characters that end a word outside of quotes. -/
def isSeparator (c : Char) : Bool := " \t\n|&;<>()".toList.contains c

/-- Characters that mean more than themselves anywhere in a word outside of quotes: they end it, are
quotes, or are expanded. -/
def isMeta (c : Char) : Bool := isSeparator c || "$\x60\\\"'*?[".toList.contains c

/-- Characters that a backslash in double quotes is an escape of. -/
def isEscapable (c : Char) : Bool := "$\x60\"\\\n".toList.contains c

def isNameChar (c : Char) : Bool := c.isAlphanum || c = '_'

namespace Place

def next : Place → Char → Place
  | .blank, c | .word, c => if c = '$' then .sign else .word
  | .sign, c => if c.isAlpha || c = '_' then .name else if c = '\x7b' then .sign else .word
  | .name, c => if isNameChar c then .name else if c = '$' then .sign else .word

/-- Whether a character means more than itself in this place: it begins a comment or a home directory,
or is read as part of what is expanded. -/
def takes : Place → Char → Bool
  | .blank, c => c = '#' || c = '~'
  | .word, _ => false
  | .sign, c => isNameChar c || "@*#?-$!\x7b(".toList.contains c
  | .name, c => isNameChar c

end Place

namespace Quoting

/-- The place in a word, where it matters. -/
def place : Quoting → Place
  | .plain p | .double p => p
  | .single | .escaped | .doubleEscaped | .comment => .word

def next : Quoting → Char → Quoting
  | .plain p, c =>
    if c = '\'' then .single else if c = '"' then .double .word else if c = '\\' then .escaped
    else if isSeparator c then .plain .blank else if p = .blank ∧ c = '#' then .comment
    else .plain (p.next c)
  | .single, c => if c = '\'' then .plain .word else .single
  | .double p, c =>
    if c = '"' then .plain .word else if c = '\\' then .doubleEscaped else .double (p.next c)
  | .escaped, _ => .plain .word
  | .doubleEscaped, _ => .double .word
  | .comment, c => if c = '\n' then .plain .blank else .comment

/-- What the shell is in once it has read some text. -/
def after (q : Quoting) (cs : List Char) : Quoting := cs.foldl next q

/-- Whether a character means more than itself, given the one behind it. -/
def special : Quoting → Char → Option Char → Bool
  | .plain p, c, _ => isMeta c || p.takes c
  | .single, c, _ => c = '\''
  | .double p, c, behind =>
    c = '"' || c = '$' || c = '\x60' || (c = '\\' && behind.any isEscapable) || p.takes c
  | .escaped, _, _ | .doubleEscaped, _, _ => false
  | .comment, c, _ => c = '\n'

theorem after_append (q : Quoting) (xs ys : List Char) : q.after (xs ++ ys) = (q.after xs).after ys :=
  List.foldl_append

end Quoting

/-- A character of a command, and whether it comes from a value. -/
abbrev Mark := Char × Bool

/-- No character that comes from a value means more than itself. -/
def Intact : Quoting → List Mark → Prop
  | _, [] => True
  | q, (c, ofValue) :: rest =>
    (ofValue = true → q.special c (rest.head?.map (·.1)) = false) ∧ Intact (q.next c) rest

instance decidableIntact : ∀ (q : Quoting) (ms : List Mark), Decidable (Intact q ms)
  | _, [] => isTrue trivial
  | q, (c, _) :: rest =>
    have := decidableIntact (q.next c) rest
    inferInstanceAs (Decidable (_ ∧ _))

def literalMarks (cs : List Char) : List Mark := cs.map (·, false)

/-- What is written for a character of a word in single quotes. -/
def innerMarks (c : Char) : List Mark :=
  if c = '\'' then [('\'', false), ('"', false), ('\'', true), ('"', false), ('\'', false)]
  else [(c, true)]

/-- A quoted value. The quotes around it, and around a quote in it, do not come from it. -/
def quotedMarks (s : String) : List Mark :=
  if s = "" then literalMarks ['\'', '\'']
  else if s.toList.all isPlain then s.toList.map (·, true)
  else ('\'', false) :: s.toList.flatMap innerMarks ++ [('\'', false)]

theorem quotedMarks_text (s : String) : (quotedMarks s).map (·.1) = (quote s).toList := by
  unfold quotedMarks quote
  split
  · rfl
  · split
    · simp [Function.comp_def]
    · have hinner : (fun c => (innerMarks c).map (·.1)) =
          fun c => if c = '\'' then "'\"'\"'".toList else [c] := by
        funext c
        unfold innerMarks
        split <;> rfl
      simp [Text.replace, Text.replaceChars_singleton, List.map_flatMap, hinner]

/-- The marked characters of a quoted value are its own. -/
theorem quotedMarks_value (s : String) :
    ((quotedMarks s).filter (·.2)).map (·.1) = s.toList := by
  have hinner (cs : List Char) : ((cs.flatMap innerMarks).filter (·.2)).map (·.1) = cs := by
    induction cs with
    | nil => rfl
    | cons c cs ih =>
      rw [List.flatMap_cons, List.filter_append, List.map_append, ih]
      by_cases hc : c = '\'' <;> simp [innerMarks, hc]
  by_cases hempty : s = ""
  · simp [quotedMarks, hempty, literalMarks]
  by_cases hplain : s.toList.all isPlain = true
  · rw [quotedMarks, if_neg hempty, if_pos hplain, List.filter_map, List.map_map]
    simp [Function.comp_def]
  · rw [quotedMarks, if_neg hempty, if_neg hplain]
    simpa using hinner s.toList

/-- A text that means itself in double quotes, also where its single quotes are put between others. -/
def Tame (cs : List Char) : Prop :=
  (∀ c ∈ cs, c ∉ ['\'', '"', '$', '\x60']) ∧
    cs.IsChain fun c d => c = '\\' → d ≠ '\\' ∧ d ≠ '\n'

/-- Whether a text has no meaning of its own where its quotes are not read as such. In single quotes,
or behind a backslash, they end at once; in double quotes they are characters like others. -/
def Quoting.Bears : Quoting → List Char → Prop
  | .plain _, _ => True
  | .single, cs | .escaped, cs => ∀ c ∈ cs, isMeta c = false
  | .double _, cs | .doubleEscaped, cs => Tame cs
  | .comment, cs => '\n' ∉ cs

/-- Whether none of a value's characters gets a meaning where the value stands: it is not read as part
of a name in front of it, and bears it that its quotes mean something else there. -/
def Harmless (q : Quoting) (s : String) : Prop :=
  (∀ c ∈ (quote s).toList.head?, q.place.takes c = false) ∧ q.Bears s.toList

section Marks

variable {q : Quoting} {p : Place} {c d : Char} {cs : List Char} {s : String} {ms rest : List Mark}

theorem intact_literal (q : Quoting) (cs : List Char) (rest : List Mark) :
    Intact q (literalMarks cs ++ rest) ↔ Intact (q.after cs) rest := by
  induction cs generalizing q with
  | nil => rfl
  | cons c cs ih =>
    have hcons : literalMarks (c :: cs) ++ rest = (c, false) :: (literalMarks cs ++ rest) := rfl
    rw [hcons, Intact, ih]
    simp [Quoting.after]

/-- Two parts of a command, if the first one does not end in a backslash of a value. -/
theorem intact_append (hlast : ∀ m ∈ ms.getLast?, m.2 = false ∨ m.1 ≠ '\\') :
    Intact q (ms ++ rest) ↔ Intact q ms ∧ Intact (q.after (ms.map (·.1))) rest := by
  induction ms generalizing q with
  | nil => simp [Intact, Quoting.after]
  | cons m ms ih =>
    obtain ⟨c, ofValue⟩ := m
    cases ms with
    | nil =>
      have hsame : (ofValue = true → q.special c (rest.head?.map (·.1)) = false) ↔
          (ofValue = true → q.special c none = false) := by
        rcases hlast (c, ofValue) rfl with hliteral | hc
        · simp [show ofValue = false from hliteral]
        · have hc : c ≠ '\\' := hc
          cases q <;> simp [Quoting.special, hc]
      simp [Intact, Quoting.after, hsame]
    | cons m' ms =>
      have htail := ih (q := q.next c) (by simpa using hlast)
      rw [List.cons_append, Intact, htail]
      simp [Intact, Quoting.after, and_assoc]

theorem ne_of_not_isMeta (h : isMeta c = false) :
    c ≠ '\'' ∧ c ≠ '"' ∧ c ≠ '$' ∧ c ≠ '\x60' ∧ c ≠ '\\' ∧ c ≠ '\n' := by
  refine ⟨?_, ?_, ?_, ?_, ?_, ?_⟩ <;>
  · rintro rfl
    cases h

theorem isSeparator_eq_false (h : isMeta c = false) : isSeparator c = false :=
  (Bool.or_eq_false_iff.1 h).1

theorem next_word_of_not_isMeta (h : isMeta c = false) :
    (Quoting.plain .word).next c = .plain .word := by
  obtain ⟨hsingle, hdouble, hdollar, -, hescape, -⟩ := ne_of_not_isMeta h
  simp [Quoting.next, Place.next, isSeparator_eq_false h, hsingle, hdouble, hescape, hdollar]

theorem isMeta_of_isPlain (h : isPlain c = true) : isMeta c = false := by
  have hmeta : (" \t\n|&;<>()".toList ++ "$\x60\\\"'*?[".toList).all (!isPlain ·) = true := by decide
  rw [Bool.eq_false_iff]
  intro hc
  simp only [isMeta, isSeparator, Bool.or_eq_true, List.contains_iff_mem, ← List.mem_append] at hc
  simpa [h] using List.all_eq_true.1 hmeta c hc

/-- What can stand without quotes means more than itself only as part of a name in front of it. -/
theorem special_of_isPlain (h : isPlain c = true) (q : Quoting) (behind : Option Char) :
    q.special c behind = q.place.takes c := by
  have hmeta := isMeta_of_isPlain h
  obtain ⟨hsingle, hdouble, hdollar, hback, hescape, hline⟩ := ne_of_not_isMeta hmeta
  cases q <;> simp [Quoting.special, Quoting.place, Place.takes, *]

/-- A name ends at the first character that is no part of it. -/
theorem place_next (hc : p.takes c = false) (hdollar : c ≠ '$') : p.next c = .word := by
  cases p with
  | blank | word => simp [Place.next, hdollar]
  | name =>
    have hname : isNameChar c = false := hc
    simp [Place.next, hname, hdollar]
  | sign =>
    obtain ⟨hname, hrest⟩ := Bool.or_eq_false_iff.1 hc
    have hbrace : c ≠ '\x7b' := by
      rintro rfl
      exact absurd hrest (by decide)
    obtain ⟨halpha, -, hunderscore⟩ : c.isAlpha = false ∧ c.isDigit = false ∧ c ≠ '_' := by
      simpa [isNameChar, Char.isAlphanum, and_assoc] using hname
    simp [Place.next, halpha, hunderscore, hbrace]

theorem place_next_of_isPlain (h : isPlain c = true) (hc : q.place.takes c = false) :
    (q.next c).place = .word := by
  have hmeta := isMeta_of_isPlain h
  obtain ⟨hsingle, hdouble, hdollar, -, hescape, hline⟩ := ne_of_not_isMeta hmeta
  have hhash : c ≠ '#' := by
    rintro rfl
    exact absurd h (by decide)
  have hseparator := isSeparator_eq_false hmeta
  cases q with
  | plain p | double p =>
    have hnext : p.next c = .word := place_next hc hdollar
    simp [Quoting.next, Quoting.place, *]
  | single | escaped | doubleEscaped | comment => simp [Quoting.next, Quoting.place, *]

theorem intact_plain_value (h : ∀ c ∈ cs, isPlain c = true) :
    Intact q (cs.map (·, true)) ↔ ∀ c ∈ cs.head?, q.place.takes c = false := by
  induction cs generalizing q with
  | nil => simp [Intact]
  | cons c cs ih =>
    obtain ⟨hc, hcs⟩ := List.forall_mem_cons.1 h
    rw [List.map_cons, Intact, special_of_isPlain hc, ih hcs]
    simp only [forall_const, List.head?_cons, Option.mem_some_iff, forall_eq']
    refine and_iff_left_of_imp fun htakes d _ => ?_
    rw [place_next_of_isPlain hc htakes]
    rfl

/-- In single quotes a word means itself. -/
theorem intact_inner_single (cs : List Char) (rest : List Mark) :
    Intact .single (cs.flatMap innerMarks ++ rest) ↔ Intact .single rest := by
  induction cs with
  | nil => rfl
  | cons c cs ih =>
    rw [List.flatMap_cons, List.append_assoc, ← ih]
    by_cases hc : c = '\''
    · simp [innerMarks, hc, Intact, Quoting.special, Quoting.next, Place.next, Place.takes]
    · simp [innerMarks, hc, Intact, Quoting.special, Quoting.next]

/-- Outside of quotes the characters of a word are on their own. -/
theorem intact_inner_plain (cs : List Char) :
    Intact (.plain .word) (cs.flatMap innerMarks ++ [('\'', false)]) ↔
      ∀ c ∈ cs, isMeta c = false := by
  induction cs with
  | nil => simp [Intact]
  | cons c cs ih =>
    rw [List.flatMap_cons, List.append_assoc, List.forall_mem_cons, ← ih]
    by_cases hc : c = '\''
    · have hmeta : isMeta '\'' = true := by decide
      simp [innerMarks, hc, Intact, Quoting.special, Quoting.next, hmeta, Place.next]
    · simp only [innerMarks, hc, if_false, List.singleton_append, Intact, Quoting.special,
        Place.takes, Bool.or_false, forall_const]
      exact and_congr_right fun hmeta => by rw [next_word_of_not_isMeta hmeta]

theorem intact_inner_comment (cs : List Char) :
    Intact .comment (cs.flatMap innerMarks ++ [('\'', false)]) ↔ '\n' ∉ cs := by
  induction cs with
  | nil => simp [Intact]
  | cons c cs ih =>
    rw [List.flatMap_cons, List.append_assoc, List.mem_cons, not_or, ← ih]
    by_cases hc : c = '\''
    · simp [innerMarks, hc, Intact, Quoting.special, Quoting.next]
    · by_cases hline : c = '\n'
      · simp [innerMarks, hline, Intact, Quoting.special]
      · simp [innerMarks, hc, hline, Ne.symm hline, Intact, Quoting.special, Quoting.next]

theorem tame_cons : Tame (c :: cs) ↔
    c ∉ ['\'', '"', '$', '\x60'] ∧ (∀ d ∈ cs.head?, c = '\\' → d ≠ '\\' ∧ d ≠ '\n') ∧ Tame cs := by
  simp only [Tame, List.forall_mem_cons, List.isChain_cons]
  tauto

theorem isEscapable_eq_false : isEscapable c = false ↔
    c ∉ ['"', '$', '\x60'] ∧ c ≠ '\\' ∧ c ≠ '\n' := by
  simp [isEscapable, Bool.eq_false_iff]
  tauto

theorem special_double : (Quoting.double .word).special c (some d) = false ↔
    c ∉ ['"', '$', '\x60'] ∧ (c = '\\' → isEscapable d = false) := by
  simp [Quoting.special, Place.takes]
  tauto

theorem next_double (hdouble : c ≠ '"') (hescape : c ≠ '\\') (hdollar : c ≠ '$') :
    (Quoting.double .word).next c = .double .word := by
  simp [Quoting.next, Place.next, *]

/-- A backslash in front of what it does not escape changes nothing. -/
theorem intact_doubleEscaped (h : isEscapable c = false) (ofValue : Bool) (rest : List Mark) :
    Intact .doubleEscaped ((c, ofValue) :: rest) ↔ Intact (.double .word) ((c, ofValue) :: rest) := by
  obtain ⟨hmem, hescape, -⟩ := isEscapable_eq_false.1 h
  simp only [List.mem_cons, List.not_mem_nil, or_false, not_or] at hmem
  obtain ⟨hdouble, hdollar, hback⟩ := hmem
  rw [Intact, Intact, next_double hdouble hescape hdollar]
  simp [Quoting.special, Place.takes, Quoting.next, *]

theorem head_inner (cs : List Char) :
    (cs.flatMap innerMarks ++ [('\'', false)]).head?.map (·.1) = some (cs.headD '\'') := by
  cases cs with
  | nil => rfl
  | cons c cs => by_cases hc : c = '\'' <;> simp [innerMarks, hc]

/-- A backslash of a word stands in front of a character of the word or of its last quote. -/
theorem intact_doubleEscaped_inner (h : isEscapable (cs.headD '\'') = false) :
    Intact .doubleEscaped (cs.flatMap innerMarks ++ [('\'', false)]) ↔
      Intact (.double .word) (cs.flatMap innerMarks ++ [('\'', false)]) := by
  cases cs with
  | nil => exact intact_doubleEscaped h false []
  | cons c cs => by_cases hc : c = '\'' <;> simpa [innerMarks, hc] using intact_doubleEscaped h _ _

/-- What follows a backslash in a tame word is no character that it escapes. -/
theorem not_isEscapable_of_tame (h : Tame cs) (hhead : ∀ d ∈ cs.head?, d ≠ '\\' ∧ d ≠ '\n') :
    isEscapable (cs.headD '\'') = false := by
  cases cs with
  | nil => rfl
  | cons d cs =>
    have hd := (tame_cons.1 h).1
    simp only [List.mem_cons, not_or] at hd
    exact isEscapable_eq_false.2 ⟨by simp [hd], hhead d rfl⟩

/-- In double quotes only what is tame means itself. -/
theorem intact_inner_double (cs : List Char) :
    Intact (.double .word) (cs.flatMap innerMarks ++ [('\'', false)]) ↔ Tame cs := by
  induction cs with
  | nil => simp [Intact, Tame]
  | cons c cs ih =>
    rw [List.flatMap_cons, List.append_assoc, tame_cons]
    by_cases hc : c = '\''
    · -- the double quotes around it end those of the template
      have hmeta : isMeta '\'' = true := by decide
      simp [innerMarks, hc, Intact, Quoting.special, Quoting.next, hmeta]
    have hinner : innerMarks c = [(c, true)] := if_neg hc
    rw [hinner, List.singleton_append, Intact, head_inner, special_double]
    simp only [forall_const]
    by_cases hescape : c = '\\'
    · subst hescape
      have hnext : (Quoting.double .word).next '\\' = .doubleEscaped := rfl
      simp only [hnext, forall_const]
      constructor
      · rintro ⟨⟨-, hbehind⟩, hrest⟩
        rw [intact_doubleEscaped_inner hbehind, ih] at hrest
        obtain ⟨-, hback, hline⟩ := isEscapable_eq_false.1 hbehind
        refine ⟨by decide, fun d hd => ?_, hrest⟩
        cases cs with
        | nil => cases hd
        | cons d' cs =>
          cases hd
          exact ⟨hback, hline⟩
      · rintro ⟨-, hhead, hrest⟩
        have hbehind := not_isEscapable_of_tame hrest hhead
        exact ⟨⟨by decide, hbehind⟩, (intact_doubleEscaped_inner hbehind).2 (ih.2 hrest)⟩
    · by_cases hdouble : c = '"'
      · simp [hdouble]
      by_cases hdollar : c = '$'
      · simp [hdollar]
      rw [next_double hdouble hescape hdollar, ih]
      simp [hc, hescape, hdouble, hdollar]

theorem tame_of_isPlain (h : ∀ c ∈ cs, isPlain c = true) : Tame cs := by
  have hquoted : ['\'', '"', '$', '\x60', '\\'].all (!isPlain ·) = true := by decide
  induction cs with
  | nil => simp [Tame]
  | cons c cs ih =>
    obtain ⟨hc, hcs⟩ := List.forall_mem_cons.1 h
    have hmem : c ∉ ['\'', '"', '$', '\x60', '\\'] := fun hmem => by
      simpa [hc] using List.all_eq_true.1 hquoted c hmem
    refine tame_cons.2 ⟨fun hspecial => hmem ?_, fun d _ hescape => absurd ?_ hmem, ih hcs⟩
    · exact List.mem_append_left ['\\'] hspecial
    · rw [hescape]
      decide

theorem bears_of_isPlain (h : ∀ c ∈ cs, isPlain c = true) (q : Quoting) : q.Bears cs := by
  cases q with
  | plain => trivial
  | single | escaped => exact fun c hc => isMeta_of_isPlain (h c hc)
  | double | doubleEscaped => exact tame_of_isPlain h
  | comment => exact fun hline => absurd (h _ hline) (by decide)

theorem takes_quote (p : Place) : p.takes '\'' = false := by
  cases p <;> decide

/-- A quoted value by itself. -/
theorem intact_quoted (q : Quoting) (s : String) : Intact q (quotedMarks s) ↔ Harmless q s := by
  unfold Harmless
  by_cases hempty : s = ""
  · subst hempty
    have hbears : q.Bears [] := bears_of_isPlain (by simp) q
    have hmarks := intact_literal q ['\'', '\''] []
    simpa [quotedMarks, quote, takes_quote, hbears, Intact] using hmarks
  by_cases hplain : s.toList.all isPlain = true
  · have hchars := List.all_eq_true.1 hplain
    simpa [quotedMarks, quote, hempty, hplain, bears_of_isPlain hchars q] using intact_plain_value hchars
  · have hhead : (quote s).toList.head? = some '\'' := by simp [quote, hempty, hplain]
    have hword (p : Place) : p.next '\'' = .word := place_next (takes_quote p) (by decide)
    rw [quotedMarks, if_neg hempty, if_neg hplain, List.cons_append, Intact, hhead]
    cases q with
    | plain p =>
      have hend : Intact .single [('\'', false)] := by simp [Intact]
      simpa [takes_quote, Quoting.next, Quoting.Bears, hend] using
        intact_inner_single s.toList [('\'', false)]
    | single => simpa [takes_quote, Quoting.next, Quoting.Bears] using intact_inner_plain s.toList
    | double p =>
      simpa [takes_quote, Quoting.next, Quoting.Bears, hword] using intact_inner_double s.toList
    | escaped => simpa [takes_quote, Quoting.next, Quoting.Bears] using intact_inner_plain s.toList
    | doubleEscaped =>
      simpa [takes_quote, Quoting.next, Quoting.Bears] using intact_inner_double s.toList
    | comment => simpa [takes_quote, Quoting.next, Quoting.Bears] using intact_inner_comment s.toList

theorem getLast_quoted (s : String) : ∀ m ∈ (quotedMarks s).getLast?, m.2 = false ∨ m.1 ≠ '\\' := by
  unfold quotedMarks
  split
  · simp [literalMarks]
  · split
    next hplain =>
      intro m hm
      obtain ⟨c, hc, rfl⟩ := List.mem_map.1 (List.mem_of_getLast? hm)
      right
      rintro rfl
      exact absurd (List.all_eq_true.1 hplain _ hc) (by decide)
    next =>
      intro m hm
      rw [List.getLast?_concat] at hm
      cases hm
      exact .inl rfl

theorem intact_quoted_append (q : Quoting) (s : String) (rest : List Mark) :
    Intact q (quotedMarks s ++ rest) ↔ Harmless q s ∧ Intact (q.after (quote s).toList) rest := by
  rw [intact_append (getLast_quoted s), intact_quoted, quotedMarks_text]

theorem next_plain_of_isPlain (h : isPlain c = true) (hp : p = .blank ∨ p = .word) :
    (Quoting.plain p).next c = .plain .word := by
  have hmeta := isMeta_of_isPlain h
  have hhash : c ≠ '#' := by
    rintro rfl
    exact absurd h (by decide)
  rw [← next_word_of_not_isMeta hmeta]
  rcases hp with rfl | rfl
  · simp [Quoting.next, Place.next, hhash, isSeparator_eq_false hmeta]
  · rfl

theorem after_inner (cs : List Char) :
    Quoting.single.after ((cs.flatMap innerMarks).map (·.1)) = .single := by
  induction cs with
  | nil => rfl
  | cons c cs ih =>
    rw [List.flatMap_cons, List.map_append, Quoting.after_append]
    by_cases hc : c = '\''
    · subst hc
      exact ih
    · simpa [innerMarks, hc, Quoting.after, Quoting.next] using ih

theorem after_word (h : ∀ c ∈ cs, isPlain c = true) :
    (Quoting.plain .word).after cs = .plain .word := by
  induction cs with
  | nil => rfl
  | cons c cs ih =>
    obtain ⟨hc, hcs⟩ := List.forall_mem_cons.1 h
    have hnext := next_word_of_not_isMeta (isMeta_of_isPlain hc)
    rw [Quoting.after, List.foldl_cons, hnext]
    exact ih hcs

/-- A value outside of quotes leaves the shell outside of quotes. -/
theorem after_quote (hp : p = .blank ∨ p = .word) (s : String) :
    (Quoting.plain p).after (quote s).toList = .plain .word := by
  by_cases hempty : s = ""
  · subst hempty
    rcases hp with rfl | rfl <;> rfl
  by_cases hplain : s.toList.all isPlain = true
  · rw [quote, if_neg hempty, if_pos hplain]
    have hchars := List.all_eq_true.1 hplain
    cases hcs : s.toList with
    | nil => exact absurd hcs (by simpa using hempty)
    | cons c cs =>
      rw [hcs] at hchars
      obtain ⟨hc, hcs⟩ := List.forall_mem_cons.1 hchars
      rw [Quoting.after, List.foldl_cons, next_plain_of_isPlain hc hp]
      exact after_word hcs
  · have hopen : (Quoting.plain p).next '\'' = .single := rfl
    rw [← quotedMarks_text, quotedMarks, if_neg hempty, if_neg hplain, List.map_append,
      Quoting.after_append, List.map_cons, Quoting.after, Quoting.after, List.foldl_cons, hopen]
    exact congrArg (fun q => Quoting.after q ['\'']) (after_inner s.toList)

theorem head_quote (s : String) : ∀ c ∈ (quote s).toList.head?, isPlain c = true ∨ c = '\'' := by
  intro c hc
  unfold quote at hc
  split at hc
  · exact .inr (by simpa using hc.symm)
  split at hc
  next hplain => exact .inl (List.all_eq_true.1 hplain c (List.mem_of_mem_head? hc))
  next => exact .inr (by simpa using hc.symm)

/-- Outside of quotes, with no name begun, every value means itself. -/
theorem harmless_plain (hp : p = .blank ∨ p = .word) (s : String) : Harmless (.plain p) s := by
  refine ⟨fun c hc => ?_, trivial⟩
  rcases hp with rfl | rfl
  · have hne : c ≠ '#' ∧ c ≠ '~' := by
      rcases head_quote s c hc with hplain | rfl
      · constructor <;> (rintro rfl; cases hplain)
      · decide
    simpa [Quoting.place, Place.takes] using hne
  · rfl

end Marks

end Shell

end BulletScript
