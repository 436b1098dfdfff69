import BulletScript.Documents.Link
import BulletScript.Documents.Reference
import BulletScript.Proofs.Text.Search

/-! Links in a line and what they name. The first link of a line is found; a reference that is a link
names its target without heading and alias, and one without brackets names itself. -/
namespace BulletScript.Documents

open Text

/-- The text of a link in a line: it stands in double brackets behind some characters, the last of them
no exclamation mark, and holds no closing bracket. -/
def LinkAt (before : Option Char) (cs front inner : List Char) : Prop :=
  (∃ back, cs = front ++ '[' :: '[' :: inner ++ ']' :: ']' :: back) ∧
    front.getLast?.or before ≠ some '!' ∧ inner ≠ [] ∧ ']' ∉ inner

/-- The text of the first link of a line. -/
def IsFirstLink (line inner : String) : Prop :=
  ∃ front, LinkAt none line.toList front inner.toList ∧
    ∀ front' inner', LinkAt none line.toList front' inner' → front.length ≤ front'.length

section Finding

variable {before : Option Char} {cs front inner : List Char} {c : Char}

theorem bracketed?_eq_some_iff : bracketed? cs = some inner ↔
    (∃ back, cs = '[' :: '[' :: inner ++ ']' :: ']' :: back) ∧ inner ≠ [] ∧ ']' ∉ inner := by
  constructor
  · intro h
    unfold bracketed? at h
    split at h
    · next rest =>
      rw [List.span_eq_takeWhile_dropWhile] at h
      dsimp only at h
      split at h
      · next hclosed =>
        obtain rfl := Option.some.inj h
        obtain ⟨back, hback⟩ := List.isPrefixOf_iff_prefix.1 hclosed.2
        have hrest := (List.takeWhile_append_dropWhile (p := (· ≠ ']')) (l := rest)).symm
        rw [← hback] at hrest
        refine ⟨⟨back, congrArg ('[' :: '[' :: ·) hrest⟩, hclosed.1, fun hmem => ?_⟩
        simpa using List.mem_takeWhile_imp hmem
      · cases h
    · cases h
  · rintro ⟨⟨back, rfl⟩, hne, hopen⟩
    have hspan : (inner ++ ']' :: ']' :: back).span (· ≠ ']') = (inner, ']' :: ']' :: back) :=
      span_append (fun c hc => by simpa using ne_of_mem_of_not_mem hc hopen) (by simp)
    simp only [bracketed?, List.cons_append, hspan]
    rw [if_pos ⟨hne, by simp [List.isPrefixOf]⟩]

theorem linkAt_nil_iff : LinkAt before cs [] inner ↔
    (if before = some '!' then none else bracketed? cs) = some inner := by
  rw [Option.ite_none_left_eq_some, LinkAt, bracketed?_eq_some_iff, List.nil_append, List.getLast?_nil,
    Option.none_or]
  exact and_left_comm

theorem linkAt_cons_iff {d : Char} : LinkAt before (c :: cs) (d :: front) inner ↔
    d = c ∧ LinkAt (some c) cs front inner := by
  have hlast : (d :: front).getLast?.or before = front.getLast?.or (some d) := by
    rw [List.getLast?_cons]
    cases front.getLast? <;> rfl
  simp only [LinkAt, hlast, List.cons_append, List.cons.injEq]
  constructor
  · rintro ⟨⟨back, rfl, hback⟩, hrest⟩
    exact ⟨rfl, ⟨back, hback⟩, hrest⟩
  · rintro ⟨rfl, ⟨back, hback⟩, hrest⟩
    exact ⟨⟨back, rfl, hback⟩, hrest⟩

/-- The first link is found: at each character either a link starts here or the first one starts
later. -/
theorem linkAfter?_eq_some_iff : linkAfter? before cs = some inner ↔
    ∃ front, LinkAt before cs front inner ∧
      ∀ front' inner', LinkAt before cs front' inner' → front.length ≤ front'.length := by
  induction cs generalizing before with
  | nil =>
    refine ⟨nofun, ?_⟩
    rintro ⟨front, ⟨⟨back, hback⟩, -⟩, -⟩
    simp at hback
  | cons c rest ih =>
    rw [linkAfter?, Option.or_eq_some_iff, ih]
    constructor
    · rintro (hhere | ⟨hnone, front, hfront, hfirst⟩)
      · exact ⟨[], linkAt_nil_iff.2 hhere, fun _ _ _ => Nat.zero_le _⟩
      · refine ⟨c :: front, linkAt_cons_iff.2 ⟨rfl, hfront⟩, fun front' inner' h' => ?_⟩
        cases front' with
        | nil => exact absurd (hnone.symm.trans (linkAt_nil_iff.1 h')) nofun
        | cons d front' => exact Nat.succ_le_succ (hfirst front' inner' (linkAt_cons_iff.1 h').2)
    · rintro ⟨front, hfront, hfirst⟩
      cases front with
      | nil => exact .inl (linkAt_nil_iff.1 hfront)
      | cons d front =>
        refine .inr ⟨?_, front, (linkAt_cons_iff.1 hfront).2, fun front' inner' h' => ?_⟩
        · by_contra hlink
          obtain ⟨inner', hinner'⟩ := Option.ne_none_iff_exists'.1 hlink
          exact absurd (hfirst [] inner' (linkAt_nil_iff.2 hinner')) (Nat.not_succ_le_zero _)
        · exact Nat.le_of_succ_le_succ (hfirst (c :: front') inner' (linkAt_cons_iff.2 ⟨rfl, h'⟩))

theorem firstLink?_eq_some_iff {line inner : String} :
    firstLink? line = some inner ↔ IsFirstLink line inner := by
  rw [IsFirstLink, ← linkAfter?_eq_some_iff, firstLink?, Option.map_eq_some_iff]
  constructor
  · rintro ⟨cs, hcs, rfl⟩
    rwa [String.toList_ofList]
  · exact fun h => ⟨_, h, String.ofList_toList⟩

end Finding

/-- The characters of links: no brackets and braces, and no backticks. -/
def isLinkChar (c : Char) : Bool := !(['[', ']', '\x7b', '\x7d', '\x60'].contains c)

/-- A link to a document, with a heading in it and a label to show, if there are any. -/
structure Wikilink where
  target : String
  heading : Option String := none
  label : Option String := none
  target_chars : ∀ c ∈ target.toList, isLinkChar c = true ∧ c ≠ '#' ∧ c ≠ '|'
  heading_chars : ∀ text ∈ heading, ∀ c ∈ text.toList, isLinkChar c = true ∧ c ≠ '|'
  label_chars : ∀ text ∈ label, ∀ c ∈ text.toList, isLinkChar c = true

namespace Wikilink

/-- What is written behind the target. -/
def details (l : Wikilink) : String :=
  (l.heading.map ("#" ++ ·)).getD "" ++ (l.label.map ("|" ++ ·)).getD ""

def inner (l : Wikilink) : String := l.target ++ l.details

def text (l : Wikilink) : String := "[[" ++ l.inner ++ "]]"

end Wikilink

section Naming

variable {s : String} (l : Wikilink)

theorem linkTarget_plain (h : ∀ c ∈ s.toList, isLinkChar c = true) : linkTarget s = trim s := by
  have hopen : '[' ∉ (trim s).toList := by
    obtain ⟨front, back, hs, -⟩ := exists_eq_trimChars s.toList
    rw [trim, String.toList_ofList]
    intro hmem
    have hchar : isLinkChar '[' = true :=
      h '[' (hs ▸ List.mem_append_left _ (List.mem_append_right _ hmem))
    exact absurd hchar (by decide)
  unfold linkTarget
  dsimp only
  split
  · next rest hbrackets =>
    split at hbrackets <;> simp_all
  · rfl

theorem Wikilink.isLinkChar_inner : ∀ c ∈ l.inner.toList, isLinkChar c = true := by
  intro c hc
  simp only [Wikilink.inner, Wikilink.details, String.toList_append, List.mem_append] at hc
  rcases hc with htarget | hheading | hlabel
  · exact (l.target_chars c htarget).1
  · cases hcases : l.heading with
    | none => simp [hcases] at hheading
    | some heading =>
      have hmem : c = '#' ∨ c ∈ heading.toList := by simpa [hcases] using hheading
      rcases hmem with rfl | hmem
      · decide
      · exact (l.heading_chars heading hcases c hmem).1
  · cases hcases : l.label with
    | none => simp [hcases] at hlabel
    | some label =>
      have hmem : c = '|' ∨ c ∈ label.toList := by simpa [hcases] using hlabel
      rcases hmem with rfl | hmem
      · decide
      · exact l.label_chars label hcases c hmem

theorem ne_bracket_of_isLinkChar {c : Char} (h : isLinkChar c = true) : c ≠ ']' := by
  rintro rfl
  exact absurd h (by decide)

namespace Wikilink

theorem toList_text : l.text.toList =
    '[' :: '[' :: (l.target.toList ++ (l.details.toList ++ [']', ']'])) := by
  simp [text, inner]

/-- A link is written with its own characters and four brackets. -/
theorem not_mem_text {c : Char} (hc : isLinkChar c = false) (hopen : c ≠ '[') (hclose : c ≠ ']') :
    c ∉ l.text.toList := by
  intro hmem
  have hinner : c ∈ l.inner.toList := by simpa [text, hopen, hclose] using hmem
  exact absurd (l.isLinkChar_inner c hinner) (by simp [hc])

theorem trim_text : trim l.text = l.text := by
  rw [trim, trimChars_eq_self_iff.2, String.ofList_toList]
  constructor
  · intro c hc
    rw [toList_text] at hc
    obtain rfl := Option.some.inj hc
    decide
  · intro c hc
    have hlast : l.text.toList = '[' :: '[' :: l.inner.toList ++ [']'] ++ [']'] := by
      simp [text]
    rw [hlast, List.getLast?_concat] at hc
    obtain rfl := Option.some.inj hc
    decide

/-- The target ends before heading, label and closing brackets. -/
theorem span_target : (l.target.toList ++ (l.details.toList ++ [']', ']'])).span
    (fun c => c ≠ ']' && c ≠ '|' && c ≠ '#') = (l.target.toList, l.details.toList ++ [']', ']']) := by
  refine span_append (fun c hc => ?_) fun c hc => ?_
  · obtain ⟨hlink, hhash, hbar⟩ := l.target_chars c hc
    simp [ne_bracket_of_isLinkChar hlink, hbar, hhash]
  · cases hheading : l.heading <;> cases hlabel : l.label <;>
      simp [details, hheading, hlabel] at hc <;> simp [← hc]

variable {l}

theorem dropWhile_heading {heading : String} (h : l.heading = some heading) (rest : List Char) :
    (heading.toList ++ rest).dropWhile (fun c => !decide (c = ']') && !decide (c = '|')) =
      rest.dropWhile fun c => !decide (c = ']') && !decide (c = '|') := by
  refine List.dropWhile_append_of_pos fun c hc => ?_
  obtain ⟨hlink, hbar⟩ := l.heading_chars heading h c hc
  simp [ne_bracket_of_isLinkChar hlink, hbar]

theorem dropWhile_label {label : String} (h : l.label = some label) (rest : List Char) :
    (label.toList ++ rest).dropWhile (fun c => !decide (c = ']')) =
      rest.dropWhile fun c => !decide (c = ']') :=
  List.dropWhile_append_of_pos fun c hc => by
    simp [ne_bracket_of_isLinkChar (l.label_chars label h c hc)]

/-- A link names its target, whatever heading and label it has. -/
theorem linkTarget_text (l : Wikilink) : linkTarget l.text = trim l.target := by
  unfold linkTarget
  simp only [trim_text, toList_text]
  split
  · next rest hrest =>
    obtain rfl : l.target.toList ++ (l.details.toList ++ [']', ']']) = rest := by
      simpa using hrest
    rw [span_target]
    dsimp only
    rw [if_pos]
    · rfl
    -- heading and label are passed over, up to the brackets that close the link
    · cases hheading : l.heading with
      | none =>
        cases hlabel : l.label with
        | none => simp [details, hheading, hlabel]
        | some label => simp [details, hheading, hlabel, dropWhile_label hlabel]
      | some heading =>
        cases hlabel : l.label with
        | none => simp [details, hheading, hlabel, dropWhile_heading hheading]
        | some label =>
          simp [details, hheading, hlabel, dropWhile_heading hheading, dropWhile_label hlabel]
  · next hnone => exact absurd rfl (hnone _)

end Wikilink

end Naming

end BulletScript.Documents
