import BulletScript.Outline.Line

/-! List lines: what stands before their content, and how far they are indented. A task line is read
from its parts whichever mark is in its brackets and whatever is behind them, and its content is what
is behind the brackets and one blank after them. -/
namespace BulletScript.Outline

open Text

theorem not_isBlank_of_isBullet {c : Char} (h : isBullet c = true) : isBlank c = false := by
  simp only [isBullet, Bool.or_eq_true, decide_eq_true_eq] at h
  rcases h with (rfl | rfl) | rfl <;> decide

theorem takeWhile_append_cons {α : Type} {p : α → Bool} {xs ys : List α} {a : α}
    (hxs : ∀ x ∈ xs, p x = true) (ha : p a = false) : (xs ++ a :: ys).takeWhile p = xs := by
  rw [List.takeWhile_append_of_pos hxs, List.takeWhile_cons_of_neg (by simp [ha]), List.append_nil]

theorem dropWhile_append_cons {α : Type} {p : α → Bool} {xs ys : List α} {a : α}
    (hxs : ∀ x ∈ xs, p x = true) (ha : p a = false) :
    (xs ++ a :: ys).dropWhile p = a :: ys := by
  rw [List.dropWhile_append_of_pos hxs, List.dropWhile_cons_of_neg (by simp [ha])]

theorem leadingBlanks_blank (s : String) : ∀ c ∈ (leadingBlanks s).toList, isBlank c = true := by
  intro c hc
  rw [leadingBlanks, String.toList_ofList] at hc
  exact List.all_eq_true.1 List.all_takeWhile c hc

/-- What is in front of the text behind a bullet: the indentation, the bullet and its blanks. -/
theorem cutBullet?_eq_some {cs indent rest : List Char} {b : Char}
    (h : cutBullet? cs = some (indent, b, rest)) :
    isBullet b = true ∧ indent = cs.takeWhile isBlank ∧
      ∃ blanks, blanks ≠ [] ∧ (∀ x ∈ blanks, isBlank x = true) ∧
        cs = indent ++ b :: (blanks ++ rest) := by
  unfold cutBullet? at h
  split at h
  · rename_i bullet c more hdrop
    split at h
    · rename_i hbullet
      cases h
      rw [Bool.and_eq_true] at hbullet
      have hmore : ∀ x ∈ more.takeWhile isBlank, isBlank x = true :=
        List.all_eq_true.1 List.all_takeWhile
      refine ⟨hbullet.1, rfl, c :: more.takeWhile isBlank, List.cons_ne_nil _ _,
        List.forall_mem_cons.2 ⟨hbullet.2, hmore⟩, ?_⟩
      rw [List.cons_append, List.takeWhile_append_dropWhile, ← hdrop,
        List.takeWhile_append_dropWhile]
    · cases h
  · cases h

theorem cutBullet?_append {indent rest : List Char} {b c : Char}
    (hindent : ∀ x ∈ indent, isBlank x = true) (hb : isBullet b = true) (hc : isBlank c = true) :
    cutBullet? (indent ++ b :: c :: rest) = some (indent, b, rest.dropWhile isBlank) := by
  have hblank := not_isBlank_of_isBullet hb
  rw [cutBullet?, dropWhile_append_cons hindent hblank, takeWhile_append_cons hindent hblank]
  simp [hb, hc]

theorem oneLine?_of_no_newline {cs : List Char} (h : '\n' ∉ cs) : oneLine? cs = some cs := by
  have hall : ∀ c ∈ cs, decide (c ≠ '\n') = true := by
    intro c hc
    exact decide_eq_true fun heq => h (heq ▸ hc)
  have hline : cs.takeWhile (fun c => decide (c ≠ '\n')) = cs := by
    have happend : (cs ++ []).takeWhile (fun c => decide (c ≠ '\n')) = cs ++ [] :=
      List.takeWhile_append_of_pos hall
    rwa [List.append_nil] at happend
  rw [oneLine?]
  simp only [hline, if_pos (Nat.le_succ _)]

/-- What is left of a text behind the brackets of a task once the blank after them is gone. -/
def behindStatus : List Char → List Char
  | [] => []
  | c :: rest => if isBlank c then rest else c :: rest

theorem behindStatus_suffix (cs : List Char) : behindStatus cs <:+ cs := by
  unfold behindStatus
  split
  · exact List.suffix_refl _
  · split
    · exact List.suffix_cons _ _
    · exact List.suffix_refl _

theorem cutStatus?_eq_some {cs text : List Char} {status : Char}
    (h : cutStatus? cs = some (status, text)) :
    status ≠ '\n' ∧ ∃ behind, cs = '[' :: status :: ']' :: behind ∧ text = behindStatus behind := by
  unfold cutStatus? at h
  split at h
  · rename_i mark behind
    split at h
    · cases h
    · rename_i hmark
      split at h
      · rename_i c more
        cases h
        exact ⟨hmark, _, rfl, rfl⟩
      · cases h
        exact ⟨hmark, _, rfl, rfl⟩
  · cases h

theorem cutStatus?_suffix {cs text : List Char} {status : Char}
    (h : cutStatus? cs = some (status, text)) : text <:+ cs := by
  obtain ⟨-, behind, rfl, rfl⟩ := cutStatus?_eq_some h
  exact (behindStatus_suffix behind).trans ⟨['[', status, ']'], rfl⟩

theorem cutBullet?_of_bullet {line : String} {b : Char}
    (h : (ListLine.ofText line).bullet = some b) :
    ∃ indent rest, cutBullet? line.toList = some (indent, b, rest) := by
  unfold ListLine.ofText taskLine? itemLine? at h
  cases hb : cutBullet? line.toList with
  | none => simp [hb] at h
  | some parts =>
    obtain ⟨indent, bullet, rest⟩ := parts
    refine ⟨indent, rest, ?_⟩
    cases hs : cutStatus? rest with
    | none => cases ho : oneLine? rest <;> simp_all
    | some task => cases ht : oneLine? task.2 <;> cases ho : oneLine? rest <;> simp_all

/-- A line that is cut behind a bullet is a list line. -/
theorem bullet_of_cutBullet? {line : String} {indent rest : List Char} {b : Char}
    (h : cutBullet? line.toList = some (indent, b, rest)) (hline : '\n' ∉ line.toList) :
    (ListLine.ofText line).bullet = some b := by
  obtain ⟨_, rfl, blanks, -, -, heq⟩ := cutBullet?_eq_some h
  have hone {text : List Char} (ht : text <:+ rest) : oneLine? text = some text := by
    refine oneLine?_of_no_newline fun hn => hline ?_
    rw [heq]
    simp [ht.subset hn]
  unfold ListLine.ofText taskLine? itemLine?
  cases hs : cutStatus? rest with
  | none => simp [h, hs, hone (List.suffix_refl rest)]
  | some task => simp [h, hs, hone (cutStatus?_suffix hs)]

/-- A list line is its indentation, its bullet and what follows, which its content ends. -/
theorem ofText_of_bullet {line : String} {b : Char} (h : (ListLine.ofText line).bullet = some b)
    (hline : '\n' ∉ line.toList) :
    isBullet b = true ∧ ∃ tail, line.toList = line.toList.takeWhile isBlank ++ b :: tail ∧
      (ListLine.ofText line).content.toList <:+ tail := by
  have hcut {indent rest : List Char} {bullet : Char} {text : List Char}
      (hb : cutBullet? line.toList = some (indent, bullet, rest)) (ht : text <:+ rest) :
      isBullet bullet = true ∧ ∃ tail,
        line.toList = line.toList.takeWhile isBlank ++ bullet :: tail ∧ text <:+ tail := by
    obtain ⟨hbullet, rfl, blanks, -, -, heq⟩ := cutBullet?_eq_some hb
    exact ⟨hbullet, _, heq, ht.trans (List.suffix_append blanks rest)⟩
  have hone {indent rest : List Char} {bullet : Char} {text : List Char}
      (hb : cutBullet? line.toList = some (indent, bullet, rest)) (ht : text <:+ rest) :
      oneLine? text = some text := by
    obtain ⟨_, _, _, -, -, heq⟩ := cutBullet?_eq_some hb
    refine oneLine?_of_no_newline fun hn => hline ?_
    rw [heq]
    simp [ht.subset hn]
  unfold ListLine.ofText at h ⊢
  unfold taskLine? itemLine? at h ⊢
  cases hb : cutBullet? line.toList with
  | none => simp [hb] at h
  | some parts =>
    obtain ⟨indent, bullet, rest⟩ := parts
    cases hs : cutStatus? rest with
    | none =>
      have := hone hb (List.suffix_refl rest)
      simp [hb, hs, this] at h ⊢
      subst h
      exact hcut hb (List.suffix_refl rest)
    | some task =>
      obtain ⟨status, text⟩ := task
      have := hone hb (cutStatus?_suffix hs)
      simp [hb, hs, this] at h ⊢
      subst h
      exact hcut hb (cutStatus?_suffix hs)

theorem not_isBlankText_of_mem {line : String} {c : Char} (h : c ∈ line.toList)
    (hc : isBlank c = false) : isBlankText line = false := by
  rw [isBlankText, List.all_eq_false]
  exact ⟨c, h, by simp [hc]⟩

theorem not_isBlankText_of_bullet {line : String} {b : Char}
    (h : (ListLine.ofText line).bullet = some b) : isBlankText line = false := by
  obtain ⟨indent, rest, hcut⟩ := cutBullet?_of_bullet h
  obtain ⟨hb, -, blanks, -, -, heq⟩ := cutBullet?_eq_some hcut
  refine not_isBlankText_of_mem ?_ (not_isBlank_of_isBullet hb)
  rw [heq]
  simp

/-- The blanks before the first other character of a line are its indentation. -/
theorem leadingBlanks_of_eq {line : String} {indent tail : List Char} {c : Char}
    (h : line.toList = indent ++ c :: tail) (hindent : ∀ x ∈ indent, isBlank x = true)
    (hc : isBlank c = false) : leadingBlanks line = .ofList indent := by
  rw [leadingBlanks, h, takeWhile_append_cons hindent hc]

/-- Every character takes at least one column. -/
theorem length_expandTabsFrom {tab : Nat} (htab : 0 < tab) (cs : List Char) (column : Nat) :
    cs.length ≤ (expandTabsFrom tab column cs).length := by
  induction cs generalizing column with
  | nil => simp
  | cons c rest ih =>
    simp only [expandTabsFrom, if_neg (Nat.ne_of_gt htab)]
    split
    · have hmod := Nat.mod_lt column htab
      have := ih (column + (tab - column % tab))
      simp only [List.length_append, List.length_replicate, List.length_cons]
      omega
    · split
      · simpa using ih 0
      · simpa using ih (column + 1)

theorem length_expandTabsFrom_append {tab : Nat} (htab : 0 < tab) (xs ys : List Char)
    (column : Nat) :
    (expandTabsFrom tab column xs).length + ys.length ≤
      (expandTabsFrom tab column (xs ++ ys)).length := by
  induction xs generalizing column with
  | nil => simpa [expandTabsFrom] using length_expandTabsFrom htab ys column
  | cons c rest ih =>
    simp only [List.cons_append, expandTabsFrom]
    split
    · have := ih (column + (if tab = 0 then 0 else tab - column % tab))
      simp only [List.length_append, List.length_replicate]
      omega
    · split
      · have := ih 0
        simp only [List.length_cons]
        omega
      · have := ih (column + 1)
        simp only [List.length_cons]
        omega

/-- A line with more blanks at its start is indented further. -/
theorem indentWidth_lt {line below : String} {more : List Char}
    (h : (leadingBlanks below).toList = (leadingBlanks line).toList ++ more) (hmore : more ≠ []) :
    indentWidth line < indentWidth below := by
  have hlen := length_expandTabsFrom_append (show 0 < tabWidth by decide) (leadingBlanks line).toList
    more 0
  have hpos : 0 < more.length := List.length_pos_iff.2 hmore
  simp only [indentWidth, expandedLength, h]
  omega

/-- The parts of a task line: its indentation, its bullet, the blanks up to the brackets, the mark in
them, and what is behind them. -/
structure TaskParts where
  indent : List Char
  bullet : Char
  blanks : List Char
  status : Char
  behind : List Char
  indent_blank : ∀ c ∈ indent, isBlank c = true
  bullet_isBullet : isBullet bullet = true
  blanks_ne_nil : blanks ≠ []
  blanks_blank : ∀ c ∈ blanks, isBlank c = true
  status_ne : status ≠ '\n'
  behind_line : '\n' ∉ behind

theorem cutStatus?_bracketed {status : Char} (h : status ≠ '\n') (behind : List Char) :
    cutStatus? ('[' :: status :: ']' :: behind) = some (status, behindStatus behind) := by
  cases behind <;> simp [cutStatus?, behindStatus, h]

namespace TaskParts

/-- The line up to its brackets and with them. -/
def front (p : TaskParts) : List Char :=
  p.indent ++ p.bullet :: (p.blanks ++ ['[', p.status, ']'])

def line (p : TaskParts) : String := .ofList (p.front ++ p.behind)

/-- What the line is read as. -/
def task (p : TaskParts) : ListLine :=
  ⟨.ofList p.indent, some p.bullet, some p.status, .ofList (behindStatus p.behind)⟩

/-- The same line with something else behind its brackets. -/
def withBehind (p : TaskParts) (behind : List Char) (h : '\n' ∉ behind) : TaskParts :=
  { p with behind, behind_line := h }

/-- The same line with another mark in its brackets. -/
def withStatus (p : TaskParts) (status : Char) (h : status ≠ '\n') : TaskParts :=
  { p with status, status_ne := h }

/-- The line up to the mark in its brackets. -/
def opened (p : TaskParts) : String := .ofList (p.indent ++ p.bullet :: (p.blanks ++ ['[']))

/-- The line behind the mark in its brackets. -/
def closed (p : TaskParts) : String := .ofList (']' :: p.behind)

/-- The blank right behind the brackets, if there is one. -/
def gap (p : TaskParts) : List Char := (p.behind.head?.filter isBlank).toList

variable (p : TaskParts)

@[simp] theorem withBehind_behind {behind : List Char} (h : '\n' ∉ behind) :
    (p.withBehind behind h).behind = behind := rfl

@[simp] theorem withBehind_front {behind : List Char} (h : '\n' ∉ behind) :
    (p.withBehind behind h).front = p.front := rfl

theorem line_ne_empty : p.line ≠ "" := by
  simp [line, front]

theorem line_eq : p.line = p.opened ++ p.status.toString ++ p.closed := by
  apply String.toList_injective
  simp [line, front, opened, closed]

theorem taskLine?_line : taskLine? p.line = some p.task := by
  obtain ⟨c, more, hblanks⟩ := List.exists_cons_of_ne_nil p.blanks_ne_nil
  have hblank := p.blanks_blank
  rw [hblanks, List.forall_mem_cons] at hblank
  have hbracket : isBlank '[' = false := by decide
  have hcut : cutBullet? (p.front ++ p.behind) =
      some (p.indent, p.bullet, '[' :: p.status :: ']' :: p.behind) := by
    have hchars : p.front ++ p.behind =
        p.indent ++ p.bullet :: c :: (more ++ '[' :: p.status :: ']' :: p.behind) := by
      simp [front, hblanks]
    rw [hchars, cutBullet?_append p.indent_blank p.bullet_isBullet hblank.1,
      dropWhile_append_cons hblank.2 hbracket]
  have hone : oneLine? (behindStatus p.behind) = some (behindStatus p.behind) :=
    oneLine?_of_no_newline fun hn => p.behind_line ((behindStatus_suffix _).subset hn)
  simp [taskLine?, line, hcut, cutStatus?_bracketed p.status_ne, hone, task]

theorem ofText_line : ListLine.ofText p.line = p.task := by
  rw [ListLine.ofText, p.taskLine?_line, Option.some_or, Option.getD_some]

theorem content_line : (ListLine.ofText p.line).content = .ofList (behindStatus p.behind) := by
  rw [p.ofText_line, task]

theorem line_append {added : String} (h : '\n' ∉ p.behind ++ added.toList) :
    p.line ++ added = (p.withBehind (p.behind ++ added.toList) h).line := by
  apply String.toList_injective
  simp [line, withBehind, front]

theorem gap_append_behindStatus : p.gap ++ behindStatus p.behind = p.behind := by
  unfold gap behindStatus
  cases p.behind with
  | nil => rfl
  | cons c rest => cases hc : isBlank c <;> simp [Option.filter, hc]

theorem blank_of_mem_gap {c : Char} (hc : c ∈ p.gap) : isBlank c = true :=
  (Option.filter_eq_some_iff.1 (Option.mem_toList.1 hc)).2

/-- Only a blank can keep the brackets from being the end of what is in front of the content. -/
theorem endsWith_bracket : endsWith "]" (.ofList (p.front ++ p.gap)) = true ↔ p.gap = [] := by
  simp only [endsWith, List.isSuffixOf_iff_suffix, String.toList_ofList]
  constructor
  · rintro ⟨init, hinit⟩
    rcases List.eq_nil_or_concat p.gap with hgap | ⟨more, c, hgap⟩
    · exact hgap
    · have hblank := p.blank_of_mem_gap (c := c) (by simp [hgap])
      have hlast := congrArg List.getLast? hinit
      simp [hgap] at hlast
      exact absurd hblank (hlast ▸ by decide)
  · intro hgap
    rw [hgap, List.append_nil]
    exact ⟨p.indent ++ p.bullet :: (p.blanks ++ ['[', p.status]), by simp [front]⟩

/-- What is read behind the blank after the brackets is what was put there; without the blank, a
blank that it begins with is lost. -/
theorem behindStatus_gap_append (cs : List Char) : behindStatus (p.gap ++ cs) =
    if p.gap = [] then behindStatus cs else cs := by
  unfold gap
  cases h : p.behind.head?.filter isBlank with
  | none => simp
  | some c => simp [behindStatus, (Option.filter_eq_some_iff.1 h).2]

end TaskParts

theorem behindStatus_eq_self {cs : List Char} :
    behindStatus cs = cs ↔ ∀ c ∈ cs.head?, isBlank c = false := by
  cases cs with
  | nil => simp [behindStatus]
  | cons c rest => cases hc : isBlank c <;> simp [behindStatus, hc]

/-- Every task line has its parts. -/
theorem exists_taskParts {line : String} {task : ListLine} (h : taskLine? line = some task)
    (hline : '\n' ∉ line.toList) : ∃ p : TaskParts, p.line = line ∧ p.task = task := by
  obtain ⟨⟨indent, bullet, rest⟩, hcut, h⟩ := Option.bind_eq_some_iff.1 h
  obtain ⟨⟨status, text⟩, hstatus, h⟩ := Option.bind_eq_some_iff.1 h
  obtain ⟨hbullet, hindent, blanks, hne, hblanks, heq⟩ := cutBullet?_eq_some hcut
  have hblank : ∀ c ∈ indent, isBlank c = true := by
    rw [hindent]
    exact List.all_eq_true.1 List.all_takeWhile
  obtain ⟨hmark, behind, rfl, rfl⟩ := cutStatus?_eq_some hstatus
  have hbehind : '\n' ∉ behind := fun hn => hline (by simp [heq, hn])
  let p : TaskParts := ⟨indent, bullet, blanks, status, behind, hblank, hbullet, hne, hblanks, hmark,
    hbehind⟩
  have hp : p.line = line := by
    apply String.toList_injective
    simp [TaskParts.line, TaskParts.front, p, heq]
  have htask := p.taskLine?_line
  refine ⟨p, hp, Option.some.inj (htask.symm.trans ?_)⟩
  rw [hp]
  exact Option.bind_eq_some_iff.2 ⟨_, hcut, Option.bind_eq_some_iff.2 ⟨_, hstatus, h⟩⟩

theorem bullet_of_task {line : String} (htask : (taskLine? line).isSome) :
    (ListLine.ofText line).bullet.isSome := by
  obtain ⟨parsed, hparsed⟩ := Option.isSome_iff_exists.1 htask
  rw [ListLine.ofText, hparsed, Option.some_or, Option.getD_some]
  obtain ⟨_, _, hparsed⟩ := Option.bind_eq_some_iff.1 hparsed
  obtain ⟨_, _, hparsed⟩ := Option.bind_eq_some_iff.1 hparsed
  obtain ⟨_, _, hparsed⟩ := Option.bind_eq_some_iff.1 hparsed
  cases hparsed
  rfl

end BulletScript.Outline
