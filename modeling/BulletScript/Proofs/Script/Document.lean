import BulletScript.Proofs.Script.Nodes
import Mathlib.Data.List.Basic

/-! A document with a script is read with the triggers that were written: its lines are plain, and so
its outline is that of the script; below the tag each section is kept, and each is read as its
actions. -/
namespace BulletScript.Script

open Text Outline Written

section Texts

theorem preorder_append (xs ys : List Item) : preorder (xs ++ ys) = preorder xs ++ preorder ys := by
  induction xs with
  | nil => rfl
  | cons x xs ih => rw [List.cons_append, preorder, preorder, ih, List.append_assoc]

/-- Items whose lines can be read back. -/
def ArePlain (items : List Item) : Prop := ∀ item ∈ preorder items, PlainText item.text

variable {key : String} {xs ys : List Item} {text : String} {line : Option Nat}

theorem ArePlain.append (hxs : ArePlain xs) (hys : ArePlain ys) : ArePlain (xs ++ ys) := by
  rw [ArePlain, preorder_append]
  exact List.forall_mem_append.2 ⟨hxs, hys⟩

theorem ArePlain.cons (htext : PlainText text) (hxs : ArePlain xs) (hys : ArePlain ys) :
    ArePlain (⟨text, xs, line⟩ :: ys) := by
  rw [ArePlain, preorder, Item.preorder]
  exact List.forall_mem_append.2 ⟨List.forall_mem_cons.2 ⟨htext, hxs⟩, hys⟩

theorem ArePlain.nil : ArePlain [] := List.forall_mem_nil _

theorem ArePlain.block (hkey : isKey key = true) (hxs : ArePlain xs) :
    ArePlain (block key xs) := by
  cases xs with
  | nil => exact .nil
  | cons x xs => exact .cons (plainText_key hkey) hxs .nil

theorem arePlain_items : ∀ nodes : List Node, ArePlain (items nodes)
  | [] => .nil
  | .leaf leaf onError :: rest =>
    .cons (plainText_headText leaf.isOptions leaf.main)
      (.block (by decide) (arePlain_items onError)) (arePlain_items rest)
  | .branch condition yes no onError :: rest =>
    .cons (plainText_headText (isOptions_nil .if) condition)
      (((arePlain_items yes).append (.block (by decide) (arePlain_items no))).append
        (.block (by decide) (arePlain_items onError)))
      (arePlain_items rest)
  | .loop target itemName indexName body onError :: rest =>
    .cons (plainText_headText (isOptions_loop itemName indexName) target)
      ((arePlain_items body).append (.block (by decide) (arePlain_items onError)))
      (arePlain_items rest)

theorem isKey_kind (kind : TriggerKind) : isKey kind.text = true := by
  cases kind <;> decide

/-- A tag is one word behind its sign. -/
theorem plainText_tag (tag : Tag) : PlainText tag.text := by
  have htag := tag.isTag
  unfold tagOf? at htag
  split at htag
  · next name hname =>
    rw [Option.ite_none_right_eq_some, Option.some.injEq] at htag
    obtain ⟨hword, heq⟩ := htag
    have hchars : tag.text.toList = '#' :: name := by rw [← heq, String.toList_ofList]
    refine ⟨?_, fun c hc => ?_⟩
    · rw [trim, hname, ← hchars, String.ofList_toList]
    · have hblank : isBlank c = false := by
        rw [hchars] at hc
        rcases List.mem_cons.1 hc with rfl | hc
        · decide
        · have hall := List.all_eq_true.1 (Bool.and_eq_true_iff.1 hword).2 c hc
          simp only [Bool.or_eq_true, decide_eq_true_eq] at hall
          rcases hall with (hc | rfl) | rfl
          · exact isBlank_of_isWord hc
          · decide
          · decide
      exact isLineBoundary_of_not_isBlank hblank
  · cases htag

theorem arePlain_script (script : Written) : ArePlain [script.item] := by
  refine .cons (plainText_tag script.tag) ?_ .nil
  induction script.sections with
  | nil => exact .nil
  | cons s rest ih => exact .cons (plainText_key (isKey_kind s.kind)) (arePlain_items s.nodes) ih

end Texts

section Sections

variable {α κ : Type} [DecidableEq κ] {key : α → κ}

/-- Entries whose keys come in the order of a list are found by going through the list. -/
theorem filterMap_find? {ks : List κ} (hnodup : ks.Nodup) {entries : List α}
    (h : (entries.map key).Sublist ks) :
    ks.filterMap (fun k => entries.find? (key · = k)) = entries := by
  induction ks generalizing entries with
  | nil =>
    obtain rfl := List.map_eq_nil_iff.1 (List.sublist_nil.1 h)
    rfl
  | cons k ks ih =>
    obtain ⟨hk, hks⟩ := List.nodup_cons.1 hnodup
    have habsent (rest : List α) (hrest : (rest.map key).Sublist ks) :
        rest.find? (key · = k) = none := by
      refine List.find?_eq_none.2 fun e he heq => hk ?_
      exact of_decide_eq_true heq ▸ hrest.subset (List.mem_map_of_mem he)
    rcases List.sublist_cons_iff.1 h with h | ⟨keys, hkeys, hrest⟩
    · rw [List.filterMap_cons, habsent entries h]
      exact ih hks h
    · obtain ⟨e, rest, rfl, he, rfl⟩ := List.map_eq_cons_iff.1 hkeys
      have hother : ∀ k' ∈ ks, (e :: rest).find? (key · = k') = rest.find? (key · = k') := by
        intro k' hk'
        have hne : key e ≠ k' := fun heq => hk (he ▸ heq ▸ hk')
        rw [List.find?_cons_of_neg (by simpa using hne)]
      have hself : (e :: rest).find? (key · = k) = some e :=
        List.find?_cons_of_pos (by simpa using he)
      rw [List.filterMap_cons, hself]
      dsimp only
      rw [List.filterMap_congr hother, ih hks hrest]

end Sections

section Drafts

variable {sections : List Written.Section} {kind : TriggerKind}

theorem ofText?_kind (kind : TriggerKind) : TriggerKind.ofText? kind.text = some kind := by
  cases kind <;> decide

/-- One section below a tag is kept as it is. -/
theorem collectDraft_cons (s : Written.Section) (n : Nat) (draft : Draft) :
    collectDraft draft (numbered n ((s :: sections).map (·.item))) =
      collectDraft (draft.setSection s.kind (.outline (numbered (n + 1) (items s.nodes))))
        (numbered (n + s.item.preorder.length) (sections.map (·.item))) := by
  have htext : (s.kind.text ++ ":").toList = s.kind.text.toList ++ ':' :: [] := by simp
  have hkey := keyValue?_eq_some (plainText_key (isKey_kind s.kind)) (isKey_kind s.kind) htext
  rw [List.map_cons, numbered, collectDraft, Written.Section.item, Item.numbered, collectItem, hkey]
  dsimp only
  rw [ofText?_kind]

theorem settings_collectDraft (n : Nat) (draft : Draft) :
    (collectDraft draft (numbered n (sections.map (·.item)))).settings = draft.settings := by
  induction sections generalizing n draft with
  | nil => rfl
  | cons s rest ih => rw [collectDraft_cons, ih]; rfl

theorem section?_setSection (draft : Draft) (kind' : TriggerKind) (items : List Item) :
    (draft.setSection kind' (.outline items)).section? kind =
      if kind = kind' then some (.outline items) else draft.section? kind := by
  by_cases hkind : kind = kind'
  · simp [Draft.section?, Draft.setSection, hkind, Section.isSome, Option.filter]
  · have hbeq : (kind == kind') = false := by simpa using hkind
    simp [Draft.section?, Draft.setSection, List.lookup_cons, hkind, hbeq]

theorem section?_of_not_mem (h : kind ∉ sections.map (·.kind)) (n : Nat) (draft : Draft) :
    (collectDraft draft (numbered n (sections.map (·.item)))).section? kind =
      draft.section? kind := by
  induction sections generalizing n draft with
  | nil => rfl
  | cons s rest ih =>
    rw [List.map_cons, List.mem_cons, not_or] at h
    rw [collectDraft_cons, ih h.2, section?_setSection, if_neg h.1]

theorem section?_of_mem (hnodup : (sections.map (·.kind)).Nodup) {s : Written.Section}
    (h : s ∈ sections) (n : Nat) (draft : Draft) : ∃ m,
    (collectDraft draft (numbered n (sections.map (·.item)))).section? s.kind =
      some (.outline (numbered m (items s.nodes))) := by
  induction sections generalizing n draft with
  | nil => cases h
  | cons first rest ih =>
    obtain ⟨hfirst, hrest⟩ := List.nodup_cons.1 hnodup
    rw [collectDraft_cons]
    rcases List.mem_cons.1 h with rfl | h
    -- no section after it is of its kind, and so none replaces it
    · exact ⟨n + 1, by rw [section?_of_not_mem hfirst, section?_setSection, if_pos rfl]⟩
    · exact ih hrest h _ _

end Drafts

section Documents

/-- A section is read as its trigger. -/
theorem readTrigger_section (s : Written.Section) (n : Nat) : ∃ trigger,
    readTrigger s.kind (.outline (numbered n (items s.nodes))) = pure (some trigger) ∧
      trigger.bare = s.trigger := by
  obtain ⟨read, hread, hbare⟩ := reads_nodes n s.nodes
  have hne : read.isEmpty = false := by
    rw [List.isEmpty_eq_false_iff]
    rintro rfl
    have hnodes := s.nonempty
    cases hs : s.nodes with
    | nil => exact hnodes hs
    | cons node rest =>
      rw [hs] at hbare
      cases hbare
  refine ⟨⟨s.kind, read⟩, ?_, by rw [Trigger.bare, hbare]; rfl⟩
  rw [readTrigger]
  dsimp only [Section.items?]
  rw [hread, pure_bind, hne]
  rfl

/-- What is read of a configuration for one kind of trigger. -/
def readKind (draft : Draft) (kind : TriggerKind) : Reading (Option Trigger) :=
  match draft.section? kind with
  | some content => readTrigger kind content
  | none => return none

variable {draft : Draft} {sections : List Written.Section}

theorem parseDraft_eq (draft : Draft) (tag : String) :
    parseDraft draft tag =
      let found := (TriggerKind.all.mapM (readKind draft)).run []
      if (found.1.filterMap id).isEmpty then .error (.noTriggers tag)
      else .ok ⟨⟨found.1.filterMap id, tag, draft.settings⟩, found.2⟩ := rfl

theorem parseDraft_of_readKind {trigger : TriggerKind → Option Trigger}
    (h : ∀ kind, readKind draft kind = pure (trigger kind))
    (hne : TriggerKind.all.filterMap trigger ≠ []) (tag : String) :
    parseDraft draft tag =
      .ok ⟨⟨TriggerKind.all.filterMap trigger, tag, draft.settings⟩, []⟩ := by
  have hrun : (TriggerKind.all.mapM (readKind draft)).run [] =
      (TriggerKind.all.map trigger, []) := by
    rw [funext h, List.mapM_pure]
    rfl
  rw [parseDraft_eq, hrun]
  dsimp only
  rw [List.filterMap_map, Function.id_comp, if_neg (by simpa using hne)]

/-- A configuration whose sections are these is read as their triggers. -/
theorem parseDraft_sections (hnonempty : sections ≠ [])
    (hordered : (sections.map (·.kind)).Sublist TriggerKind.all)
    (hmem : ∀ s ∈ sections, ∃ n,
      draft.section? s.kind = some (.outline (numbered n (items s.nodes))))
    (hother : ∀ kind ∉ sections.map (·.kind), draft.section? kind = none) (tag : String) :
    ∃ triggers : List Trigger, triggers.map Trigger.bare = sections.map (·.trigger) ∧
      parseDraft draft tag = .ok ⟨⟨triggers, tag, draft.settings⟩, []⟩ := by
  have hread (kind : TriggerKind) : ∃ trigger, readKind draft kind = pure trigger ∧
      trigger.map Trigger.bare = (sections.find? (·.kind = kind)).map (·.trigger) := by
    cases hfind : sections.find? (·.kind = kind) with
    | some s =>
      obtain rfl : s.kind = kind := by simpa using List.find?_some hfind
      obtain ⟨n, hsection⟩ := hmem s (List.mem_of_find?_eq_some hfind)
      obtain ⟨trigger, htrigger, hbare⟩ := readTrigger_section s n
      exact ⟨some trigger, by rw [readKind, hsection, ← htrigger],
        by rw [Option.map_some, hbare]; rfl⟩
    | none =>
      have hkind : kind ∉ sections.map (·.kind) := by simpa using hfind
      exact ⟨none, by rw [readKind, hother kind hkind], rfl⟩
  choose trigger htrigger hbare using hread
  have hsections := filterMap_find? (by decide : TriggerKind.all.Nodup) hordered
  have htriggers : (TriggerKind.all.filterMap trigger).map Trigger.bare =
      sections.map (·.trigger) := by
    rw [List.map_filterMap, List.filterMap_congr fun kind _ => hbare kind, ← List.map_filterMap,
      hsections]
  have hne : TriggerKind.all.filterMap trigger ≠ [] := by
    intro hnil
    rw [hnil] at htriggers
    exact hnonempty (List.map_eq_nil_iff.1 htriggers.symm)
  exact ⟨_, htriggers, parseDraft_of_readKind htrigger hne tag⟩

/-- Reading undoes writing: a document with a script holds this script alone, with the actions that
were written at each trigger, and nothing is warned about. -/
theorem ofText_written (script : Written) {layout : Layout} (hlayout : layout.Regular)
    (depth : Nat) :
    ∃ parsed : Parsed, Library.ofText (script.text layout depth) =
        { scripts := [(script.tag.text, parsed)], log := [] } ∧
      parsed.config.tag = script.tag.text ∧
      parsed.config.triggers.map Trigger.bare = script.sections.map (·.trigger) ∧
      parsed.config.settings = [] ∧ parsed.warnings = [] := by
  have hdocument : Outline.ofText (script.text layout depth) = numbered 0 [script.item] :=
    hlayout.ofText_linesOf (arePlain_script script) depth
  have hnodup : (script.sections.map (·.kind)).Nodup :=
    script.ordered.nodup (by decide : TriggerKind.all.Nodup)
  let draft := collectDraft {} (numbered 1 (script.sections.map (·.item)))
  have hmem : ∀ s ∈ script.sections, ∃ n,
      draft.section? s.kind = some (.outline (numbered n (items s.nodes))) :=
    fun s hs => section?_of_mem hnodup hs 1 {}
  obtain ⟨triggers, hbare, hparsed⟩ := parseDraft_sections script.nonempty script.ordered hmem
    (fun kind hkind => section?_of_not_mem hkind 1 {}) script.tag.text
  have htriggers : draft.hasTriggers = true := by
    obtain ⟨s, hs⟩ := List.exists_mem_of_ne_nil _ script.nonempty
    obtain ⟨n, hsection⟩ := hmem s hs
    refine List.any_eq_true.2 ⟨s.kind, by cases s.kind <;> decide, ?_⟩
    rw [hsection]
    rfl
  refine ⟨⟨⟨triggers, script.tag.text, draft.settings⟩, []⟩, ?_, rfl, hbare,
    settings_collectDraft 1 {}, rfl⟩
  have hadd : Library.add {} (script.item.numbered 0) =
      { scripts := [(script.tag.text, ⟨⟨triggers, script.tag.text, draft.settings⟩, []⟩)],
        log := [] } := by
    unfold Library.add
    rw [text_numbered, Written.item, script.tag.isTag]
    dsimp only
    rw [Item.numbered]
    dsimp only
    rw [if_neg (by simpa using htriggers), hparsed]
    rfl
  rw [Library.ofText, hdocument, numbered, List.foldl_cons, hadd]
  rfl

/-- A script with a branch, a loop in its `else`, and failures handled within. -/
def habit : Written where
  tag := ⟨"#habit/daily", by decide⟩
  sections := [
    ⟨.onTrigger, [
      .leaf (.log ⟨"start: now", by decide⟩ (some .warning)) [],
      .branch ⟨"count > 1", by decide⟩
        [.leaf (.set ⟨"x", by decide⟩ ⟨"in: a", by decide⟩ none (some ⟨"b", by decide⟩)) []]
        [.loop ⟨"tasks", by decide⟩ (some ⟨"t", by decide⟩) (some ⟨"i", by decide⟩)
          [.leaf (.match ⟨"as: t", by decide⟩ none) [.leaf (.return none) []]]
          []]
        [.leaf (.delay ⟨"2s", by decide⟩) []]], by simp⟩,
    ⟨.onReset, [.leaf (.return (some ⟨"done", by decide⟩)) []], by simp⟩]
  nonempty := by simp
  ordered := by decide

theorem ofText_habit :
    linesOf {} 0 [habit.item] =
        ["- #habit/daily",
          "  - onTrigger:",
          "    - log: `start: now` level: `warning`",
          "    - if: `count > 1`",
          "      - set: `x` value: `in: a` in: `b`",
          "      - else:",
          "        - foreach: `tasks` as: `t` index: `i`",
          "          - match: `as: t`",
          "            - onError:",
          "              - return:",
          "      - onError:",
          "        - delay: `2s`",
          "  - onReset:",
          "    - return: `done`"] ∧
      ∃ parsed : Parsed, Library.ofText (habit.text {} 0) =
          { scripts := [("#habit/daily", parsed)], log := [] } ∧
        parsed.config.tag = "#habit/daily" ∧
        parsed.config.triggers.map Trigger.bare = habit.sections.map (·.trigger) ∧
        parsed.config.settings = [] ∧ parsed.warnings = [] :=
  ⟨by rfl, ofText_written habit ⟨by decide, by simp, by decide⟩ 0⟩

end Documents

end BulletScript.Script
