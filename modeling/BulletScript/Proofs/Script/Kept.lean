import BulletScript.Proofs.Script.Authored
import BulletScript.Proofs.Script.Document
import Mathlib.Data.List.Induction

/-! What becomes of the actions that are written in a document. Each is read, or it or one that it
stands in is named in a warning, unless the section of its trigger, or an error handler on the way to
it, is written again later: then it is lost without a trace. -/
namespace BulletScript.Script

open Outline

mutual

/-- The sections of triggers in an item: its children, or the sections in it if it is a block of
settings. -/
def triggersAt : Item → List (TriggerKind × List Item)
  | ⟨text, children, _⟩ =>
    match keyValue? text with
    | none => []
    | some (key, _) =>
      match TriggerKind.ofText? key with
      | some kind => [(kind, children)]
      | none => if key = "config" then triggersIn children else []

/-- The sections of triggers below a tag, in the order in which they are written. -/
def triggersIn : List Item → List (TriggerKind × List Item)
  | [] => []
  | item :: rest => triggersAt item ++ triggersIn rest

end

/-- The bullets of actions in some sections. Those in a section with another of its kind behind it are
not kept. -/
def sectionBullets : List (TriggerKind × List Item) → List (TriggerKind × Bullet)
  | [] => []
  | (kind, items) :: rest =>
    (bulletsOf items).map (fun b => (kind, b.keptIf (!rest.any (·.1 = kind)))) ++ sectionBullets rest

/-- The bullets of actions below a tag, with the triggers they are for. -/
def tagBullets (root : Item) : List (TriggerKind × Bullet) := sectionBullets (triggersIn root.children)

/-- The actions of some triggers, one after the other. -/
def triggerActions (triggers : List Trigger) : List Action := triggers.flatMap (·.actions)

/-- Whether a bullet, or anything that it stands in, is named in a warning. -/
def Noted (warnings : List String) (kind : TriggerKind) (b : Bullet) : Prop :=
  b.Named warnings ∨ "No actions found for trigger: " ++ kind.text ∈ warnings

section Sections

variable {kind : TriggerKind} {sections : List (TriggerKind × List Item)} {items : List Item}
  {b : Bullet}

/-- The last section of a kind. -/
def lastSection (kind : TriggerKind) : List (TriggerKind × List Item) → Option (List Item)
  | [] => none
  | (first, items) :: rest => (lastSection kind rest).or (if first = kind then some items else none)

theorem lastSection_eq_none :
    lastSection kind sections = none ↔ sections.any (·.1 = kind) = false := by
  induction sections with
  | nil => simp [lastSection]
  | cons first rest ih =>
    obtain ⟨first, items⟩ := first
    by_cases hfirst : first = kind <;> simp [lastSection, ih, hfirst]

theorem keptIf_true (b : Bullet) : b.keptIf true = b := rfl

/-- The bullets that are kept are those in the last sections of their kinds. -/
theorem mem_sectionBullets (hkept : b.kept = true) : (kind, b) ∈ sectionBullets sections ↔
    ∃ items, lastSection kind sections = some items ∧ b ∈ bulletsOf items := by
  induction sections with
  | nil => simp [sectionBullets, lastSection]
  | cons first rest ih =>
    obtain ⟨first, items⟩ := first
    rw [sectionBullets, List.mem_append, ih, lastSection]
    cases hlast : lastSection kind rest with
    | some later =>
      have hany : rest.any (·.1 = kind) = true := by
        rw [← Bool.not_eq_false, ← lastSection_eq_none, hlast]
        simp
      simp only [Option.some.injEq, exists_eq_left', Option.some_or, or_iff_right_iff_imp]
      intro hmem
      obtain ⟨inner, -, heq⟩ := List.mem_map.1 hmem
      obtain ⟨rfl, rfl⟩ := Prod.mk.inj heq
      rw [hany] at hkept
      cases hkept
    | none =>
      have hany := lastSection_eq_none.1 hlast
      by_cases hfirst : first = kind
      · subst hfirst
        simp [hany, keptIf_true]
      · simp [hfirst]

/-- The sections of a draft by their kinds, the latest first. -/
theorem lookup_reverse (kind : TriggerKind) (sections : List (TriggerKind × List Item)) :
    ((sections.map (Prod.map id Section.outline)).reverse).lookup kind =
      (lastSection kind sections).map .outline := by
  induction sections with
  | nil => rfl
  | cons first rest ih =>
    obtain ⟨first, items⟩ := first
    rw [List.map_cons, List.reverse_cons, List.lookup_append, ih, lastSection]
    cases lastSection kind rest with
    | some later => rfl
    | none =>
      by_cases hfirst : first = kind
      · simp [hfirst]
      · have hne : (kind == first) = false := by simpa using Ne.symm hfirst
        simp [hfirst, List.lookup_cons, hne]

mutual

theorem sections_collectItem (draft : Draft) : ∀ item : Item,
    (collectItem draft item).sections =
      ((triggersAt item).map (Prod.map id Section.outline)).reverse ++ draft.sections
  | ⟨text, children, line⟩ => by
    rw [collectItem, triggersAt]
    cases keyValue? text with
    | none => rfl
    | some entry =>
      obtain ⟨key, value⟩ := entry
      dsimp only
      cases TriggerKind.ofText? key with
      | some kind => rfl
      | none =>
        dsimp only
        split
        · exact sections_collectDraft draft children
        · split <;> rfl

/-- The sections of a draft, the latest first. -/
theorem sections_collectDraft (draft : Draft) : ∀ items : List Item,
    (collectDraft draft items).sections =
      ((triggersIn items).map (Prod.map id Section.outline)).reverse ++ draft.sections
  | [] => rfl
  | item :: rest => by
    rw [collectDraft, sections_collectDraft _ rest, sections_collectItem draft item, triggersIn,
      List.map_append, List.reverse_append, List.append_assoc]

end

theorem section?_collectDraft (kind : TriggerKind) (items : List Item) :
    (collectDraft {} items).section? kind =
      (lastSection kind (triggersIn items)).map .outline := by
  rw [Draft.section?, sections_collectDraft, List.append_nil, lookup_reverse]
  cases lastSection kind (triggersIn items) <;> rfl

mutual

theorem sublist_triggersAt : ∀ item : Item,
    ((triggersAt item).flatMap fun s => preorder s.2).Sublist item.preorder
  | ⟨text, children, line⟩ => by
    have hbelow : (preorder children).Sublist (Item.preorder ⟨text, children, line⟩) := by
      rw [Item.preorder]
      exact List.sublist_cons_self ..
    rw [triggersAt]
    split
    · exact List.nil_sublist _
    split
    · simpa using hbelow
    split
    · exact (sublist_triggersIn children).trans hbelow
    · exact List.nil_sublist _

theorem sublist_triggersIn : ∀ items : List Item,
    ((triggersIn items).flatMap fun s => preorder s.2).Sublist (preorder items)
  | [] => List.Sublist.refl _
  | item :: rest => by
    rw [triggersIn, List.flatMap_append, preorder]
    exact (sublist_triggersAt item).append (sublist_triggersIn rest)

end

theorem items_sectionBullets (sections : List (TriggerKind × List Item)) :
    ((sectionBullets sections).map (·.2.item)).Subperm (sections.flatMap fun s => preorder s.2) := by
  induction sections with
  | nil => exact List.Subperm.refl _
  | cons first rest ih =>
    obtain ⟨kind, items⟩ := first
    rw [sectionBullets, List.map_append, List.map_map, List.flatMap_cons]
    exact (items_bulletsOf items).append ih

end Sections

section Triggers

variable {kind : TriggerKind} {items : List Item} {tag : String} {parsed : Parsed}

/-- The bullets in the last section of a kind. -/
def lastBullets (sections : List (TriggerKind × List Item)) (kind : TriggerKind) : List Bullet :=
  bulletsOf ((lastSection kind sections).getD [])

theorem mem_lastBullets {b : Bullet} {sections : List (TriggerKind × List Item)}
    (hkept : b.kept = true) : b ∈ lastBullets sections kind ↔ (kind, b) ∈ sectionBullets sections := by
  rw [mem_sectionBullets hkept, lastBullets]
  cases lastSection kind sections <;> simp [bulletsOf]

theorem run_readTrigger (kind : TriggerKind) (items : List Item) (ws : List String) :
    (readTrigger kind (.outline items)).run ws =
      (some ⟨kind, ((readActions items).run ws).1⟩, ((readActions items).run ws).2 ++
        if ((readActions items).run ws).1.isEmpty then
          ["No actions found for trigger: " ++ kind.text] else []) := by
  rw [readTrigger]
  dsimp only [Section.items?]
  rw [Reading.run_bind]
  split
  · rfl
  · exact congrArg _ (List.append_nil _).symm

theorem reads_trigger (kind : TriggerKind) (items : List Item) :
    Reads (readTrigger kind (.outline items)) (fun t => triggerActions t.toList) (bulletsOf items) := by
  intro ws
  obtain ⟨hle, hcovers⟩ := reads_actions items ws
  rw [run_readTrigger]
  refine ⟨List.Subset.trans hle (List.subset_append_left ..), ?_⟩
  simpa [triggerActions] using hcovers.mono (List.subset_append_left ..)

theorem reads_kind (kind : TriggerKind) (items : List Item) :
    Reads (readKind (collectDraft {} items) kind) (fun t => triggerActions t.toList)
      (lastBullets (triggersIn items) kind) := by
  rw [readKind, section?_collectDraft, lastBullets]
  cases lastSection kind (triggersIn items) with
  | none => exact fun ws => ⟨List.Subset.refl _, .nil _⟩
  | some last => exact reads_trigger kind last

theorem reads_kinds (items : List Item) (kinds : List TriggerKind) :
    Reads (kinds.mapM (readKind (collectDraft {} items))) (fun ts => triggerActions (ts.filterMap id))
      (kinds.flatMap (lastBullets (triggersIn items))) := by
  induction kinds with
  | nil => exact fun ws => ⟨List.Subset.refl _, .nil _⟩
  | cons kind rest ih =>
    rw [List.mapM_cons, List.flatMap_cons]
    refine (reads_kind kind items).join ih fun trigger triggers => ⟨_, rfl, fun node => ?_⟩
    cases trigger <;> simp [triggerActions]

/-- A kind with a section has a trigger. -/
theorem triggers_ne_nil {last : List Item} (h : lastSection kind (triggersIn items) = some last)
    {kinds : List TriggerKind} (hkind : kind ∈ kinds) (ws : List String) :
    ((kinds.mapM (readKind (collectDraft {} items))).run ws).1.filterMap id ≠ [] := by
  induction kinds generalizing ws with
  | nil => cases hkind
  | cons first rest ih =>
    rw [List.mapM_cons, Reading.run_bind, Reading.run_bind]
    change List.filterMap id (_ :: _) ≠ []
    cases hfirst : ((readKind (collectDraft {} items) first).run ws).1 with
    | some trigger => simp
    | none =>
      rcases List.mem_cons.1 hkind with rfl | hkind
      · rw [readKind, section?_collectDraft, h, Option.map_some, run_readTrigger] at hfirst
        cases hfirst
      · exact ih hkind _

/-- What was read from the items below a tag. -/
theorem covers_parsed (h : parseDraft (collectDraft {} items) tag = .ok parsed) :
    Covers (triggerActions parsed.config.triggers) parsed.warnings
      (TriggerKind.all.flatMap (lastBullets (triggersIn items))) := by
  rw [parseDraft_eq] at h
  dsimp only at h
  split at h
  · cases h
  · cases h
    exact (reads_kinds items TriggerKind.all []).2

theorem TriggerKind.mem_all (kind : TriggerKind) : kind ∈ TriggerKind.all := by
  cases kind <;> decide

theorem exists_lastSection {sections : List (TriggerKind × List Item)} (h : sections ≠ []) :
    ∃ kind last, lastSection kind sections = some last := by
  obtain ⟨⟨kind, first⟩, rest, rfl⟩ := List.exists_cons_of_ne_nil h
  refine ⟨kind, Option.ne_none_iff_exists'.1 ?_⟩
  rw [Ne, lastSection_eq_none]
  simp

theorem hasTriggers_collectDraft (h : triggersIn items ≠ []) :
    (collectDraft {} items).hasTriggers = true := by
  obtain ⟨kind, last, hlast⟩ := exists_lastSection h
  refine List.any_eq_true.2 ⟨kind, TriggerKind.mem_all kind, ?_⟩
  rw [section?_collectDraft, hlast]
  rfl

/-- Items with a section of a trigger have a script. -/
theorem exists_parsed (h : triggersIn items ≠ []) (tag : String) :
    ∃ parsed, parseDraft (collectDraft {} items) tag = .ok parsed := by
  obtain ⟨kind, last, hlast⟩ := exists_lastSection h
  have hne := triggers_ne_nil hlast (TriggerKind.mem_all kind) []
  rw [parseDraft_eq]
  dsimp only
  split
  next hempty => exact absurd (List.isEmpty_iff.1 hempty) hne
  next => exact ⟨_, rfl⟩

end Triggers

section Documents

variable {roots : List Item} {root item : Item} {tag text : String} {parsed : Parsed}

/-- The item that a script was read from: the last one of its tag with a section of a trigger. -/
def IsSource (roots : List Item) (tag : String) (parsed : Parsed) (root : Item) : Prop :=
  ∃ front back, roots = front ++ root :: back ∧ tagOf? root.text = some tag ∧
    parseDraft (collectDraft {} root.children) tag = .ok parsed ∧
    ∀ later ∈ back, tagOf? later.text = some tag → triggersIn later.children = []

theorem IsSource.concat (h : IsSource roots tag parsed root)
    (hitem : tagOf? item.text = some tag → triggersIn item.children = []) :
    IsSource (roots ++ [item]) tag parsed root := by
  obtain ⟨front, back, rfl, htag, hparsed, hback⟩ := h
  refine ⟨front, back ++ [item], by simp, htag, hparsed, fun later hlater => ?_⟩
  rcases List.mem_append.1 hlater with hlater | hlater
  · exact hback later hlater
  · rw [List.mem_singleton.1 hlater]
    exact hitem

/-- An item adds the script that is read from it, or leaves those there are: then it is of no tag, or
has no section of a trigger. -/
theorem mem_scripts_add {library : Library} (h : (tag, parsed) ∈ (library.add item).scripts) :
    (tag, parsed) ∈ library.scripts ∧
        (tagOf? item.text = some tag → triggersIn item.children = []) ∨
      tagOf? item.text = some tag ∧
        parseDraft (collectDraft {} item.children) tag = .ok parsed := by
  unfold Library.add at h
  split at h
  next hnone => exact .inl ⟨h, fun htag => nomatch hnone.symm.trans htag⟩
  next name hname =>
    dsimp only at h
    split at h
    next hskip =>
      refine .inl ⟨h, fun _ => Classical.byContradiction fun hsections => ?_⟩
      rw [hasTriggers_collectDraft hsections] at hskip
      cases hskip
    split at h
    next fault hfault =>
      refine .inl ⟨h, fun _ => Classical.byContradiction fun hsections => ?_⟩
      obtain ⟨parsed, hparsed⟩ := exists_parsed hsections name
      cases hfault.symm.trans hparsed
    next new hnew =>
      have hother (hne : tag ≠ name) :
          tagOf? item.text = some tag → triggersIn item.children = [] := fun htag =>
        absurd (Option.some.inj (htag.symm.trans hname)) hne
      dsimp only at h
      split at h
      · obtain ⟨⟨t, old⟩, hold, heq⟩ := List.mem_map.1 h
        obtain ⟨rfl, hparsed⟩ := Prod.mk.inj heq
        by_cases ht : t = name
        · rw [if_pos ht] at hparsed
          exact .inr ⟨ht ▸ hname, ht ▸ hparsed ▸ hnew⟩
        · rw [if_neg ht] at hparsed
          exact .inl ⟨hparsed ▸ hold, hother ht⟩
      next hany =>
        rcases List.mem_append.1 h with hold | hadded
        · refine .inl ⟨hold, hother fun ht => hany (List.any_eq_true.2 ⟨_, hold, ?_⟩)⟩
          exact decide_eq_true ht
        · obtain ⟨rfl, rfl⟩ := Prod.mk.inj (List.mem_singleton.1 hadded)
          exact .inr ⟨hname, hnew⟩

theorem exists_source (h : (tag, parsed) ∈ (roots.foldl Library.add {}).scripts) :
    ∃ root, IsSource roots tag parsed root := by
  induction roots using List.reverseRecOn with
  | nil => cases h
  | append_singleton roots item ih =>
    rw [List.foldl_append] at h
    rcases mem_scripts_add h with ⟨hold, hitem⟩ | ⟨htag, hparsed⟩
    · obtain ⟨root, hroot⟩ := ih hold
      exact ⟨root, hroot.concat hitem⟩
    · exact ⟨item, roots, [], rfl, htag, hparsed, List.forall_mem_nil _⟩

theorem IsSource.mem (h : IsSource roots tag parsed root) : root ∈ roots := by
  obtain ⟨front, back, rfl, -⟩ := h
  simp

theorem IsSource.parseDraft_ok (h : IsSource roots tag parsed root) :
    parseDraft (collectDraft {} root.children) tag = .ok parsed := by
  obtain ⟨_, _, -, -, hparsed, -⟩ := h
  exact hparsed

/-- The bullets below a tag are known by their lines. -/
theorem nodup_tagBullets (h : root ∈ Outline.ofText text) :
    ((tagBullets root).map (·.2.item.line)).Nodup := by
  obtain ⟨front, back, hroots⟩ := List.append_of_mem h
  have hbullets : ((tagBullets root).map (·.2.item)).Subperm (preorder (Outline.ofText text)) := by
    have hroot : root.preorder.Sublist (preorder (Outline.ofText text)) := by
      rw [hroots, preorder_eq_flatMap, List.flatMap_append, List.flatMap_cons]
      exact (List.sublist_append_left ..).trans (List.sublist_append_right ..)
    exact (items_sectionBullets _).trans ((sublist_triggersIn root.children).subperm.trans
      ((subperm_preorder root).trans hroot.subperm))
  obtain ⟨items, hperm, hsublist⟩ := hbullets
  have hlines := (hsublist.map (·.line)).nodup (nodup_lines_ofText text)
  simpa [Function.comp_def] using (hperm.map (·.line)).nodup_iff.1 hlines

/-- The actions of a script are read from the bullets below its tag, of which each is represented by
one, or named in a warning with what it stands in, exactly as long as it is kept or is so named. -/
theorem actions_kept_iff (h : (tag, parsed) ∈ (Library.ofText text).scripts) :
    ∃ root, IsSource (Outline.ofText text) tag parsed root ∧
      ∀ kind b, (kind, b) ∈ tagBullets root →
        (Represented (triggerActions parsed.config.triggers) b.item ∨ Noted parsed.warnings kind b ↔
          b.kept = true ∨ Noted parsed.warnings kind b) := by
  obtain ⟨root, hroot⟩ := exists_source h
  refine ⟨root, hroot, fun kind b hb => or_congr_left' fun hnoted => ?_⟩
  have hcovers := covers_parsed hroot.parseDraft_ok
  constructor
  · rintro ⟨node, hnode, hline⟩
    -- the node comes from a bullet that is kept, on the same line, and so from this one
    obtain ⟨source, hsource, hkept, hsame⟩ := hcovers.source node hnode
    obtain ⟨kind', -, hlast⟩ := List.mem_flatMap.1 hsource
    have heq := List.inj_on_of_nodup_map (nodup_tagBullets hroot.mem) hb
      ((mem_lastBullets hkept).1 hlast) (hline.symm.trans hsame)
    rw [(Prod.mk.inj heq).2]
    exact hkept
  · intro hkept
    have hlast := List.mem_flatMap.2 ⟨kind, TriggerKind.mem_all kind, (mem_lastBullets hkept).2 hb⟩
    exact (hcovers.kept b hlast hkept).resolve_right fun hnamed => hnoted (.inl hnamed)

end Documents

/-- A document in which a trigger is written twice, and an error handler of its action. -/
def twice : String :=
  "- #demo\n - onTrigger:\n  - log: a\n - onTrigger:\n  - delay: 1s\n" ++
    "   - onError:\n    - log: b\n   - onError:\n    - log: c\n"

/-- Its actions are those on the lines 4 and 8, and nothing was warned of. -/
theorem scripts_twice : ∃ parsed, ("#demo", parsed) ∈ (Library.ofText twice).scripts ∧
    (Action.flattenAll (triggerActions parsed.config.triggers)).map (·.line) = [some 4, some 8] ∧
    parsed.warnings = [] := by
  have hscripts : ("#demo", [some 4, some 8], []) ∈ (Library.ofText twice).scripts.map
      fun entry => (entry.1,
        (Action.flattenAll (triggerActions entry.2.config.triggers)).map (·.line),
        entry.2.warnings) := by
    decide +kernel
  obtain ⟨⟨tag, parsed⟩, hmem, heq⟩ := List.mem_map.1 hscripts
  obtain ⟨rfl, hlines, hwarnings⟩ := Prod.mk.inj heq |>.imp_right Prod.mk.inj
  exact ⟨parsed, hmem, hlines, hwarnings⟩

theorem not_noted_nil (kind : TriggerKind) (b : Bullet) : ¬ Noted [] kind b := by
  rintro (⟨item, -, w, hw, -⟩ | hw) <;> cases hw

/-- The actions that are represented are the last of each section, those on the lines 4 and 8. -/
theorem actions_kept_iff_twice : ∃ parsed, ("#demo", parsed) ∈ (Library.ofText twice).scripts ∧
    ∃ root, IsSource (Outline.ofText twice) "#demo" parsed root ∧
      ∀ kind b, (kind, b) ∈ tagBullets root →
        (Represented (triggerActions parsed.config.triggers) b.item ↔
          b.item.line = some 4 ∨ b.item.line = some 8) := by
  obtain ⟨parsed, hmem, -, hwarnings⟩ := scripts_twice
  obtain ⟨root, hroot, hiff⟩ := actions_kept_iff hmem
  have hkept : ∀ root ∈ Outline.ofText twice, ∀ entry ∈ tagBullets root,
      (entry.2.kept = true ↔ entry.2.item.line = some 4 ∨ entry.2.item.line = some 8) := by
    decide +kernel
  refine ⟨parsed, hmem, root, hroot, fun kind b hb => ?_⟩
  have hrepresented := hiff kind b hb
  rw [hwarnings, or_iff_left (not_noted_nil kind b), or_iff_left (not_noted_nil kind b)]
    at hrepresented
  exact hrepresented.trans (hkept root hroot.mem (kind, b) hb)

/-- The action on the line 2 stands in a section that is written again, that on the line 6 in such an
error handler: neither is represented, and no warning names it or what it stands in. -/
theorem not_represented_twice : ∃ parsed root first handled,
    ("#demo", parsed) ∈ (Library.ofText twice).scripts ∧
      IsSource (Outline.ofText twice) "#demo" parsed root ∧
      (.onTrigger, first) ∈ tagBullets root ∧ first.item.text = "log: a" ∧
      (.onTrigger, handled) ∈ tagBullets root ∧ handled.item.text = "log: b" ∧
      ∀ b ∈ [first, handled], ¬ Represented (triggerActions parsed.config.triggers) b.item ∧
        ¬ Noted parsed.warnings .onTrigger b := by
  obtain ⟨parsed, hmem, hlines, hwarnings⟩ := scripts_twice
  obtain ⟨root, hroot⟩ := exists_source hmem
  have hbullets : ∀ entry ∈ [("log: a", some 2), ("log: b", some 6)],
      ∀ root ∈ Outline.ofText twice, (TriggerKind.onTrigger, entry) ∈
        (tagBullets root).map fun (kind, b) => (kind, b.item.text, b.item.line) := by
    decide +kernel
  have hlost (b : Bullet) (hline : b.item.line ∉ [some 4, some 8]) :
      ¬ Represented (triggerActions parsed.config.triggers) b.item ∧
        ¬ Noted parsed.warnings .onTrigger b := by
    constructor
    · rintro ⟨node, hnode, hsame⟩
      rw [← hlines, ← hsame] at hline
      exact hline (List.mem_map_of_mem hnode)
    · exact hwarnings ▸ not_noted_nil _ b
  have hbullet (entry : String × Option Nat) (h : entry ∈ [("log: a", some 2), ("log: b", some 6)]) :
      ∃ b, (.onTrigger, b) ∈ tagBullets root ∧ b.item.text = entry.1 ∧ b.item.line = entry.2 := by
    obtain ⟨⟨kind, b⟩, hb, heq⟩ := List.mem_map.1 (hbullets entry h root hroot.mem)
    obtain ⟨rfl, rfl⟩ := Prod.mk.inj heq
    exact ⟨b, hb, rfl, rfl⟩
  obtain ⟨first, hfirst, htext, hline⟩ := hbullet ("log: a", some 2) (by simp)
  obtain ⟨handled, hhandled, htext', hline'⟩ := hbullet ("log: b", some 6) (by simp)
  refine ⟨parsed, root, first, handled, hmem, hroot, hfirst, htext, hhandled, htext', ?_⟩
  refine List.forall_mem_cons.2 ⟨hlost first ?_, List.forall_mem_singleton.2 (hlost handled ?_)⟩
  · rw [hline]
    decide
  · rw [hline']
    decide

end BulletScript.Script
