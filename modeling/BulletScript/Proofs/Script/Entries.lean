import BulletScript.Proofs.Script.Kept
import BulletScript.Proofs.Script.MainValue

/-! An entry of data with the keyword of an action is read as this action, and the text of the entry is
its main value if and only if no backtick is in it: it is put between backticks and then read as a
line. -/
namespace BulletScript.Script

open Text Outline Written

section Meaning

/-- The keywords of the actions that can be made of their main value alone. -/
def plainKeywords : List Keyword := [.log, .notify, .validate, .match, .return, .delay, .set]

/-- The main value of the step of such an action. -/
def Step.main? : Step → Option String
  | .log message _ | .notify message _ => some message
  | .validate condition _ => some condition
  | .match pattern _ => some pattern
  | .return value => value
  | .delay duration => some duration
  | .set name .. => some name
  | _ => none

def Action.main? : Action → Option String
  | .step leaf .. => leaf.main?
  | _ => none

/-- The item that is made of an entry. -/
def entryItem (key value : String) : Item := { text := pair key value }

/-- An entry of a section: in the record there, or in one of the records of the list there. -/
inductive IsEntry (key value : String) : Value → Prop
  | record {entries : Record} : entries.get? "text" = none → (.str key, .str value) ∈ entries →
      IsEntry key value (.map entries)
  | list {v : Value} {items : List Value} : v ∈ items → IsEntry key value v →
      IsEntry key value (.list items)

/-- An entry at any depth. -/
inductive HoldsEntry (key value : String) : Value → Prop
  | entry {v : Value} : IsEntry key value v → HoldsEntry key value v
  | list {v : Value} {items : List Value} : v ∈ items → HoldsEntry key value v →
      HoldsEntry key value (.list items)
  | record {entries : Record} {k : Key} {v : Value} : entries.get? "text" = none →
      (k, v) ∈ entries → HoldsEntry key value v → HoldsEntry key value (.map entries)
  | children {entries : Record} {text v : Value} : entries.get? "text" = some text →
      entries.get? "children" = some v → HoldsEntry key value v →
      HoldsEntry key value (.map entries)

end Meaning

section Items

variable {key value : String} {v : Value}

theorem ofEntries_append (front back : Record) :
    Outline.ofEntries (front ++ back) = Outline.ofEntries front ++ Outline.ofEntries back := by
  induction front with
  | nil => rw [Outline.ofEntries]; rfl
  | cons e front ih =>
    obtain ⟨k, v⟩ := e
    rw [List.cons_append, Outline.ofEntries, Outline.ofEntries, ih]
    rfl

theorem ofValues_append (front back : List Value) :
    Outline.ofValues (front ++ back) = Outline.ofValues front ++ Outline.ofValues back := by
  induction front with
  | nil => rw [Outline.ofValues]; rfl
  | cons v front ih => rw [List.cons_append, Outline.ofValues, Outline.ofValues, ih, List.append_assoc]

/-- An entry of a section is one of its items. -/
theorem exists_items_of_isEntry (h : IsEntry key value v) :
    ∃ front back, Outline.ofValue v = front ++ entryItem key value :: back := by
  induction h with
  | @record entries htext hmem =>
    obtain ⟨before, behind, rfl⟩ := List.append_of_mem hmem
    refine ⟨Outline.ofEntries before, Outline.ofEntries behind, ?_⟩
    rw [Outline.ofValue, htext]
    dsimp only
    rw [ofEntries_append, Outline.ofEntries]
    rfl
  | @list v items hmem _ ih =>
    obtain ⟨before, behind, rfl⟩ := List.append_of_mem hmem
    obtain ⟨front, back, heq⟩ := ih
    refine ⟨Outline.ofValues before ++ front, back ++ Outline.ofValues behind, ?_⟩
    rw [Outline.ofValue, ofValues_append, Outline.ofValues, heq]
    simp

theorem mem_preorder_children {item : Item} {text : String} {children : List Item}
    {line : Option Nat} (h : item ∈ preorder children) : item ∈ preorder [⟨text, children, line⟩] := by
  rw [preorder, Item.preorder]
  exact List.mem_append_left _ (List.mem_cons_of_mem _ h)

theorem childrenOf_eq {entries : Record} (h : entries.get? "children" = some v) :
    Outline.childrenOf entries = Outline.ofValue v := by
  induction entries with
  | nil => cases h
  | cons e entries ih =>
    obtain ⟨k, first⟩ := e
    rw [Outline.childrenOf]
    by_cases hk : k.same "children"
    · have hfirst : first = v := by simpa [Record.get?, hk] using h
      rw [if_pos hk, hfirst]
    · rw [if_neg hk]
      exact ih (by simpa [Record.get?, hk] using h)

theorem HoldsEntry.isMap_or_isList (h : HoldsEntry key value v) : (v.isMap || v.isList) = true := by
  cases h with
  | entry h => cases h <;> rfl
  | list => rfl
  | record => rfl
  | children => rfl

/-- An entry at any depth is one of the items, or below one of them. -/
theorem mem_items_of_holdsEntry (h : HoldsEntry key value v) :
    entryItem key value ∈ preorder (Outline.ofValue v) := by
  induction h with
  | entry h =>
    obtain ⟨front, back, heq⟩ := exists_items_of_isEntry h
    rw [heq, preorder_append, preorder, entryItem, Item.preorder]
    simp
  | @list v items hmem _ ih =>
    obtain ⟨before, behind, rfl⟩ := List.append_of_mem hmem
    rw [Outline.ofValue, ofValues_append, Outline.ofValues, preorder_append, preorder_append]
    exact List.mem_append_right _ (List.mem_append_left _ ih)
  | @record entries k v htext hmem h ih =>
    obtain ⟨before, behind, rfl⟩ := List.append_of_mem hmem
    rw [Outline.ofValue, htext]
    dsimp only
    rw [ofEntries_append, Outline.ofEntries, if_pos h.isMap_or_isList, ← List.singleton_append,
      preorder_append, preorder_append]
    exact List.mem_append_right _ (List.mem_append_left _ (mem_preorder_children ih))
  | @children entries text v htext hchildren h ih =>
    rw [Outline.ofValue, htext]
    dsimp only
    rw [childrenOf_eq hchildren]
    exact mem_preorder_children ih

end Items

section Steps

variable {keyword : Keyword} {value : String} {head : Head} {leaf : Step}

theorem stepOf_plain (hkeyword : keyword ∈ plainKeywords) (hvalue : value ≠ "") :
    ∃ leaf, stepOf ⟨keyword, value, [], []⟩ = .ok leaf ∧ leaf.main? = some value := by
  have hrequired (keyword : Keyword) (what : String) :
      Head.required ⟨keyword, value, [], []⟩ what = .ok value := if_neg hvalue
  have hlevel : (Head.givenOr ⟨.log, value, [], []⟩ "level" "info").plain = LogLevel.info.text := rfl
  simp only [plainKeywords, List.mem_cons, List.not_mem_nil, or_false] at hkeyword
  unfold stepOf
  rcases hkeyword with rfl | rfl | rfl | rfl | rfl | rfl | rfl <;> dsimp only
  · refine ⟨.log value .info, ?_, rfl⟩
    rw [hlevel, lower_level, readChoice_level]
    rfl
  · exact ⟨.notify value 4000, rfl, rfl⟩
  · exact ⟨.validate value none, by rw [hrequired]; rfl, rfl⟩
  · exact ⟨_, rfl, rfl⟩
  · exact ⟨.return (some value), by simp [nonEmpty?, hvalue]; rfl, rfl⟩
  · exact ⟨.delay value, by rw [hrequired]; rfl, rfl⟩
  · exact ⟨_, by rw [hrequired]; rfl, rfl⟩

/-- A step of such a keyword has no other main value than its head. -/
theorem main?_of_stepOf (hkeyword : head.keyword ∈ plainKeywords) (h : stepOf head = .ok leaf)
    (hmain : leaf.main? = some value) : value = head.value := by
  have hrequired {what name : String} (h : head.required what = .ok name) : name = head.value := by
    rw [Head.required] at h
    split at h <;> cases h
    rfl
  simp only [plainKeywords, List.mem_cons, List.not_mem_nil, or_false] at hkeyword
  unfold stepOf at h
  rcases hkeyword with hkeyword | hkeyword | hkeyword | hkeyword | hkeyword | hkeyword | hkeyword <;>
    rw [hkeyword] at h <;> dsimp only at h
  · obtain ⟨level, -, h⟩ := exists_of_bind h
    cases h
    exact (Option.some.inj hmain).symm
  · obtain ⟨duration, -, h⟩ := exists_of_bind h
    cases h
    exact (Option.some.inj hmain).symm
  · obtain ⟨condition, hcondition, h⟩ := exists_of_bind h
    cases h
    exact (Option.some.inj hmain).symm.trans (hrequired hcondition)
  · cases h
    exact (Option.some.inj hmain).symm
  · cases h
    rw [Step.main?, nonEmpty?] at hmain
    split at hmain
    · cases hmain
    · exact (Option.some.inj hmain).symm
  · obtain ⟨duration, hduration, h⟩ := exists_of_bind h
    cases h
    exact (Option.some.inj hmain).symm.trans (hrequired hduration)
  · obtain ⟨name, hname, h⟩ := exists_of_bind h
    cases h
    exact (Option.some.inj hmain).symm.trans (hrequired hname)

end Steps

section Reading

variable {keyword : Keyword} {value text : String} {item : Item} {node : Option Action}

/-- An action with nothing below it is read from its line alone. -/
theorem run_readAction {pairs : Record} (hkeyword : keyword ∈ plainKeywords)
    (hhead : headOf text none = .ok (keyword, value, pairs)) (ws : List String) :
    ((readAction { text }).run ws).1 =
      (stepOf (headWith keyword value pairs [])).toOption.map fun leaf => .step leaf [] none := by
  rw [readAction, hhead]
  dsimp only
  rw [readHandler, pure_bind]
  split
  · exact absurd hkeyword (by decide)
  · exact absurd hkeyword (by decide)
  · rw [← headWith]
    cases stepOf (headWith keyword value pairs []) <;> rfl

theorem exists_run_readActions (h : ∀ ws, ((readAction item).run ws).1 = node)
    (front back : List Item) (ws : List String) : ∃ before behind,
      ((readActions (front ++ item :: back)).run ws).1 = before ++ node.toList ++ behind := by
  induction front generalizing ws with
  | nil =>
    rw [List.nil_append, readActions, Reading.run_bind, Reading.run_bind, h]
    exact ⟨[], _, rfl⟩
  | cons first front ih =>
    obtain ⟨before, behind, heq⟩ := ih ((readAction first).run ws).2
    refine ⟨((readAction first).run ws).1.toList ++ before, behind, ?_⟩
    rw [List.cons_append, readActions, Reading.run_bind, Reading.run_bind, List.append_assoc,
      List.append_assoc, ← List.append_assoc before, ← heq]
    rfl

theorem toList_entryItem (keyword : Keyword) (value : String) :
    (entryItem keyword.text value).text.toList =
      [] ++ (keyword.text.toList ++ ([] ++ ':' :: ' ' :: '\x60' :: (value.toList ++ ['\x60']))) := by
  simp [entryItem, toList_pair]

theorem trim_entryItem (keyword : Keyword) (value : String) :
    trim (entryItem keyword.text value).text = (entryItem keyword.text value).text := by
  obtain ⟨c, cs, hkey, hc, -⟩ := exists_of_isKey (isKey_keyword keyword)
  have hblank := isBlank_of_isKeyChar (isKeyChar_of_startsKey hc)
  rw [trim, trimChars_eq_self_iff.2, String.ofList_toList]
  rw [toList_entryItem, hkey]
  constructor
  · rintro _ ⟨⟩
    exact hblank
  · simp [List.getLast?_append, List.getLast?_cons, isBlank_backtick]

theorem clean_entry (htrim : trim value = value) :
    Template.clean (.ofList (' ' :: '\x60' :: (value.toList ++ ['\x60']))) = value := by
  have hquoted : Template.clean (.ofList (' ' :: '\x60' :: (value.toList ++ ['\x60']))) =
      Template.clean (.ofList ('\x60' :: (value.toList ++ ['\x60']))) := by
    refine clean_of_trimChars ?_
    rw [String.toList_ofList, String.toList_ofList, trimChars, trimLeftChars,
      List.dropWhile_cons_of_pos isBlank_space]
    rfl
  rw [hquoted, clean_quoted]
  exact htrim

/-- An entry without a backtick is read back. -/
theorem headOf_entryItem (htrim : trim value = value) (hquote : '\x60' ∉ value.toList) :
    headOf (entryItem keyword.text value).text none = .ok (keyword, value, []) := by
  have hnone : ∀ c ∈ ([] : List Char), isBlank c := nofun
  have htext := toList_entryItem keyword value
  obtain ⟨main, hhead, hmain⟩ := exists_headOf hnone hnone htext none
  have hscan : scanPairs (some inlineKeys) (trim (entryItem keyword.text value).text).toList =
      [(keyword.text, value)] := by
    have hline : (trim (entryItem keyword.text value).text).toList.dropWhile isBlank =
        (pair keyword.text value).toList ++ [] := by
      rw [dropWhile_trim, trim_entryItem, List.append_nil]
      rfl
    rw [scanPairs_pair _ (isKey_keyword keyword) hquote hline, scanPairs_none _ rfl]
  have hvalue : main = value := by
    rw [hscan] at hmain
    exact (Prod.mk.inj (List.mem_singleton.1 hmain)).2
  have hoptions : (inlineRecord (some inlineKeys) (trim (entryItem keyword.text value).text)).erase
      keyword.text = [] := by
    rw [inlineRecord, hscan]
    simp [Record.ofEntries, Record.update, Record.set, Record.erase]
  have hclean : Template.clean value = value := by
    have h := clean_of_unquoted hquote
    rw [String.ofList_toList] at h
    exact h.trans htrim
  rw [hhead, hvalue, hoptions, hclean]
  rfl

/-- One with a backtick is closed early. -/
theorem headOf_entryItem_quoted (htrim : trim value = value) (hquote : '\x60' ∈ value.toList) :
    ∃ main options, headOf (entryItem keyword.text value).text none = .ok (keyword, main, options) ∧
      main ≠ value := by
  have hnone : ∀ c ∈ ([] : List Char), isBlank c := nofun
  have hspace : ∀ c ∈ [' '], isBlank c := List.forall_mem_singleton.2 isBlank_space
  obtain ⟨quoted, tail, hvalue, hquoted⟩ := List.eq_append_cons_of_mem hquote
  have hclosed : ClosedEarly (' ' :: '\x60' :: (value.toList ++ ['\x60'])) :=
    ⟨[' '], quoted, tail ++ ['\x60'], by rw [hvalue]; simp, hspace, hquoted, '\x60', by simp,
      isBlank_backtick⟩
  obtain ⟨main, options, hhead, hne⟩ :=
    headOf_of_closedEarly hnone hnone (toList_entryItem keyword value) hclosed none
  rw [clean_entry htrim] at hne
  exact ⟨main, options, hhead, hne⟩

/-- The node that is read of an entry, and when the text of the entry is its main value. -/
theorem exists_node_of_entry (hkeyword : keyword ∈ plainKeywords) (htrim : trim value = value)
    (hne : value ≠ "") : ∃ node,
      (∀ ws, ((readAction (entryItem keyword.text value)).run ws).1 = node) ∧
      (node.bind Action.main? = some value ↔ '\x60' ∉ value.toList) := by
  by_cases hquote : '\x60' ∈ value.toList
  · obtain ⟨main, options, hhead, hmain⟩ := headOf_entryItem_quoted htrim hquote
    refine ⟨_, run_readAction hkeyword hhead, fun heq => ?_, fun h => absurd hquote h⟩
    obtain ⟨action, haction, hvalue⟩ := Option.bind_eq_some_iff.1 heq
    obtain ⟨leaf, hleaf, rfl⟩ := Option.map_eq_some_iff.1 haction
    have hstep : stepOf (headWith keyword main options []) = .ok leaf := by
      cases hresult : stepOf (headWith keyword main options []) with
      | error => rw [hresult] at hleaf; cases hleaf
      | ok found => rw [hresult] at hleaf; cases hleaf; rfl
    exact absurd (main?_of_stepOf hkeyword hstep hvalue).symm hmain
  · obtain ⟨leaf, hleaf, hmain⟩ := stepOf_plain hkeyword hne
    have hstep : stepOf (headWith keyword value [] []) = .ok leaf := hleaf
    refine ⟨_, run_readAction hkeyword (headOf_entryItem htrim hquote), fun _ => hquote, fun _ => ?_⟩
    rw [hstep]
    exact hmain

end Reading

section Sections

variable {kind : TriggerKind} {raw : Record} {v : Value} {keyword : Keyword} {value tag : String}
  {kinds : List TriggerKind}

theorem lookup_data {f : TriggerKind → Option Value} (hkind : kind ∈ kinds) (h : f kind = some v) :
    (kinds.filterMap fun k => (f k).map fun v => (k, Section.data v)).lookup kind =
      some (.data v) := by
  induction kinds with
  | nil => cases hkind
  | cons first rest ih =>
    by_cases hfirst : kind = first
    · subst hfirst
      simp [h]
    · have hrest := ih ((List.mem_cons.1 hkind).resolve_left hfirst)
      cases hf : f first with
      | none => simpa [hf] using hrest
      | some other => simpa [hf, List.lookup_cons, beq_false_of_ne hfirst] using hrest

/-- What a record says under the name of a trigger, unless it is empty. -/
theorem section?_ofRecord (h : raw.get? kind.text = some v) (hsome : v.isSome = true) :
    (Draft.ofRecord raw).section? kind = some (.data v) := by
  have hlookup : (Draft.ofRecord raw).sections.lookup kind = some (.data v) :=
    lookup_data (TriggerKind.mem_all kind) h
  rw [Draft.section?, hlookup]
  simp [Section.isSome, hsome]

theorem exists_run_mapM {f : TriggerKind → Reading (Option Trigger)} (hkind : kind ∈ kinds)
    (ws : List String) : ∃ ws', ((f kind).run ws').1 ∈ ((kinds.mapM f).run ws).1 := by
  induction kinds generalizing ws with
  | nil => cases hkind
  | cons first rest ih =>
    rw [List.mapM_cons, Reading.run_bind, Reading.run_bind]
    rcases List.mem_cons.1 hkind with rfl | hkind
    · exact ⟨ws, List.mem_cons_self⟩
    · obtain ⟨ws', hmem⟩ := ih hkind ((f first).run ws).2
      exact ⟨ws', List.mem_cons_of_mem _ hmem⟩

theorem IsEntry.section {key : String} (h : IsEntry key value v) :
    v.isSome = true ∧ (Section.data v).items? = some (Outline.ofValue v) := by
  cases h with
  | record _ hmem => exact ⟨by simpa [Value.isSome] using List.ne_nil_of_mem hmem, rfl⟩
  | list hmem _ => exact ⟨by simpa [Value.isSome] using List.ne_nil_of_mem hmem, rfl⟩

theorem exists_trigger_of_entry {node : Option Action}
    (hnode : ∀ ws, ((readAction (entryItem keyword.text value)).run ws).1 = node)
    (hget : raw.get? kind.text = some v) (hentry : IsEntry keyword.text value v) (tag : String) :
    ∃ parsed before behind, parseRecord raw tag = .ok parsed ∧
      ⟨kind, before ++ node.toList ++ behind⟩ ∈ parsed.config.triggers := by
  obtain ⟨hsome, hitems⟩ := hentry.section
  obtain ⟨front, back, heq⟩ := exists_items_of_isEntry hentry
  obtain ⟨ws, hmem⟩ := exists_run_mapM (f := readKind (.ofRecord raw)) (TriggerKind.mem_all kind) []
  obtain ⟨before, behind, hactions⟩ := exists_run_readActions hnode front back ws
  have hread : ((readKind (.ofRecord raw) kind).run ws).1 =
      some ⟨kind, before ++ node.toList ++ behind⟩ := by
    rw [readKind, section?_ofRecord hget hsome]
    dsimp only
    rw [readTrigger, hitems]
    dsimp only
    rw [Reading.run_bind, heq, hactions]
    split <;> rfl
  have htrigger : ⟨kind, before ++ node.toList ++ behind⟩ ∈
      ((TriggerKind.all.mapM (readKind (.ofRecord raw))).run []).1.filterMap id :=
    List.mem_filterMap.2 ⟨_, hread ▸ hmem, rfl⟩
  have hparse := parseDraft_eq (.ofRecord raw) tag
  dsimp only at hparse
  rw [if_neg (by simpa using List.ne_nil_of_mem htrigger)] at hparse
  exact ⟨_, before, behind, hparse, htrigger⟩

/-- A node that stands for an entry: the item that is made of the entry is among those of the data, at
any depth, and is read as this node wherever it is read as an action. A section of a trigger has the
node of each of its entries among its actions. -/
structure IsNodeOf (keyword : Keyword) (value : String) (node : Option Action) : Prop where
  item : ∀ v, HoldsEntry keyword.text value v →
    entryItem keyword.text value ∈ preorder (Outline.ofValue v)
  read : ∀ ws, ((readAction (entryItem keyword.text value)).run ws).1 = node
  trigger : ∀ (raw : Record) (kind : TriggerKind) (v : Value) (tag : String),
    raw.get? kind.text = some v → IsEntry keyword.text value v →
      ∃ parsed before behind, parseRecord raw tag = .ok parsed ∧
        ⟨kind, before ++ node.toList ++ behind⟩ ∈ parsed.config.triggers

/-- The text of an entry is the main value of its node if and only if no backtick is in it. -/
theorem entry_read_iff (hkeyword : keyword ∈ plainKeywords) (htrim : trim value = value)
    (hne : value ≠ "") : ∃ node, IsNodeOf keyword value node ∧
      (node.bind Action.main? = some value ↔ '\x60' ∉ value.toList) := by
  obtain ⟨node, hnode, hmain⟩ := exists_node_of_entry hkeyword htrim hne
  exact ⟨node, ⟨fun _ => mem_items_of_holdsEntry, hnode,
    fun _ _ _ tag hget hentry => exists_trigger_of_entry hnode hget hentry tag⟩, hmain⟩

theorem entry_read_iff_saved : Keyword.notify ∈ plainKeywords ∧
    trim "Saved as: draft" = "Saved as: draft" ∧ "Saved as: draft" ≠ "" ∧
    ∃ node, IsNodeOf .notify "Saved as: draft" node ∧
      node.bind Action.main? = some "Saved as: draft" := by
  have hkeyword : Keyword.notify ∈ plainKeywords := by decide
  have htrim : trim "Saved as: draft" = "Saved as: draft" := by decide
  have hne : "Saved as: draft" ≠ "" := by decide
  obtain ⟨node, hnode, hiff⟩ := entry_read_iff hkeyword htrim hne
  exact ⟨hkeyword, htrim, hne, node, hnode, hiff.2 (by decide)⟩

/-- A trigger with one entry, the text of which has backticks in it. -/
def quotedSection : Value := .list [.map [(.str "log", .str "a `b` c")]]

def logsStart (parsed : Parsed) : Bool :=
  match parsed.config.triggers with
  | [⟨.onTrigger, [action]⟩] => action.main? == some "a"
  | _ => false

theorem entry_cut_at_backtick : IsEntry "log" "a `b` c" quotedSection ∧
    trim "a `b` c" = "a `b` c" ∧
    ∃ parsed, parseRecord [(.str "onTrigger", quotedSection)] "#demo" = .ok parsed ∧
      ∃ action, parsed.config.triggers = [⟨.onTrigger, [action]⟩] ∧ action.main? = some "a" := by
  refine ⟨.list List.mem_cons_self (.record rfl List.mem_cons_self), by decide, ?_⟩
  have hstart : (parseRecord [(.str "onTrigger", quotedSection)] "#demo").toOption.any logsStart =
      true := by
    decide +kernel
  cases hparsed : parseRecord [(.str "onTrigger", quotedSection)] "#demo" with
  | error fault =>
    rw [hparsed] at hstart
    cases hstart
  | ok parsed =>
    rw [hparsed] at hstart
    replace hstart : logsStart parsed = true := hstart
    rw [logsStart] at hstart
    split at hstart
    · next action htriggers => exact ⟨parsed, rfl, action, htriggers, by simpa using hstart⟩
    · cases hstart

end Sections

end BulletScript.Script
