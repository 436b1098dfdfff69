import BulletScript.Proofs.Script.ChildTexts
import BulletScript.Proofs.Value.Record

/-! Fields of actions that are for texts. An option with lines below it is a block, and it is stored
like a text: the fields of all actions that are read hold texts if and only if no bullet that is
read has a block at an option for such a field. -/
namespace BulletScript.Script

open Outline

section Fields

def IsText (v : Value) : Prop := ∃ s, v = .str s

def AllTexts (vs : List Value) : Prop := ∀ v ∈ vs, IsText v

@[simp] theorem allTexts_nil : AllTexts [] := List.forall_mem_nil _

@[simp] theorem allTexts_cons {v : Value} {vs : List Value} :
    AllTexts (v :: vs) ↔ IsText v ∧ AllTexts vs := List.forall_mem_cons

@[simp] theorem allTexts_append {vs ws : List Value} :
    AllTexts (vs ++ ws) ↔ AllTexts vs ∧ AllTexts ws := List.forall_mem_append

@[simp] def Auth.texts (auth : Auth) : List Value :=
  auth.headerName :: (auth.username.toList ++ auth.password.toList ++ auth.token.toList ++
    auth.apiKey.toList)

/-- The values in the fields of a step that are for texts. -/
@[simp] def Step.texts : Step → List Value
  | .read step => step.storeAs.toList ++ step.fileAs :: step.frontmatterAs :: step.childrenAs ::
    step.childrenLinesAs :: step.reference.toList
  | .file reference storeAs => [reference, storeAs]
  | .fetch step => step.storeAs.toList ++ step.body.toList ++ step.auth.toList.flatMap Auth.texts
  | .shell _ storeAs _ => storeAs.toList
  | .query _ storeAs _ => [storeAs]
  | .set _ _ pattern source => pattern.toList ++ [source]
  | .match _ source => [source]
  | .extract _ source storeAs => [source, storeAs]
  | .task step => step.template.toList ++ step.bullets :: step.bullet :: step.toStatus.toList
  | .validate _ message => message.toList
  | .filter _ condition storeAs itemName => [condition, storeAs, itemName]
  | .map _ template storeAs itemName => [storeAs, itemName, template]
  | .date _ source storeAs _ => source.toList ++ [storeAs]
  | .transform .. | .build .. | .return .. | .append .. | .delay .. | .log .. | .notify .. => []

def Core.texts : Core → List Value
  | .step leaf => leaf.texts
  | .branch _ => []
  | .loop _ itemName indexName => itemName :: indexName.toList

/-- Whether all fields of an action that are for texts hold texts. -/
def Core.HasTexts (core : Core) : Prop := AllTexts core.texts

end Fields

section Options

/-- An option with lines below it. -/
def IsBlock (options : Record) (key : String) : Prop :=
  ∃ entries, options.get? (.str key) = some (.map entries)

/-- An option with lines below it of which one has a key. -/
def IsKeyed (options : Record) (key : String) : Prop :=
  ∃ entries, entries ≠ [] ∧ options.get? (.str key) = some (.map entries)

/-- Options for texts without blocks: of those of the first kind, a block does not count when it is
empty. -/
@[simp] def Clear (options : Record) (optional plain : List String) : Prop :=
  (∀ key ∈ optional, ¬IsKeyed options key) ∧ ∀ key ∈ plain, ¬IsBlock options key

namespace Head

/-- The options for texts that do not count when they are empty. -/
@[simp] def optional (head : Head) : List String :=
  match head.keyword with
  | .read => ["as", "asFile", "frontmatterAs", "childrenAs", "childrenLinesAs"]
  | .file => if head.value = "" then ["from", "as"] else ["as"]
  | .fetch => ["as", "body"]
  | .shell | .query => ["as"]
  | .set => ["pattern", "in"]
  | .match => ["in"]
  | .extract | .date => ["from", "as"]
  | .foreach => ["as", "index"]
  | .task => ["template", "bullets", "bullet"] ++
    (["to", "toStatus", "status"].find? fun key => (head.options.get? (.str key)).isSome).toList
  | .validate => ["message"]
  | .filter => ["where", "as", "itemAs"]
  | .map => ["as", "itemAs"]
  | .transform | .build | .if | .return | .append | .delay | .log | .notify => []

/-- The options for texts that are taken as they are. -/
@[simp] def plain (head : Head) : List String :=
  match head.keyword with
  | .read => ["from"]
  | .map => ["template"]
  | _ => []

/-- The credentials of a request, if their kind is given. -/
@[simp] def credentials? (head : Head) : Option Record :=
  match head.keyword, head.options.get? "auth" with
  | .fetch, some (.map entries) =>
    if ((Record.get? entries "type").filter Value.isSome).isSome then some entries else none
  | _, _ => none

/-- Whether there is no block at an option for a text. -/
@[simp] def Clear (head : Head) : Prop :=
  Script.Clear head.options head.optional head.plain ∧ ∀ auth ∈ head.credentials?,
    Script.Clear auth ["headerName"] ["username", "password", "token", "apiKey"]

end Head

/-- Whether the bullet of an action has a block at an option for a text. -/
def HoldsBlock (item : Item) : Prop := ∃ head, headFor? item = some head ∧ ¬head.Clear

end Options

section Authored

/-- A text or a block, as options are written. -/
inductive IsAuthored : Value → Prop
  | text (s : String) : IsAuthored (.str s)
  | block {entries : Record} : (∀ entry ∈ entries, IsAuthored entry.2) → IsAuthored (.map entries)

def Authored (options : Record) : Prop := ∀ entry ∈ options, IsAuthored entry.2

variable {r : Record} {v : Value} {key : String}

theorem Authored.set (h : Authored r) (hv : IsAuthored v) (k : Key) : Authored (r.set k v) := by
  induction r with
  | nil => exact List.forall_mem_singleton.2 hv
  | cons entry rest ih =>
    obtain ⟨hfirst, hrest⟩ := List.forall_mem_cons.1 h
    rw [Record.set]
    split
    · exact List.forall_mem_cons.2 ⟨hv, hrest⟩
    · exact List.forall_mem_cons.2 ⟨hfirst, ih hrest⟩

theorem Authored.update {entries : Record} (h : Authored r) (hentries : Authored entries) :
    Authored (r.update entries) := by
  induction entries generalizing r with
  | nil => exact h
  | cons entry rest ih =>
    obtain ⟨hfirst, hrest⟩ := List.forall_mem_cons.1 hentries
    exact ih (h.set hfirst entry.1) hrest

mutual

theorem isAuthored_itemValue (value : String) : ∀ item : Item, IsAuthored (itemValue value item)
  | ⟨text, children, line⟩ => by
    rw [itemValue]
    split
    · exact .text value
    · exact .block (authored_blockRecord (List.forall_mem_nil _) children)

theorem authored_blockRecord {record : Record} (h : Authored record) :
    ∀ items : List Item, Authored (blockRecord record items)
  | [] => by rwa [blockRecord]
  | item :: rest => by
    rw [blockRecord]
    split
    next key value _ =>
      exact authored_blockRecord (h.set (isAuthored_itemValue value item) (.str key)) rest
    · exact authored_blockRecord h rest

end

theorem authored_headFor? {item : Item} {head : Head} (h : headFor? item = some head) :
    Authored head.options := by
  obtain ⟨⟨keyword, value, pairs⟩, hhead, rfl⟩ := Option.map_eq_some_iff.1 h
  refine (authored_blockRecord (List.forall_mem_nil _) _).update ?_
  -- the options on the line of an action are texts
  rw [toOption_eq_some, headOf] at hhead
  dsimp only at hhead
  split at hhead
  · cases hhead
  split at hhead
  · cases hhead
  · obtain ⟨-, hpairs⟩ := Prod.mk.inj (Except.ok.inj hhead)
    obtain ⟨-, rfl⟩ := Prod.mk.inj hpairs
    intro entry hentry
    obtain ⟨pair, -, rfl⟩ := List.mem_map.1 hentry
    exact .text _

theorem Authored.get? (h : Authored r) {k : Key} (hv : r.get? k = some v) : IsAuthored v := by
  obtain ⟨entry, hentry, rfl⟩ := Option.map_eq_some_iff.1 hv
  exact h entry (List.mem_of_find?_eq_some hentry)

/-- A text or a block. -/
theorem IsAuthored.isText_iff (h : IsAuthored v) : IsText v ↔ ∀ entries, v ≠ .map entries := by
  cases h with
  | text s => exact iff_of_true ⟨s, rfl⟩ nofun
  | block => exact iff_of_false nofun fun hne => hne _ rfl

/-- An option that is taken as it is. -/
theorem Authored.plain_iff (h : Authored r) (key : String) :
    AllTexts (r.get? (.str key)).toList ↔ ¬IsBlock r key := by
  simp only [AllTexts, Option.mem_toList]
  constructor
  · rintro htext ⟨entries, hentries⟩
    obtain ⟨s, hs⟩ := htext _ hentries
    cases hs
  · intro hblock v hv
    exact (h.get? hv).isText_iff.2 fun entries heq => hblock ⟨entries, heq ▸ hv⟩

/-- An option that does not count when it is empty. -/
theorem Authored.optional_iff (h : Authored r) (key : String) :
    AllTexts ((r.get? (.str key)).filter Value.isSome).toList ↔ ¬IsKeyed r key := by
  simp only [AllTexts, Option.mem_toList]
  constructor
  · rintro htext ⟨entries, hne, hentries⟩
    have hsome : (Value.map entries).isSome = true := by
      simpa [Value.isSome] using hne
    obtain ⟨s, hs⟩ := htext (.map entries) (by simp [hentries, hsome])
    cases hs
  · intro hkeyed v hv
    obtain ⟨hv, hsome⟩ := Option.filter_eq_some_iff.1 hv
    refine (h.get? hv).isText_iff.2 fun entries heq => hkeyed ⟨entries, ?_, heq ▸ hv⟩
    rintro rfl
    rw [heq] at hsome
    cases hsome

theorem Authored.fallback_iff (h : Authored r) (key fallback : String) :
    IsText (((r.get? (.str key)).filter Value.isSome).getD (.str fallback)) ↔ ¬IsKeyed r key := by
  rw [← h.optional_iff]
  cases (r.get? (.str key)).filter Value.isSome with
  | none => exact iff_of_true ⟨fallback, rfl⟩ allTexts_nil
  | some v => simp

end Authored

section Steps

variable {head : Head} {leaf : Step} {key : String} (h : Authored head.options)

include h

theorem given_iff (key : String) :
    AllTexts (head.given? key).toList ↔ ¬IsKeyed head.options key := h.optional_iff key

theorem givenOr_iff (key fallback : String) :
    IsText (head.givenOr key fallback) ↔ ¬IsKeyed head.options key := h.fallback_iff key fallback

theorem allTexts_read (hkeyword : head.keyword = .read) (hstep : readStep head = .ok leaf) :
    AllTexts leaf.texts ↔ head.Clear := by
  unfold readStep at hstep
  obtain ⟨source, hstep⟩ := exists_of_default hstep
  obtain ⟨strip, hstep⟩ := exists_of_default hstep
  obtain ⟨stripFrontmatter, -, hstep⟩ := exists_of_bind hstep
  obtain ⟨includeFrontmatter, -, hstep⟩ := exists_of_bind hstep
  obtain ⟨format, hstep⟩ := exists_of_default hstep
  cases hstep
  simp [given_iff h, givenOr_iff h, h.plain_iff, hkeyword, and_assoc]

theorem allTexts_file (hkeyword : head.keyword = .file) (hstep : fileStep head = .ok leaf) :
    AllTexts leaf.texts ↔ head.Clear := by
  unfold fileStep at hstep
  by_cases hvalue : head.value = ""
  · rw [if_pos hvalue] at hstep
    dsimp only at hstep
    split at hstep
    next hsome =>
      cases hstep
      have hfrom := given_iff h "from"
      cases hget : head.options.get? "from" with
      | none =>
        rw [Record.getD, hget] at hsome
        cases hsome
      | some v =>
        rw [Record.getD, hget, Option.getD_some] at hsome
        rw [Head.given?, hget, Option.filter_some, if_pos hsome] at hfrom
        simp [Record.getD, hget, givenOr_iff h, hkeyword, hvalue, ← hfrom]
    · cases hstep
  · rw [if_neg hvalue] at hstep
    have hsome : (Value.str head.value).isSome = true := by simpa [Value.isSome] using hvalue
    rw [if_pos hsome] at hstep
    cases hstep
    have htext : IsText (.str head.value) := ⟨_, rfl⟩
    simp [givenOr_iff h, hkeyword, hvalue, htext]

theorem allTexts_auth {auth : Option Auth}
    (hauth : readAuth (head.options.getD "auth" .null) = .ok auth)
    (hkeyword : head.keyword = .fetch) :
    AllTexts (auth.toList.flatMap Auth.texts) ↔ ∀ auth ∈ head.credentials?,
      Clear auth ["headerName"] ["username", "password", "token", "apiKey"] := by
  rw [Record.getD] at hauth
  rw [Head.credentials?, hkeyword]
  cases hget : head.options.get? "auth" with
  | none =>
    rw [hget] at hauth
    cases hauth
    simp
  | some v =>
    rw [hget, Option.getD_some] at hauth
    cases h.get? hget with
    | text s =>
      cases hauth
      simp
    | @block entries hentries =>
      unfold readAuth at hauth
      dsimp only at hauth ⊢
      cases hkind : (Record.get? entries "type").filter Value.isSome with
      | none =>
        rw [hkind] at hauth
        cases hauth
        simp
      | some kind =>
        rw [hkind] at hauth
        obtain ⟨kind, -, hauth⟩ := exists_of_bind hauth
        cases hauth
        have hauthored : Authored entries := hentries
        simp [hauthored.plain_iff, hauthored.fallback_iff]

omit h in
/-- A request that is read stores its result under the name that is given, or under one that stands
behind its address. -/
theorem exists_fetch (hstep : fetchStep head = .ok leaf) :
    ∃ url method headers auth trailing timeoutMs,
      leaf = .fetch
        { url, method, body := head.given? "body", headers, auth
          storeAs := (head.given? "as").or trailing, timeoutMs } ∧
      readAuth (head.options.getD "auth" .null) = .ok auth ∧ AllTexts trailing.toList := by
  unfold fetchStep at hstep
  dsimp only at hstep
  split at hstep
  next name rest hname =>
    have hgiven : head.given? "as" = none := by
      cases hgiven : head.given? "as" with
      | none => rfl
      | some v => simp [hgiven] at hname
    split at hstep
    · cases hstep
    obtain ⟨auth, hauth, hstep⟩ := exists_of_bind hstep
    obtain ⟨timeoutMs, -, hstep⟩ := exists_of_bind hstep
    cases hstep
    refine ⟨_, _, _, auth, some (.str (.ofList name)), _, by rw [hgiven]; rfl, hauth, ?_⟩
    simp [IsText]
  · split at hstep
    · cases hstep
    obtain ⟨auth, hauth, hstep⟩ := exists_of_bind hstep
    obtain ⟨timeoutMs, -, hstep⟩ := exists_of_bind hstep
    cases hstep
    exact ⟨_, _, _, auth, none, _, by rw [Option.or_none], hauth, allTexts_nil⟩

theorem allTexts_fetch (hkeyword : head.keyword = .fetch) (hstep : fetchStep head = .ok leaf) :
    AllTexts leaf.texts ↔ head.Clear := by
  obtain ⟨url, method, headers, auth, trailing, timeoutMs, rfl, hauth, htrailing⟩ :=
    exists_fetch hstep
  have hcredentials := allTexts_auth h hauth hkeyword
  have has : AllTexts ((head.given? "as").or trailing).toList ↔ ¬IsKeyed head.options "as" := by
    rw [← given_iff h]
    cases head.given? "as" with
    | none => exact iff_of_true htrailing allTexts_nil
    | some v => rfl
  rw [Head.Clear, ← hcredentials]
  simp [has, given_iff h, hkeyword, and_assoc]

/-- The first of some options that is there, or a blank if it is empty. -/
theorem allTexts_first (keys : List String) :
    AllTexts (((keys.findSome? fun key => head.options.get? (.str key)).map fun v =>
      if v.isSome then v else .str " ").toList) ↔
        ∀ key ∈ (keys.find? fun key => (head.options.get? (.str key)).isSome).toList,
          ¬IsKeyed head.options key := by
  induction keys with
  | nil => simp
  | cons key rest ih =>
    rw [List.findSome?_cons, List.find?_cons]
    cases hget : head.options.get? (.str key) with
    | none => exact ih
    | some v =>
      have hkey := h.optional_iff key
      rw [hget, Option.filter_some] at hkey
      cases hsome : v.isSome with
      | true => simpa [hsome] using hkey
      | false => simpa [hsome, IsText] using hkey

theorem allTexts_task (hkeyword : head.keyword = .task) (hstep : taskStep head = .ok leaf) :
    AllTexts leaf.texts ↔ head.Clear := by
  unfold taskStep at hstep
  obtain ⟨op, -, hstep⟩ := exists_of_bind hstep
  obtain ⟨indent, -, hstep⟩ := exists_of_bind hstep
  dsimp only at hstep
  split at hstep
  · cases hstep
  split at hstep
  · cases hstep
  cases hstep
  have hstatus := allTexts_first h ["to", "toStatus", "status"]
  have hkeys : ([.str "to", .str "toStatus", .str "status"] : List Key).findSome?
        head.options.get? =
      ["to", "toStatus", "status"].findSome? fun key : String => head.options.get? (.str key) := rfl
  simp only [Step.texts, allTexts_append, allTexts_cons, given_iff h, givenOr_iff h]
  rw [hkeys, hstatus]
  simp [hkeyword, or_imp, forall_and]

theorem allTexts_step (hstep : stepOf head = .ok leaf) : AllTexts leaf.texts ↔ head.Clear := by
  cases hkeyword : head.keyword <;> rw [stepOf, hkeyword] at hstep <;> dsimp only at hstep
  case read => exact allTexts_read h hkeyword hstep
  case file => exact allTexts_file h hkeyword hstep
  case fetch => exact allTexts_fetch h hkeyword hstep
  case task => exact allTexts_task h hkeyword hstep
  case «if» | foreach => cases hstep
  case shell =>
    obtain ⟨command, -, hstep⟩ := exists_of_bind hstep
    obtain ⟨timeout, -, hstep⟩ := exists_of_bind hstep
    cases hstep
    simp [given_iff h, hkeyword]
  case transform =>
    obtain ⟨mode, rfl⟩ := exists_mode hstep
    simp [hkeyword]
  case set | validate =>
    obtain ⟨command, -, hstep⟩ := exists_of_bind hstep
    cases hstep
    simp [given_iff h, givenOr_iff h, hkeyword]
  case build | delay | append | log | notify =>
    obtain ⟨command, -, hstep⟩ := exists_of_bind hstep
    cases hstep
    simp [hkeyword]
  case extract =>
    obtain ⟨command, -, hstep⟩ := exists_of_bind hstep
    cases hstep
    simp [givenOr_iff h, hkeyword]
  case query | «match» =>
    cases hstep
    simp [queryStep, givenOr_iff h, hkeyword]
  case «return» =>
    cases hstep
    simp [hkeyword]
  case date =>
    obtain ⟨mode, -, hstep⟩ := exists_of_bind hstep
    obtain ⟨format, -, hstep⟩ := exists_of_bind hstep
    cases hstep
    simp [given_iff h, givenOr_iff h, hkeyword]
  case filter =>
    split at hstep
    next condition hcondition =>
      cases hstep
      have hwhere := given_iff h "where"
      rw [hcondition] at hwhere
      simp [givenOr_iff h, hkeyword, ← hwhere]
    · cases hstep
  case map =>
    split at hstep
    next template htemplate =>
      cases hstep
      have hplain := h.plain_iff "template"
      rw [htemplate] at hplain
      simp [givenOr_iff h, hkeyword, ← hplain, and_assoc]
    · cases hstep

end Steps

section Actions

variable {item : Item} {head : Head} {core : Core}

theorem hasTexts_iff (hhead : headFor? item = some head) (hcore : head.core? = some core) :
    core.HasTexts ↔ head.Clear := by
  have h := authored_headFor? hhead
  rw [Core.HasTexts]
  rw [Head.core?] at hcore
  split at hcore
  next hkeyword =>
    cases hcore
    simp [Core.texts, hkeyword]
  next hkeyword =>
    obtain ⟨items, -, rfl⟩ := Option.map_eq_some_iff.1 hcore
    simp [Core.texts, given_iff h, givenOr_iff h, hkeyword]
  · obtain ⟨leaf, hleaf, rfl⟩ := Option.map_eq_some_iff.1 hcore
    exact allTexts_step h (toOption_eq_some.1 hleaf)

/-- The fields of all actions that are read hold texts if and only if every bullet that is reached and has
a block at an option for a text is left out with a warning. -/
theorem text_fields_iff (items : List Item) (ws : List String) :
    (∀ node ∈ Action.flattenAll ((readActions items).run ws).1, node.core.HasTexts) ↔
      ∀ b ∈ bulletsOf items, b.Reached → HoldsBlock b.item → IsDropped b.item := by
  constructor
  · intro htexts b hb hreached ⟨head, hhead, hblock⟩
    rw [isDropped_iff]
    cases hcore : coreFor? b.item with
    | none => rfl
    | some core =>
      have hb' : b.core? = some core := by rw [Bullet.core?, if_pos hreached, hcore]
      obtain ⟨node, hnode, rfl⟩ := (exists_node_iff items ws).2 ⟨b, hb, hb'⟩
      rw [coreFor?, hhead] at hcore
      exact absurd ((hasTexts_iff hhead hcore).1 (htexts node hnode)) hblock
  · intro hdropped node hnode
    obtain ⟨b, hb, hcore⟩ := (exists_node_iff items ws).1 ⟨node, hnode, rfl⟩
    rw [Bullet.core?] at hcore
    split at hcore
    next hreached =>
      obtain ⟨head, hhead, hstep⟩ := Option.bind_eq_some_iff.1 hcore
      refine (hasTexts_iff hhead hstep).2 (Classical.byContradiction fun hblock => ?_)
      have hnone := isDropped_iff.1 (hdropped b hb hreached ⟨head, hhead, hblock⟩)
      cases hcore.symm.trans hnone
    · cases hcore

/-- A command whose result goes to a name that is a block. -/
def nestedName : String := "- shell: ls\n    - as:\n        - x: y"

/-- A command with a record for the name of its result. -/
def namesRecord (node : Action) : Bool :=
  match node.core with
  | .step (.shell "ls" (some (.map _)) none) => true
  | _ => false

/-- The action is read without a warning, with a record for the name. -/
theorem nestedName_stored : ((readActions (Outline.ofText nestedName)).run []).2 = [] ∧
    ∃ node ∈ Action.flattenAll ((readActions (Outline.ofText nestedName)).run []).1,
      ∃ entries, node.core = .step (.shell "ls" (some (.map entries)) none) ∧
        ¬node.core.HasTexts := by
  refine ⟨by decide +kernel, ?_⟩
  have hread : (Action.flattenAll ((readActions (Outline.ofText nestedName)).run []).1).any
      namesRecord = true := by
    decide +kernel
  obtain ⟨node, hnode, hcore⟩ := List.any_eq_true.1 hread
  unfold namesRecord at hcore
  split at hcore
  next entries heq =>
    refine ⟨node, hnode, entries, heq, ?_⟩
    rw [heq]
    intro htexts
    obtain ⟨s, hs⟩ := htexts _ (List.mem_singleton_self _)
    cases hs
  · cases hcore

end Actions

end BulletScript.Script
