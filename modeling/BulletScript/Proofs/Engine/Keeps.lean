import BulletScript.Engine.Run
import BulletScript.Proofs.Engine.Act
import BulletScript.Proofs.Value.Record

/-! The variables that the actions of a script name as theirs to write. Of a pattern these are the
names of its tokens, of a regular expression the names of its groups. -/
namespace BulletScript

namespace Template

/-- The names of the tokens of a pattern. -/
def patternNames (pattern : String) : List String :=
  match parsePattern pattern with
  | .ok tokens => tokens.map (·.name)
  | .error _ => []

theorem keysIn_collect {names : List String} {found : List (Token × String)} {values : Record}
    (hvalues : values.KeysIn names) (hfound : ∀ pair ∈ found, pair.1.name ∈ names) :
    (collect values found).values.KeysIn names := by
  induction found generalizing values with
  | nil => exact hvalues
  | cons pair rest ih =>
    obtain ⟨hname, hrest⟩ := List.forall_mem_cons.1 hfound
    rw [collect]
    split
    · exact hvalues
    · exact ih hvalues hrest
    · exact ih (hvalues.set hname _) hrest

theorem keysIn_matchTokens {text pattern : String} {segments : List Segment} {tokens : List Token}
    {found : Extraction} (h : matchTokens text pattern segments tokens = .ok found) :
    found.values.KeysIn (tokens.map (·.name)) := by
  unfold matchTokens at h
  dsimp only at h
  split at h
  · cases h
  · cases h
    exact Record.keysIn_nil _
  · split at h
    · split at h
      · cases h
        exact Record.keysIn_nil _
      · cases h
        exact Record.keysIn_nil _
    · cases h
      refine keysIn_collect (Record.keysIn_nil _) fun pair hpair => ?_
      obtain ⟨⟨token, i⟩, htoken, rfl⟩ := List.mem_map.1 hpair
      exact List.mem_map_of_mem (List.fst_mem_of_mem_zipIdx htoken)

/-- A match gives values to the tokens of its pattern only. -/
theorem keysIn_extract {text pattern : String} {found : Extraction}
    (h : extract text pattern = .ok found) : found.values.KeysIn (patternNames pattern) := by
  unfold extract at h
  dsimp only at h
  split at h
  · cases h
    exact Record.keysIn_nil _
  · cases h
  · rename_i written tokens hparts
    have htokens : patternNames pattern = tokens.map (·.name) := by
      rw [patternNames, parsePattern]
      cases hsegments : segments pattern with
      | error failure => simp [hsegments, bind, Except.bind] at hparts
      | ok segments =>
        cases hread : tokensOf segments with
        | error failure => simp [hsegments, hread, bind, Except.bind] at hparts
        | ok read =>
          simp only [hsegments, hread, bind, Except.bind, pure, Except.pure, Except.ok.injEq,
            Prod.mk.injEq] at hparts
          simp only [bind, Except.bind, hread, hparts.2]
    rw [htokens]
    split at h
    · split at h
      · cases h
        exact Record.keysIn_nil _
      · cases h
        exact Record.keysIn_nil _
    · exact keysIn_matchTokens h

end Template

namespace Engine

open Script

/-- The names of the groups of a regular expression. -/
def groupNames (pattern : String) : List String :=
  match Regex.readLiteral pattern with
  | .ok literal => literal.regex.names.map (·.1)
  | .error _ => []

theorem keysIn_namedGroups (literal : Regex.Literal) (text : Array Char) :
    (namedGroups literal text).KeysIn (literal.regex.names.map (·.1)) := by
  unfold namedGroups
  split
  · exact Record.keysIn_nil _
  · rename_i m _
    intro entry hentry
    obtain ⟨⟨name, index⟩, hname, hgroup⟩ := List.mem_filterMap.1 hentry
    obtain ⟨group, -, rfl⟩ := Option.map_eq_some_iff.1 hgroup
    exact ⟨name, List.mem_map_of_mem hname, rfl⟩

/-- The variable that an option names. -/
def nameIn : Value → List String
  | .str name => [name]
  | _ => []

/-- The variable that an option names which may be missing or empty. -/
def namesIn (name : Option Value) : List String :=
  ((name.filter Value.isSome).map nameIn).getD []

/-- What a read writes apart from its text and the values of its pattern. -/
def sourceNames (step : ReadStep) : List String :=
  match step.source with
  | .line => ["textContent"]
  | .document | .file | .selection => []
  | .children => nameIn step.childrenAs ++ nameIn step.childrenLinesAs
  | .wikilink =>
    nameIn step.fileAs ++ if step.includeFrontmatter then nameIn step.frontmatterAs else []
  | .image => nameIn step.fileAs

end Engine

namespace Script

open Template Engine

/-- The variables that a step may write. -/
def Step.writes : Step → List String
  | .read step => patternNames step.pattern ++ "text" :: sourceNames step ++ namesIn step.storeAs
  | .file _ storeAs | .query _ storeAs _ | .filter _ _ storeAs _ | .map _ _ storeAs _
  | .date _ _ storeAs _ => nameIn storeAs
  | .fetch step => "response" :: namesIn step.storeAs
  | .shell _ storeAs _ => "output" :: namesIn storeAs
  | .transform .. => ["line"]
  | .build name _ => [name]
  | .set name _ pattern _ => name :: (namesIn pattern).flatMap patternNames
  | .match pattern _ => patternNames pattern
  | .extract pattern _ storeAs => nameIn storeAs ++ groupNames pattern
  | .task step => if step.op = .status then ["task"] else []
  | .return _ | .append .. | .validate .. | .delay _ | .log .. | .notify .. => []

/-- The variables that an action itself may write: those of its step. The names of a loop are not among
them, nor is the description of a failure, which every handler is told. -/
def Action.writes : Action → List String
  | .step leaf _ _ => leaf.writes
  | .branch .. | .loop .. => []

end Script

end BulletScript

/-! Properties of scenes that acts keep. Acts that write variables spare the other ones, and the
site of a run (the item's path, the buffer and the cursor). A property of the site is kept by whole
runs if the steps keep it, and the moves of loops. -/
namespace BulletScript.Tasks.Editor

variable (editor : Editor) (tree : Files.Tree) (item : WorkItem)

theorem update_path (u : Update) : (editor.update tree item u).1.path = item.path := by
  unfold update
  split
  · rfl
  · dsimp only
    split <;> rfl

theorem setStatus_path (status : String) :
    (editor.setStatus tree item status).1.path = item.path := by
  unfold setStatus
  split
  · rfl
  · split
    · rfl
    · dsimp only
      split
      · rfl
      · split <;> rfl

theorem children_path : (editor.children tree item).1.path = item.path := by
  unfold children
  split <;> rfl

end BulletScript.Tasks.Editor

namespace BulletScript.Engine

open Script Tasks

namespace Act

variable {α β : Type} {P : Scene → Prop}

/-- An act that keeps a property of scenes, whether it fails or not. -/
def Keeps (P : Scene → Prop) (m : Act α) : Prop := ∀ s, P s → P (m.run s).2

namespace Keeps

@[simp] theorem pure (a : α) : Keeps P (pure a : Act α) := fun _ h => h

@[simp] theorem throw (f : Failure) : Keeps P (throw f : Act α) := fun _ h => h

@[simp] theorem fail (fault : ActionFault) : Keeps P (fail fault : Act α) := fun _ h => h

@[simp] theorem ofResult (r : Result α) : Keeps P (ofResult r) := fun _ h => h

@[simp] theorem get : Keeps P (get : Act Scene) := fun _ h => h

@[simp] theorem context : Keeps P context := fun _ h => h

@[simp] theorem withTree (work : Files.Tree → Result α) : Keeps P (withTree work) := fun _ h => h

@[simp] theorem bind {m : Act α} {k : α → Act β} (hm : Keeps P m) (hk : ∀ a, Keeps P (k a)) :
    Keeps P (m >>= k) := by
  intro s hs
  have h := hm s hs
  rw [run_bind]
  rcases hr : m.run s with ⟨_ | a, s'⟩
  · simpa [hr] using h
  · exact hk a s' (by simpa [hr] using h)

theorem ofResult_bind {r : Result α} {k : α → Act β} (hk : ∀ a, r = .ok a → Keeps P (k a)) :
    Keeps P (Act.ofResult r >>= k) := by
  intro s hs
  rw [run_bind, run_ofResult]
  cases r with
  | error f => exact hs
  | ok a => exact hk a rfl s hs

@[simp] theorem map {m : Act α} (f : α → β) (hm : Keeps P m) : Keeps P (f <$> m) := by
  rw [map_eq_pure_bind]
  exact hm.bind fun a => .pure (f a)

@[simp] theorem tryCatch {m : Act α} {k : Failure → Act α} (hm : Keeps P m)
    (hk : ∀ f, Keeps P (k f)) : Keeps P (tryCatch m k) := by
  intro s hs
  have h := hm s hs
  rw [run_tryCatch]
  rcases hr : m.run s with ⟨f | a, s'⟩
  · exact hk f s' (by simpa [hr] using h)
  · simpa [hr] using h

theorem modify {g : Scene → Scene} (h : ∀ s, P s → P (g s)) : Keeps P (modify g : Act Unit) := h

theorem modifyGet {g : Scene → α × Scene} (h : ∀ s, P s → P (g s).2) :
    Keeps P (modifyGet g : Act α) := h

@[simp] theorem ite {c : Prop} [Decidable c] {m n : Act α} (hm : Keeps P m) (hn : Keeps P n) :
    Keeps P (if c then m else n) := by
  split
  · exact hm
  · exact hn

@[simp] theorem mapM {f : α → Act β} (h : ∀ a, Keeps P (f a)) (as : List α) :
    Keeps P (as.mapM f) := by
  induction as with
  | nil => simp
  | cons a as ih => simp [h, ih]

@[simp] theorem foldlM {f : β → α → Act β} (h : ∀ b a, Keeps P (f b a)) (as : List α) (b : β) :
    Keeps P (as.foldlM f b) := by
  induction as generalizing b with
  | nil => simp
  | cons a as ih => simp [h, ih]

end Keeps

@[simp] theorem keeps_items (reference : String) : Keeps P (items reference) := by
  rw [items]
  refine .bind .context fun c => .bind (.ofResult _) fun v => ?_
  split <;> simp

/-- To find its list a loop changes nothing. -/
theorem run_items {reference : String} {values : List Value} {s : Scene}
    (h : ((items reference).run s).1 = .ok values) :
    (items reference).run s = (.ok values, s) :=
  Prod.ext h (keeps_items (P := (· = s)) reference s rfl)

@[simp] theorem keeps_holds (condition : String) : Keeps P (holds condition) := by
  simp [holds]

/-- What a scene may become through acts that write these variables, and neither the buffer nor the
cursor. The world and the texts of the item may change. -/
structure SameBut (names : List String) (s₀ s : Scene) : Prop where
  path : s.item.map (·.path) = s₀.item.map (·.path)
  buffer : s.buffer = s₀.buffer
  cursor : s.context.cursor = s₀.context.cursor
  vars : ∀ name ∉ names, s.context.vars.get? (.str name) = s₀.context.vars.get? (.str name)

theorem SameBut.refl (names : List String) (s : Scene) : SameBut names s s :=
  ⟨rfl, rfl, rfl, fun _ _ => rfl⟩

/-- A property of scenes that looks only at the path of the item, the buffer, the cursor of the run,
and variables other than these. -/
def Blind (names : List String) (P : Scene → Prop) : Prop := ∀ s s', SameBut names s s' → P s → P s'

theorem Blind.mono {names names' : List String} (h : Blind names P) (hnames : names' ⊆ names) :
    Blind names' P := by
  intro s s' hsame
  refine h s s' { hsame with vars := fun name hname => hsame.vars name fun hmem => ?_ }
  exact hname (hnames hmem)

/-- A property is kept by what writes only what it does not look at. -/
theorem Keeps.of_blind {names : List String} {m : Act α} (h : Blind names P)
    (hm : ∀ s, Keeps (SameBut names s) m) : Keeps P m :=
  fun s hs => h s _ (hm s s (.refl names s)) hs

section Spares

variable {names : List String} {s₀ : Scene}

theorem spares_modifyContext {g : Context → Context} (hcursor : ∀ c, (g c).cursor = c.cursor)
    (hvars : ∀ c, ∀ name ∉ names, (g c).vars.get? (.str name) = c.vars.get? (.str name)) :
    Keeps (SameBut names s₀) (modifyContext g) := by
  intro s hs
  refine { hs with cursor := (hcursor _).trans hs.cursor, vars := fun name hname => ?_ }
  exact (hvars _ name hname).trans (hs.vars name hname)

@[simp] theorem spares_modifyWorld (g : World → World) :
    Keeps (SameBut names s₀) (modifyWorld g) :=
  fun _ h => { h with }

@[simp] theorem spares_set {name : String} (h : name ∈ names) (v : Value) :
    Keeps (SameBut names s₀) (set name v) := by
  refine spares_modifyContext (fun _ => rfl) fun c other hother => ?_
  have hne : name ≠ other := fun heq => hother (heq ▸ h)
  dsimp only
  rw [Record.get?_set_str, beq_false_of_ne hne, if_neg Bool.false_ne_true]

theorem spares_setMany {values : Record} (h : values.KeysIn names) :
    Keeps (SameBut names s₀) (setMany values) :=
  spares_modifyContext (fun _ => rfl) fun _ _ hname => Record.get?_update_of_keysIn h hname

@[simp] theorem spares_setNamed {name : Value} (h : nameIn name ⊆ names) (v : Value) :
    Keeps (SameBut names s₀) (setNamed name v) := by
  intro s hs
  rw [run_setNamed]
  cases name with
  | str name => exact spares_set (h (List.mem_singleton_self _)) v s hs
  | _ => exact hs

@[simp] theorem spares_setLine (h : "line" ∈ names) (line : String) :
    Keeps (SameBut names s₀) (setLine line) :=
  .bind (spares_modifyContext (fun _ => rfl) fun _ _ _ => rfl) fun _ => spares_set h _

@[simp] theorem spares_storeIn {name : Option Value} (h : namesIn name ⊆ names) (v : Value) :
    Keeps (SameBut names s₀) (storeIn name v) := by
  rw [storeIn]
  split
  · rename_i name hname
    exact spares_setNamed (by simpa [namesIn, hname] using h) v
  · exact .pure _

@[simp] theorem spares_log (level : LogLevel) (message : String) :
    Keeps (SameBut names s₀) (log level message) :=
  spares_modifyWorld _

theorem spares_edit {work : Files.Tree → WorkItem → WorkItem × Result α}
    (hwork : ∀ tree item, (work tree item).1.path = item.path) (keep : α → World → World) :
    Keeps (SameBut names s₀) (edit work keep) := by
  intro s hs
  rw [edit, run_bind, run_get]
  dsimp only
  split
  · exact hs
  · rename_i item hitem
    have htold : SameBut names s₀ { s with item := some (work s.world.tree item).1 } := by
      refine { hs with path := Eq.trans ?_ hs.path }
      simp [hwork, hitem]
    exact Keeps.bind (.ofResult _) (fun a => .bind (spares_modifyWorld _) fun _ => .pure _) _ htold

@[simp] theorem spares_updateItem (editor : Editor) (u : Update) :
    Keeps (SameBut names s₀) (updateItem editor u) := by
  exact .bind (spares_edit (fun tree item => editor.update_path tree item u) _) fun _ => .pure _

@[simp] theorem spares_setStatus (editor : Editor) (status : String) :
    Keeps (SameBut names s₀) (setStatus editor status) := by
  exact .bind (spares_edit (fun tree item => editor.setStatus_path tree item status) _) fun _ =>
    .pure _

@[simp] theorem spares_childLines (editor : Editor) :
    Keeps (SameBut names s₀) (childLines editor) := by
  exact .bind (spares_edit editor.children_path _) fun _ => .pure _

end Spares

/-- A property of scenes that looks only at the path of the item, the buffer and the cursor of the
run. -/
def OnSite (R : Option String → Option Buffer → Option Cursor → Prop) (s : Scene) : Prop :=
  R (s.item.map (·.path)) s.buffer s.context.cursor

/-- A property of scenes that looks only at the buffer and the cursor of the run. -/
abbrev OnEdit (Q : Option Buffer → Option Cursor → Prop) : Scene → Prop := OnSite fun _ => Q

/-- The run is about an item at this path, or about none. -/
abbrev OnPath (path : Option String) : Scene → Prop := OnSite fun p _ _ => p = path

section Runs

variable {R : Option String → Option Buffer → Option Cursor → Prop}

theorem blind_onSite (names : List String) : Blind names (OnSite R) := by
  intro s s' h hs
  rwa [OnSite, h.path, h.buffer, h.cursor]

theorem keeps_modifyContext {g : Context → Context} (h : ∀ c, (g c).cursor = c.cursor) :
    Keeps (OnSite R) (modifyContext g) := by
  intro s hs
  simpa [OnSite, h] using hs

@[simp] theorem keeps_set (name : String) (v : Value) : Keeps (OnSite R) (set name v) :=
  keeps_modifyContext fun _ => rfl

@[simp] theorem keeps_unset (names : List String) : Keeps (OnSite R) (unset names) :=
  keeps_modifyContext fun _ => rfl

@[simp] theorem keeps_setNamed (name v : Value) : Keeps (OnSite R) (setNamed name v) := by
  simp [setNamed]

@[simp] theorem keeps_setLine (line : String) : Keeps (OnSite R) (setLine line) :=
  .of_blind (blind_onSite ["line"]) fun _ => spares_setLine (List.mem_singleton_self _) line

@[simp] theorem keeps_updateItem (editor : Editor) (u : Update) :
    Keeps (OnSite R) (updateItem editor u) :=
  .of_blind (blind_onSite []) fun _ => spares_updateItem editor u

variable {perform : Step → Act Unit}

@[simp] theorem keeps_noteFailure (f : Failure) : Keeps (OnSite R) (noteFailure f) :=
  .bind (keeps_modifyContext fun _ => rfl) fun _ => keeps_set _ _

theorem keeps_handled {onError : List Action} {handler body : Act Unit}
    (hhandler : Keeps (OnSite R) handler) (hbody : Keeps (OnSite R) body) :
    Keeps (OnSite R) (handled onError handler body) := by
  rw [handled]
  exact .ite hbody (.tryCatch hbody fun f => .bind (keeps_noteFailure f) fun _ => hhandler)

@[simp] theorem keeps_anchorCursor : Keeps P anchorCursor := .bind .get fun _ => .pure _

@[simp] theorem keeps_dropNames (itemName indexName : Value) :
    Keeps (OnSite R) (dropNames itemName indexName) := by
  rw [dropNames]
  refine .bind (.ofResult _) fun _ => .bind (keeps_unset _) fun _ => ?_
  exact .bind (.ofResult _) fun _ => keeps_unset _

variable (hmove : ∀ position, Keeps (OnSite R) (moveCursor position))
include hmove

theorem keeps_moveBack (position : Option Cursor) : Keeps (OnSite R) (moveBack position) := by
  cases position with
  | none => exact .pure _
  | some position => exact hmove position

theorem keeps_enterRound (itemName indexName : Value) (anchor : Option Cursor) (index : Nat)
    (item : Value) : Keeps (OnSite R) (enterRound itemName indexName anchor index item) := by
  rw [enterRound]
  refine .bind (keeps_setNamed _ _) fun _ => .bind (keeps_setNamed _ _) fun _ => ?_
  exact keeps_moveBack hmove anchor

theorem keeps_eachItem {itemName indexName : Value} {anchor : Option Cursor} {body : Act Unit}
    (hbody : Keeps (OnSite R) body) (values : List Value) (index : Nat) (last : Option Cursor) :
    Keeps (OnSite R) (eachItem itemName indexName anchor body index last values) := by
  induction values generalizing index last with
  | nil => exact .pure _
  | cons item rest ih =>
    rw [eachItem]
    refine .bind (keeps_enterRound hmove _ _ _ _ _) fun _ => .bind hbody fun _ => ?_
    exact .bind .context fun c => .ite (.pure _) (ih _ _)

theorem keeps_forEach {reference : String} {itemName : Value} {indexName : Option Value}
    {body : Act Unit} (hbody : Keeps (OnSite R) body) :
    Keeps (OnSite R) (forEach reference itemName indexName body) := by
  rw [forEach]
  refine .bind (keeps_items _) fun values => .bind keeps_anchorCursor fun anchor => ?_
  refine .bind (.tryCatch (keeps_eachItem hmove hbody _ _ _) fun f => ?_) fun last => ?_
  · exact .bind (keeps_dropNames _ _) fun _ => .throw f
  · exact .bind (keeps_dropNames _ _) fun _ => keeps_moveBack hmove last

omit hmove

mutual

theorem keeps_action (hmove : ∀ position, Keeps (OnSite R) (moveCursor position))
    (hperform : ∀ leaf, Keeps (OnSite R) (perform leaf)) :
    ∀ a : Action, Keeps (OnSite R) (action perform a)
  | .step leaf onError line => by
    rw [action]
    exact keeps_handled (keeps_sequence hmove hperform onError) (hperform leaf)
  | .branch condition yes no onError line => by
    rw [action]
    refine keeps_handled (keeps_sequence hmove hperform onError)
      (.bind (keeps_holds condition) fun b => ?_)
    exact .ite (keeps_sequence hmove hperform yes) (keeps_sequence hmove hperform no)
  | .loop reference itemName indexName body onError line => by
    rw [action]
    exact keeps_handled (keeps_sequence hmove hperform onError)
      (keeps_forEach hmove (keeps_sequence hmove hperform body))

/-- What holds of the site of a run is kept by the whole run. -/
theorem keeps_sequence (hmove : ∀ position, Keeps (OnSite R) (moveCursor position))
    (hperform : ∀ leaf, Keeps (OnSite R) (perform leaf)) :
    ∀ as : List Action, Keeps (OnSite R) (sequence perform as)
  | [] => by
    rw [sequence]
    exact .pure _
  | first :: rest => by
    rw [sequence]
    refine .bind .context fun c => .ite (.pure _) ?_
    exact .bind (keeps_action hmove hperform first) fun _ => keeps_sequence hmove hperform rest

end

end Runs

end Act
end BulletScript.Engine
