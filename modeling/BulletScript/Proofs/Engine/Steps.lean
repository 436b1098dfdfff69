import BulletScript.Proofs.Engine.Keeps

/-! What the steps keep: most of them touch neither the buffer nor the cursor, none of them gives the
item another path, and each of them spares the variables that are not its own to write. -/
namespace BulletScript.Engine

open Script Tasks Template

namespace Act

variable {α : Type} {P : Scene → Prop} {names : List String} {s₀ : Scene}
  {R : Option String → Option Buffer → Option Cursor → Prop}

@[simp] theorem keeps_render (template : String) : Keeps P (render template) := by
  simp [render]

@[simp] theorem keeps_renderOption (template : Value) : Keeps P (renderOption template) := by
  simp [renderOption]

@[simp] theorem keeps_renderMaybe (template : Option Value) : Keeps P (renderMaybe template) := by
  cases template <;> simp [renderMaybe]

@[simp] theorem keeps_require (service : Option α) (name : String) :
    Keeps P (require service name) := by
  cases service <;> simp [require]

@[simp] theorem keeps_store (engine : Runner) : Keeps P (store engine) := by
  simp [store]

@[simp] theorem keeps_resolve (store : Documents.Store) (reference : String) :
    Keeps P (resolve store reference) := by
  rw [resolve]
  refine .bind .context fun c => .bind (.withTree _) fun found => ?_
  cases found <;> simp

@[simp] theorem keeps_referenceOf (step : ReadStep) (find : String → Option String) :
    Keeps P (referenceOf step find) := by
  rw [referenceOf]
  split
  · simp
  · refine .bind .context fun c => ?_
    dsimp only
    split <;> simp

@[simp] theorem keeps_currentCursor : Keeps P currentCursor := by
  simp [currentCursor]

@[simp] theorem keeps_buffer : Keeps P buffer := by
  rw [buffer]
  refine .bind .get fun s => ?_
  split <;> simp

@[simp] theorem keeps_commandFolder (engine : Runner) : Keeps P (commandFolder engine) := by
  rw [commandFolder]
  split <;> simp

@[simp] theorem keeps_addAuth (auth : Auth) (headers : List (String × String)) :
    Keeps P (addAuth auth headers) := by
  rw [addAuth]
  split <;> simp

@[simp] theorem keeps_requestBody (step : FetchStep) : Keeps P (requestBody step) := by
  rw [requestBody]
  split
  · simp
  · refine .ite (.pure _) (.bind (.ofResult _) fun template => .bind (keeps_render _) fun text => ?_)
    refine .ite (.pure _) (.bind .context fun c => ?_)
    dsimp only
    split
    · simp
    · split <;> simp

@[simp] theorem keeps_timeoutOf (timeoutMs : Option Int) (usual : Float) :
    Keeps P (timeoutOf timeoutMs usual) := by
  rw [timeoutOf]
  split <;> simp

mutual

theorem keeps_itemChild : ∀ child : ChildTemplate, Keeps P (itemChild child)
  | ⟨template, indent, children⟩ => by
    rw [itemChild]
    refine .bind (keeps_render template) fun text => ?_
    exact .ite (.pure _) (.bind (keeps_itemChildren children) fun below => .pure _)

@[simp] theorem keeps_itemChildren : ∀ children : List ChildTemplate, Keeps P (itemChildren children)
  | [] => by simp [itemChildren]
  | child :: rest => by
    rw [itemChildren]
    exact .bind (keeps_itemChild child) fun own =>
      .bind (keeps_itemChildren rest) fun below => .pure _

end

mutual

theorem keeps_bufferChild : ∀ (child : ChildTemplate) (shift : Int), Keeps P (bufferChild shift child)
  | ⟨template, indent, children⟩, shift => by
    rw [bufferChild]
    refine .bind (keeps_render template) fun text => ?_
    exact .bind (keeps_bufferChildren children shift) fun below => .pure _

theorem keeps_bufferChildren :
    ∀ (children : List ChildTemplate) (shift : Int), Keeps P (bufferChildren shift children)
  | [], shift => by simp [bufferChildren]
  | child :: rest, shift => by
    rw [bufferChildren]
    exact .bind (keeps_bufferChild child shift) fun own =>
      .bind (keeps_bufferChildren rest shift) fun below => .pure _

end

theorem keeps_bufferEntries (line template : String) (mode : TransformMode)
    (children : List ChildTemplate) : Keeps P (bufferEntries line template mode children) := by
  have hfirst (head : ChildTemplate) (rest : List ChildTemplate) : Keeps P (do
      let first := Text.leadingBlanks line ++ "- " ++ Text.trim (← render head.template)
      let inner ← bufferChildren 1 head.children
      return (first, inner ++ (← bufferChildren 0 rest))) := by
    refine .bind (keeps_render _) fun text => .bind (keeps_bufferChildren _ _) fun inner => ?_
    exact .bind (keeps_bufferChildren _ _) fun below => .pure _
  unfold bufferEntries
  refine .ite (.bind (keeps_render _) fun text => ?_) ?_
  · exact .bind (keeps_bufferChildren _ _) fun below => .pure _
  · cases children with
    | nil => exact .pure _
    | cons head rest => exact hfirst head rest

theorem keeps_requestOf (engine : Runner) (step : FetchStep) : Keeps P (requestOf engine step) := by
  rw [requestOf]
  refine .bind (keeps_render _) fun url => ?_
  refine .bind (.foldlM (fun headers (name, value) => by simp) _ _) fun headers => ?_
  have hrest (headers : List (String × String)) : Keeps P (do
      let body ← requestBody step
      let timeout ← timeoutOf step.timeoutMs engine.settings.http.timeout
      return (⟨Text.upper step.method, url, headers, body, timeout⟩ : Request)) := by
    simp
  split
  · exact .bind (keeps_addAuth _ _) hrest
  · exact hrest _

@[simp] theorem keeps_readDocument (engine : Runner) : Keeps P (readDocument engine) := by
  rw [readDocument]
  refine .bind (keeps_store _) fun store => .bind .context fun c => ?_
  split <;> simp

theorem keeps_validate (condition : String) (message : Option Value) :
    Keeps P (validate condition message) := by
  rw [validate]
  refine .bind (keeps_holds _) fun b => .ite (.pure _) ?_
  split
  · refine .bind (.ofResult _) fun template => .bind .context fun c => ?_
    exact .bind (.ofResult _) fun text => .fail _
  · exact .fail _

section Spares

theorem spares_extractInto {pattern : String} (h : patternNames pattern ⊆ names) (text : String) :
    Keeps (SameBut names s₀) (extractInto text pattern) := by
  rw [extractInto]
  refine .ofResult_bind fun found hfound => ?_
  split
  · exact .throw _
  · exact .bind (spares_setMany ((keysIn_extract hfound).mono h)) fun _ => .pure _

theorem spares_readLink (engine : Runner) {step : ReadStep} (hfile : nameIn step.fileAs ⊆ names)
    (hhead : step.includeFrontmatter = true → nameIn step.frontmatterAs ⊆ names) :
    Keeps (SameBut names s₀) (readLink engine step) := by
  rw [readLink]
  refine .bind (keeps_store _) fun store => .bind (keeps_referenceOf _ _) fun reference => ?_
  refine .bind (keeps_resolve _ _) fun target => .bind (.withTree _) fun text => ?_
  refine .bind (spares_setNamed hfile _) fun _ => .ite ?_ (.pure _)
  refine .bind (.ofResult _) fun (head, body) => ?_
  dsimp only
  split
  · rename_i hinclude
    exact .bind (spares_setNamed (hhead hinclude) _) fun _ => .pure _
  · simp

theorem spares_readImage (engine : Runner) {step : ReadStep} (h : nameIn step.fileAs ⊆ names) :
    Keeps (SameBut names s₀) (readImage engine step) := by
  rw [readImage]
  refine .bind (keeps_referenceOf _ _) fun reference => .bind (.ofResult _) fun web => ?_
  refine .ite (.pure _) (.bind (keeps_store _) fun store => ?_)
  refine .bind (keeps_resolve _ _) fun target => .bind (spares_setNamed h _) fun _ => ?_
  split <;> simp

theorem spares_readChildren (engine : Runner) {step : ReadStep}
    (hrecord : nameIn step.childrenAs ⊆ names) (hlines : nameIn step.childrenLinesAs ⊆ names) :
    Keeps (SameBut names s₀) (readChildren engine step) := by
  rw [readChildren]
  have hset (record ls : Value) (text : String) : Keeps (SameBut names s₀) (do
      setNamed step.childrenAs record
      setNamed step.childrenLinesAs ls
      return text) :=
    .bind (spares_setNamed hrecord _) fun _ => .bind (spares_setNamed hlines _) fun _ => .pure _
  refine .bind .get fun s => .ite (hset _ _ _) ?_
  refine .bind (keeps_require _ _) fun editor => .bind (spares_childLines _) fun children => ?_
  exact hset _ _ _

theorem spares_readSource (engine : Runner) {step : ReadStep} (h : sourceNames step ⊆ names) :
    Keeps (SameBut names s₀) (readSource engine step) := by
  rw [readSource]
  rw [sourceNames] at h
  split
  · simp
  · simp
  · simp
  · simp
  · rename_i hsource
    simp only [hsource, List.append_subset] at h
    exact spares_readChildren engine h.1 h.2
  · rename_i hsource
    simp only [hsource, List.append_subset] at h
    exact spares_readLink engine h.1 fun hinclude => by simpa [hinclude] using h.2
  · rename_i hsource
    simp only [hsource] at h
    exact spares_readImage engine h

theorem spares_read (engine : Runner) (step : ReadStep) :
    Keeps (SameBut (Step.read step).writes s₀) (read engine step) := by
  have htext : "text" ∈ (Step.read step).writes := by simp [Step.writes]
  have hstore : namesIn step.storeAs ⊆ (Step.read step).writes := List.subset_append_right ..
  have hpattern : patternNames step.pattern ⊆ (Step.read step).writes := by simp [Step.writes]
  have hsource : sourceNames step ⊆ (Step.read step).writes := by
    intro name hname
    simp [Step.writes, hname]
  have hline (h : step.source = .line) : "textContent" ∈ (Step.read step).writes :=
    hsource (by simp [sourceNames, h])
  generalize (Step.read step).writes = names at *
  have hsome {o : Option String} {content : String}
      (h : (if step.source = .line then o else none) = some content) : "textContent" ∈ names :=
    hline (Option.ite_none_right_eq_some.1 h).1
  rw [read]
  refine .bind (spares_readSource engine hsource) fun text => ?_
  dsimp only
  refine .ite (.bind (spares_extractInto hpattern _) fun _ => ?_) ?_
  all_goals
    refine .bind (spares_set htext _) fun _ => ?_
    generalize hcontent : (if step.source = .line then _ else none) = content
    cases content with
    | some content => exact .bind (spares_set (hsome hcontent) _) fun _ => spares_storeIn hstore _
    | none => exact spares_storeIn hstore _

theorem spares_file (engine : Runner) (reference storeAs : Value) :
    Keeps (SameBut (nameIn storeAs) s₀) (file engine reference storeAs) := by
  rw [file]
  refine .bind (keeps_store _) fun store => .bind (keeps_renderOption _) fun reference => ?_
  exact .bind (keeps_resolve _ _) fun document => spares_setNamed (List.Subset.refl _) _

theorem spares_takeResponse {step : FetchStep} (hresponse : "response" ∈ names)
    (hstore : namesIn step.storeAs ⊆ names) (response : Response) :
    Keeps (SameBut names s₀) (takeResponse step response) := by
  have htake : Keeps (SameBut names s₀) (do
      modifyContext fun c => { c with response := response.data }
      set "response" response.data
      storeIn step.storeAs response.data) := by
    refine .bind (spares_modifyContext (fun _ => rfl) fun _ _ _ => rfl) fun _ => ?_
    exact .bind (spares_set hresponse _) fun _ => spares_storeIn hstore _
  rw [takeResponse]
  exact .ite (.bind (.fail _) fun _ => htake) htake

theorem spares_fetch (engine : Runner) (step : FetchStep) :
    Keeps (SameBut (Step.fetch step).writes s₀) (fetch engine step) := by
  rw [fetch]
  refine .ite (.bind (.fail _) fun _ => ?_) ?_
  all_goals
    refine .bind (keeps_requestOf _ _) fun request => ?_
    refine .bind (.modifyGet fun _ h => { h with }) fun reply => ?_
    split
    · exact .throw _
    · exact spares_takeResponse (List.mem_cons_self ..) (List.subset_cons_self ..) _

theorem spares_query (engine : Runner) (identifier : String) (storeAs : Value) (options : Record) :
    Keeps (SameBut (nameIn storeAs) s₀) (query engine identifier storeAs options) := by
  rw [query]
  refine .bind (keeps_require _ _) fun store => .bind (keeps_render _) fun identifier => ?_
  refine .bind (.mapM (fun (key, v) => ?_) _) fun options => .bind (.ofResult _) fun q =>
    .bind (.withTree _) fun found => spares_setNamed (List.Subset.refl _) _
  dsimp only
  split <;> simp

theorem spares_date (engine : Runner) (mode : DateMode) (source : Option Value) (storeAs : Value)
    (format : DateFormat) :
    Keeps (SameBut (nameIn storeAs) s₀) (date engine mode source storeAs format) := by
  have hstore (moment : Calendar.Stamp) : Keeps (SameBut (nameIn storeAs) s₀) (do
      setNamed storeAs (← ofResult (Calendar.formatDate moment format))) :=
    .bind (.ofResult _) fun v => spares_setNamed (List.Subset.refl _) v
  unfold date
  cases mode with
  | now => exact hstore _
  | parse => cases source with
    | none => exact .bind (.pure _) fun text => .bind (.ofResult _) fun moment => hstore moment
    | some template =>
      exact .bind (keeps_renderOption _) fun text => .bind (.ofResult _) fun moment => hstore moment

theorem namesIn_of_templateOf {pattern : Option Value} {v : Value} {template : String}
    (h : pattern.filter Value.isSome = some v) (htemplate : templateOf v = .ok template) :
    namesIn pattern = [template] := by
  have hsome : v.isSome = true := (Option.filter_eq_some_iff.1 h).2
  rw [namesIn, h]
  cases v with
  | str written =>
    cases htemplate
    rfl
  | _ => simp only [templateOf, hsome, if_true, reduceCtorEq] at htemplate

theorem spares_setVariable (name value : String) (pattern : Option Value) (source : Value) :
    Keeps (SameBut (Step.set name value pattern source).writes s₀)
      (setVariable name value pattern source) := by
  have hset : Keeps (SameBut (Step.set name value pattern source).writes s₀) (do
      set name (parseLiteral (← render value))) :=
    .bind (keeps_render _) fun text => spares_set (List.mem_cons_self ..) _
  rw [setVariable]
  split
  · rename_i v hv
    refine .bind (keeps_renderOption _) fun text => .ofResult_bind fun template htemplate => ?_
    have hnames : patternNames template ⊆ (Step.set name value pattern source).writes := by
      simp [Step.writes, namesIn_of_templateOf hv htemplate]
    exact .bind (spares_extractInto hnames text) fun found => .ite (.pure _) hset
  · exact hset

theorem spares_matchText (pattern : String) (source : Value) :
    Keeps (SameBut (patternNames pattern) s₀) (matchText pattern source) := by
  rw [matchText]
  refine .bind (keeps_renderOption _) fun text => ?_
  exact .bind (spares_extractInto (List.Subset.refl _) text) fun _ => .pure _

theorem spares_extract (pattern : String) (source storeAs : Value) :
    Keeps (SameBut (nameIn storeAs ++ groupNames pattern) s₀) (extract pattern source storeAs) := by
  rw [extract]
  refine .ofResult_bind fun literal hread => .bind (keeps_renderOption _) fun text => ?_
  have hgroups := keysIn_namedGroups literal text.toList.toArray
  have hnames : groupNames pattern = literal.regex.names.map (·.1) := by rw [groupNames, hread]
  rw [← hnames] at hgroups
  exact .bind (spares_setNamed (List.subset_append_left ..) _) fun _ =>
    spares_setMany (hgroups.mono (List.subset_append_right ..))

theorem spares_filter (reference : String) (condition storeAs itemName : Value) :
    Keeps (SameBut (nameIn storeAs) s₀) (filter reference condition storeAs itemName) := by
  rw [filter]
  refine .bind (keeps_items _) fun values => .bind .context fun c => ?_
  exact .bind (.ofResult _) fun kept => spares_setNamed (List.Subset.refl _) _

theorem spares_map (reference : String) (template storeAs itemName : Value) :
    Keeps (SameBut (nameIn storeAs) s₀) (map reference template storeAs itemName) := by
  rw [map]
  refine .bind (keeps_items _) fun values => .bind .context fun c => ?_
  exact .bind (.ofResult _) fun mapped => spares_setNamed (List.Subset.refl _) _

theorem spares_build (name : String) (properties : Record) :
    Keeps (SameBut [name] s₀) (build name properties) := by
  rw [build]
  refine .bind .context fun c => .bind (.ofResult _) fun v => ?_
  exact spares_set (List.mem_singleton_self _) v

theorem spares_returnValue (value : Option String) :
    Keeps (SameBut names s₀) (returnValue value) := by
  have hend : Keeps (SameBut names s₀) (modifyContext fun c => { c with shouldReturn := true }) :=
    spares_modifyContext (fun _ => rfl) fun _ _ _ => rfl
  rw [returnValue]
  split
  · refine .bind (keeps_render _) fun text => .bind ?_ fun _ => hend
    exact spares_modifyContext (fun _ => rfl) fun _ _ _ => rfl
  · exact hend

theorem spares_delay (duration : String) : Keeps (SameBut names s₀) (delay duration) := by
  simp [delay]

theorem spares_logMessage (message : String) (level : LogLevel) :
    Keeps (SameBut names s₀) (logMessage message level) := by
  simp [logMessage]

theorem spares_notify (engine : Runner) (message : String) (durationMs : Int) :
    Keeps (SameBut names s₀) (notify engine message durationMs) := by
  rw [notify]
  refine .bind .context fun c => .bind (keeps_render _) fun text => ?_
  split <;> simp

theorem spares_taskAppend (editor : Editor) (step : TaskStep) :
    Keeps (SameBut names s₀) (taskAppend editor step) := by
  rw [taskAppend]
  split
  · exact .ite (.bind (.fail _) fun _ => by simp) (by simp)
  · exact .throw _

theorem spares_taskClear (editor : Editor) (step : TaskStep) :
    Keeps (SameBut names s₀) (taskClear editor step) := by
  rw [taskClear]
  exact .bind (.ofResult _) fun bullets => .ite (.bind (.fail _) fun _ => by simp) (by simp)

theorem spares_taskStatus (h : "task" ∈ names) (editor : Editor) (step : TaskStep) :
    Keeps (SameBut names s₀) (taskStatus editor step) := by
  rw [taskStatus]
  refine .ite (.bind (.fail _) fun _ => ?_) ?_
  all_goals
    refine .bind (spares_setStatus _ _) fun _ => .bind .get fun s => ?_
    split <;> simp [h]

theorem spares_task (engine : Runner) (step : TaskStep) :
    Keeps (SameBut (Step.task step).writes s₀) (task engine step) := by
  rw [task]
  refine .bind .get fun s => .ite (.bind (.fail _) fun _ => ?_) ?_
  all_goals
    refine .bind (keeps_require _ _) fun editor => ?_
    split
    · exact spares_taskClear editor step
    · exact spares_taskStatus (by simp [Step.writes, *]) editor step
    · exact spares_taskAppend editor step

theorem spares_runCommand (command folder : String) (timeout : Float) (limit : Nat) :
    Keeps (SameBut names s₀) (runCommand command folder timeout limit) := by
  rw [runCommand]
  refine .bind (.modifyGet fun _ h => { h with }) fun reply => ?_
  simp

theorem spares_transformItem (h : "line" ∈ names) (editor : Editor) (template : String)
    (mode : TransformMode) (children : List ChildTemplate) :
    Keeps (SameBut names s₀) (transformItem editor template mode children) := by
  have hwrite (own : Update) : Keeps (SameBut names s₀) (do
      let below ← itemChildren children
      updateItem editor { own with appendChildren := below }
      if template ≠ "" then setLine (((← get : Scene).item.map (·.text)).getD "")) := by
    refine .bind (keeps_itemChildren _) fun below => .bind (spares_updateItem _ _) fun _ => ?_
    exact .ite (.bind .get fun s => spares_setLine h _) (.pure _)
  rw [transformItem]
  refine .ite (hwrite _) (.bind (keeps_render _) fun text => ?_)
  exact .bind (.pure _) fun own => hwrite own

end Spares

/-- The acts that write a buffer keep what holds of the site of a run. -/
structure KeepsWriting (engine : Runner)
    (R : Option String → Option Buffer → Option Cursor → Prop) : Prop where
  insertBelow : ∀ bullet entries, Keeps (OnSite R) (insertBelow engine bullet entries)
  transformBuffer : ∀ buffer template mode children s, s.buffer = some buffer → OnSite R s →
    OnSite R ((transformBuffer engine buffer template mode children).run s).2

variable {engine : Runner}

section Blind

theorem keeps_addOutput (h : Blind [] P)
    (hinsert : ∀ bullet entries, Keeps P (insertBelow engine bullet entries)) (ls : List String) :
    Keeps P (addOutput engine ls) := by
  rw [addOutput]
  refine .ite (.pure _) (.bind .get fun s => ?_)
  split
  · exact .of_blind h fun _ => spares_updateItem _ _
  · exact .bind .get fun s => .ite (hinsert _ _) (.pure _)

theorem keeps_shell {command : String} {storeAs : Option Value} {timeoutMs : Option Int}
    (h : Blind (Step.shell command storeAs timeoutMs).writes P)
    (hinsert : ∀ bullet entries, Keeps P (insertBelow engine bullet entries)) :
    Keeps P (shell engine command storeAs timeoutMs) := by
  have hrun (command : String) : Keeps P (do
      ofResult (Shell.checkSandbox command)
      let folder ← commandFolder engine
      let timeout ← timeoutOf timeoutMs engine.settings.shell.timeout
      let output ← runCommand command folder timeout engine.settings.shell.maxOutput
      set "output" (.str output)
      storeIn storeAs (.str output)
      addOutput engine ((Text.boundaryLines output).filter (!Text.isBlankText ·))) := by
    refine .bind (.ofResult _) fun _ => .bind (keeps_commandFolder _) fun folder => ?_
    refine .bind (keeps_timeoutOf _ _) fun timeout => ?_
    refine .bind (.of_blind h fun _ => spares_runCommand _ _ _ _) fun output => ?_
    refine .bind (.of_blind h fun _ => spares_set (List.mem_cons_self ..) _) fun _ => ?_
    refine .bind (.of_blind h fun _ => spares_storeIn (List.subset_cons_self ..) _) fun _ => ?_
    exact keeps_addOutput (h.mono (List.nil_subset _)) hinsert _
  rw [shell]
  refine .ite (.bind (.fail _) fun _ => ?_) ?_
  · exact .bind .context fun c => .bind (.ofResult _) hrun
  · exact .bind .context fun c => .bind (.ofResult _) hrun

theorem keeps_append (h : Blind [] P)
    (hinsert : ∀ bullet entries, Keeps P (insertBelow engine bullet entries)) (template : String)
    (indent : Int) : Keeps P (append engine template indent) := by
  rw [append]
  refine .bind (keeps_render _) fun text => .bind .get fun s => .ite ?_ ?_
  · refine .bind (keeps_require _ _) fun editor => ?_
    exact .of_blind h fun _ => spares_updateItem _ _
  · exact .bind .get fun s => .ite (hinsert _ _) (.fail _)

theorem keeps_transform (hblind : Blind ["line"] P)
    (h : ∀ buffer template mode children s, s.buffer = some buffer → P s →
      P ((transformBuffer engine buffer template mode children).run s).2)
    (template : Option String) (mode : TransformMode) (children : List ChildTemplate) :
    Keeps P (transform engine template mode children) := by
  have hitem (editor : Editor) (template : String) :
      Keeps P (transformItem editor template mode children) :=
    .of_blind hblind fun _ => spares_transformItem (List.mem_singleton_self _) _ _ _ _
  intro s hs
  rw [transform, run_bind, run_get]
  dsimp only
  split
  · exact Keeps.bind (keeps_require _ _) (fun editor => hitem editor _) s hs
  · split
    · exact h _ _ _ _ s ‹_› hs
    · exact hs

/-- The steps that put lines below the cursor's line of a buffer. -/
def putsBelow : Step → Bool
  | .append .. | .shell .. => true
  | _ => false

/-- A property that does not look at what a step writes is kept by the step, if it is kept by the
acts that write a buffer. -/
theorem keeps_perform_of_blind : ∀ leaf : Step, Blind leaf.writes P →
    (putsBelow leaf = true → ∀ bullet entries, Keeps P (insertBelow engine bullet entries)) →
    ("line" ∈ leaf.writes → ∀ buffer template mode children s, s.buffer = some buffer → P s →
      P ((transformBuffer engine buffer template mode children).run s).2) →
    Keeps P (engine.perform leaf)
  | .read step, h, _, _ => .of_blind h fun _ => spares_read engine step
  | .file reference storeAs, h, _, _ => .of_blind h fun _ => spares_file engine reference storeAs
  | .fetch step, h, _, _ => .of_blind h fun _ => spares_fetch engine step
  | .shell .., h, hinsert, _ => keeps_shell h (hinsert rfl)
  | .transform template mode children, h, _, htransform =>
    keeps_transform h (htransform (List.mem_singleton_self _)) template mode children
  | .build name properties, h, _, _ => .of_blind h fun _ => spares_build name properties
  | .query identifier storeAs options, h, _, _ =>
    .of_blind h fun _ => spares_query engine identifier storeAs options
  | .set name value pattern source, h, _, _ =>
    .of_blind h fun _ => spares_setVariable name value pattern source
  | .match pattern source, h, _, _ => .of_blind h fun _ => spares_matchText pattern source
  | .extract pattern source storeAs, h, _, _ =>
    .of_blind h fun _ => spares_extract pattern source storeAs
  | .return value, h, _, _ => .of_blind h fun _ => spares_returnValue value
  | .append template indent, h, hinsert, _ => keeps_append h (hinsert rfl) template indent
  | .task step, h, _, _ => .of_blind h fun _ => spares_task engine step
  | .validate condition message, _, _, _ => keeps_validate condition message
  | .delay duration, h, _, _ => .of_blind h fun _ => spares_delay duration
  | .filter items condition storeAs itemName, h, _, _ =>
    .of_blind h fun _ => spares_filter items condition storeAs itemName
  | .map items template storeAs itemName, h, _, _ =>
    .of_blind h fun _ => spares_map items template storeAs itemName
  | .date mode source storeAs format, h, _, _ =>
    .of_blind h fun _ => spares_date engine mode source storeAs format
  | .log message level, h, _, _ => .of_blind h fun _ => spares_logMessage message level
  | .notify message durationMs, h, _, _ =>
    .of_blind h fun _ => spares_notify engine message durationMs

end Blind

/-- What holds of the site of a run is kept by the other steps if transforms of a buffer keep it. -/
theorem keeps_perform_of_not_putsBelow
    (h : ∀ buffer template mode children s, s.buffer = some buffer → OnSite R s →
      OnSite R ((transformBuffer engine buffer template mode children).run s).2)
    (leaf : Step) (hleaf : putsBelow leaf = false) : Keeps (OnSite R) (engine.perform leaf) :=
  keeps_perform_of_blind leaf (blind_onSite _) (fun hputs => by simp [hleaf] at hputs) fun _ => h

/-- What holds of the site of a run is kept by every step if the writing acts keep it. -/
theorem keeps_perform (h : KeepsWriting engine R) (leaf : Step) :
    Keeps (OnSite R) (engine.perform leaf) :=
  keeps_perform_of_blind leaf (blind_onSite _) (fun _ => h.insertBelow) fun _ => h.transformBuffer

end Act

end BulletScript.Engine
