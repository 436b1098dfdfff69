import BulletScript.Proofs.Documents.Link
import BulletScript.Proofs.Engine.Act
import BulletScript.Proofs.Script.Head
import BulletScript.Proofs.Template.Segments

/-! Documents read through a link. The link in the line of a run is looked up with heading and label,
while a link that a step names is looked up by its target alone. The two reads are alike if and only if
the store finds the same document for both texts. -/
namespace BulletScript.Engine

open Documents Script

/-- A step that reads the document which the line of the run links to. -/
def fromLine (step : ReadStep) : ReadStep := { step with source := .wikilink, reference := none }

/-- A step that reads the document which a text links to. -/
def fromText (step : ReadStep) (text : String) : ReadStep :=
  { step with source := .wikilink, reference := some (.str text) }

/-- The document that a step reads. -/
def Act.linked (store : Store) (step : ReadStep) : Act DocumentRef := do
  resolve store (← referenceOf step firstLink?)

/-- Two runs that end in the same way; an unresolved reference may be spelled in another way. -/
def EndsAlike {α : Type} (outcome outcome' : Result α × Scene) : Prop :=
  outcome = outcome' ∨ ∃ reference reference' s,
    outcome = (.error (.action (.unresolved reference)), s) ∧
      outcome' = (.error (.action (.unresolved reference')), s)

/-- What a store finds for a reference, seen from the document of a run. -/
def found (store : Store) (s : Scene) (reference : String) : Result (Option DocumentRef) :=
  store.resolve s.world.tree reference (s.context.document.map (·.path))

/-- The outcome of a look-up: a reference for which nothing is found is unresolved. -/
def lookedUp (reference : String) : Result (Option DocumentRef) → Result DocumentRef
  | .ok (some document) => .ok document
  | .ok none => .error (.action (.unresolved reference))
  | .error failure => .error failure

section Resolving

variable {store : Store} {s : Scene} {reference reference' : String} {step : ReadStep}

theorem EndsAlike.bind {α β : Type} {m m' : Act α} (h : EndsAlike (m.run s) (m'.run s)) (k : α → Act β) :
    EndsAlike ((m >>= k).run s) ((m' >>= k).run s) := by
  rw [Act.run_bind, Act.run_bind]
  rcases h with h | ⟨reference, reference', s', h, h'⟩
  · exact .inl (by rw [h])
  · rw [h, h']
    exact .inr ⟨reference, reference', s', rfl, rfl⟩

/-- Only what a reference names is looked up. -/
theorem found_congr (h : linkTarget reference = linkTarget reference') :
    found store s reference = found store s reference' := by
  rw [found, found, Store.resolve, Store.resolve, h]

/-- A text that is no well-formed address is a fault of its own kind. -/
theorem exists_internal_of_isWebUrl {text : String} {failure : Failure}
    (h : Web.isWebUrl text = .error failure) : ∃ fault, failure = .internal fault := by
  cases hurl : Web.Url.ofText text with
  | ok url =>
    rw [Web.isWebUrl, hurl] at h
    nomatch h
  | error failure' =>
    rw [Web.isWebUrl, hurl] at h
    obtain rfl := Except.error.inj h
    rw [Web.Url.ofText] at hurl
    generalize Web.cutScheme _ = cut at hurl
    dsimp only at hurl
    split at hurl
    · exact ⟨_, (Except.error.inj hurl).symm⟩
    · nomatch hurl

/-- A look-up fails only where it cannot be told whether the target is an address. -/
theorem isWebUrl_of_found_error {failure : Failure} (h : found store s reference = .error failure) :
    Web.isWebUrl (linkTarget reference) = .error failure := by
  rw [found, Store.resolve] at h
  dsimp only at h
  split at h
  · nomatch h
  · generalize Web.isWebUrl (linkTarget reference) = url at h ⊢
    rcases url with failure' | _ | _
    · exact congrArg _ (Except.error.inj h)
    · simp only [bind, Except.bind, Bool.false_eq_true, if_false] at h
      generalize List.find? _ _ = path at h
      cases path <;> nomatch h
    · nomatch h

theorem run_resolve (store : Store) (reference : String) (s : Scene) :
    (Act.resolve store reference).run s = (lookedUp reference (found store s reference), s) := by
  have hfound : store.resolve s.world.tree reference (s.context.document.map (·.path)) =
    found store s reference := rfl
  simp only [Act.resolve, Act.withTree, Act.run_bind, Act.run_context, Act.run_get, Act.run_ofResult,
    hfound]
  rcases found store s reference with failure | _ | document <;> rfl

theorem found_ne_action {fault : ActionFault} :
    found store s reference ≠ .error (.action fault) := by
  intro h
  obtain ⟨_, hinternal⟩ := exists_internal_of_isWebUrl (isWebUrl_of_found_error h)
  nomatch hinternal

variable {r r' : Result (Option DocumentRef)} {fault : ActionFault}

/-- A look-up ends as a failed action only where nothing is found. -/
theorem eq_none_of_lookedUp (hr : ∀ fault, r ≠ .error (.action fault))
    (h : lookedUp reference r = .error (.action fault)) : r = .ok none := by
  rcases r with failure | _ | document
  · exact absurd (congrArg Except.error (Except.error.inj h)) (hr fault)
  · rfl
  · nomatch h

/-- The outcomes of two look-ups are alike only if these find the same. -/
theorem endsAlike_lookedUp_iff (hr : ∀ fault, r ≠ .error (.action fault))
    (hr' : ∀ fault, r' ≠ .error (.action fault)) :
    EndsAlike (lookedUp reference r, s) (lookedUp reference' r', s) ↔ r = r' := by
  constructor
  · rintro (hsame | ⟨unknown, unknown', s', h, h'⟩)
    · have hsame : lookedUp reference r = lookedUp reference' r' := congrArg Prod.fst hsame
      rcases r with failure | _ | document
      · rcases r' with failure' | _ | document'
        · exact congrArg _ (Except.error.inj hsame)
        · exact absurd (congrArg Except.error (Except.error.inj hsame)) (hr _)
        · nomatch hsame
      · exact (eq_none_of_lookedUp hr' hsame.symm).symm
      · rcases r' with failure' | _ | document'
        · nomatch hsame
        · nomatch hsame
        · exact congrArg (Except.ok ∘ some) (Except.ok.inj hsame)
    · exact (eq_none_of_lookedUp hr (congrArg Prod.fst h)).trans
        (eq_none_of_lookedUp hr' (congrArg Prod.fst h')).symm
  · rintro rfl
    rcases r with failure | _ | document
    · exact .inl rfl
    · exact .inr ⟨reference, reference', s, rfl, rfl⟩
    · exact .inl rfl

end Resolving

section Reading

variable {engine : Runner} {store : Store} {s : Scene} {step : ReadStep} {l : Wikilink}

/-- What stands between the brackets of the first link in the line is looked up as it is. -/
theorem run_linked_fromLine (h : IsFirstLink s.context.line l.inner) :
    (Act.linked store (fromLine step)).run s = (lookedUp l.inner (found store s l.inner), s) := by
  have hreference : (Act.referenceOf (fromLine step) firstLink?).run s = (.ok l.inner, s) := by
    simp only [Act.referenceOf, fromLine, Option.filter_none, Act.run_bind, Act.run_context,
      firstLink?_eq_some_iff.2 h, Act.run_pure]
  rw [Act.linked, Act.run_bind, hreference]
  exact run_resolve store l.inner s

/-- A link that a step names is the text that is looked up, with its brackets. -/
theorem run_linked_fromText :
    (Act.linked store (fromText step l.text)).run s = (lookedUp l.text (found store s l.text), s) := by
  have hreference : (Act.referenceOf (fromText step l.text) firstLink?).run s = (.ok l.text, s) := by
    have hgiven : (some (Value.str l.text)).filter Value.isSome = some (.str l.text) := by
      have hne : l.text ≠ "" := by simp [Wikilink.text]
      simp [Value.isSome, hne]
    have hopen : '\x7b' ∉ l.text.toList := l.not_mem_text (by decide) (by decide) (by decide)
    have hclean : Template.clean l.text = l.text := by
      have hclean := clean_of_unquoted (l.not_mem_text (c := '\x60') (by decide) (by decide) (by decide))
      rw [String.ofList_toList] at hclean
      exact hclean.trans l.trim_text
    have hrender : Template.interpolate l.text s.context.vars = .ok l.text :=
      Template.interpolateWith_of_none (Text.cutChars_double_of_not_mem hopen)
    simp only [Act.referenceOf, fromText, hgiven, Act.renderOption, Act.render, Act.templateOf,
      Act.run_bind, Act.run_ofResult, Act.run_context, hrender, Act.run_pure, hclean]
  rw [Act.linked, Act.run_bind, hreference]
  exact run_resolve store l.text s

/-- The text of a document that was found, as the step wants it. -/
def Act.linkedText (store : Store) (step : ReadStep) (target : DocumentRef) : Act String := do
  let text ← withTree fun tree => store.read tree target.path
  setNamed step.fileAs (.map target.toRecord)
  if step.stripFrontmatter || step.includeFrontmatter then
    let (head, body) ← ofResult (splitFrontmatter text)
    if step.includeFrontmatter then setNamed step.frontmatterAs (.map head)
    return if step.stripFrontmatter then dropNewlines body else text
  else return text

/-- A document is read once it is known which one; nothing else depends on what names it. -/
theorem readLink_eq (hstore : engine.documents = some store) (step : ReadStep) :
    Act.readLink engine step = Act.linked store step >>= Act.linkedText store step := by
  simp only [Act.readLink, Act.store, Act.require, hstore, pure_bind, Act.linked, bind_assoc]
  rfl

theorem endsAlike_read (hstore : engine.documents = some store) {reference reference' : Option Value}
    (h : EndsAlike ((Act.linked store { step with source := .wikilink, reference }).run s)
      ((Act.linked store { step with source := .wikilink, reference := reference' }).run s)) :
    EndsAlike ((Act.read engine { step with source := .wikilink, reference }).run s)
      ((Act.read engine { step with source := .wikilink, reference := reference' }).run s) := by
  refine EndsAlike.bind ?_ _
  simp only [Act.readSource, readLink_eq hstore]
  exact h.bind _

/-- A read through the first link of the line. The document that the same read loads when it names the
link itself is the one that the store finds for the target. The two load the same document, or fail
in the same way, if and only if the store finds that document also for all that stands between the
brackets, as it does where that is the target alone; then the whole reads end alike. -/
theorem link_read_iff (hstore : engine.documents = some store)
    (hline : IsFirstLink s.context.line l.inner) :
    (Act.linked store (fromText step l.text)).run s =
        (lookedUp l.text (found store s l.target), s) ∧
      (EndsAlike ((Act.linked store (fromLine step)).run s)
          ((Act.linked store (fromText step l.text)).run s) ↔
        found store s l.inner = found store s l.target) ∧
      (l.details = "" → found store s l.inner = found store s l.target) ∧
      (found store s l.inner = found store s l.target →
        EndsAlike ((Act.read engine (fromLine step)).run s)
          ((Act.read engine (fromText step l.text)).run s)) := by
  have htarget : found store s l.text = found store s l.target := by
    refine found_congr (l.linkTarget_text.trans (linkTarget_plain fun c hc => ?_).symm)
    exact (l.target_chars c hc).1
  have htext : (Act.linked store (fromText step l.text)).run s = _ :=
    run_linked_fromText
  rw [htarget] at htext
  have hiff : EndsAlike ((Act.linked store (fromLine step)).run s)
      ((Act.linked store (fromText step l.text)).run s) ↔
        found store s l.inner = found store s l.target := by
    rw [run_linked_fromLine hline, htext]
    exact endsAlike_lookedUp_iff (fun _ => found_ne_action) fun _ => found_ne_action
  refine ⟨htext, hiff, fun hbare => ?_, fun hfound => endsAlike_read hstore (hiff.2 hfound)⟩
  rw [Wikilink.inner, hbare, String.append_empty]

end Reading

/-- A link to a document called Plan, shown with a label. -/
def planLink (label : String) (h : label.toList.all isLinkChar) : Wikilink where
  target := "Plan"
  label := some label
  target_chars := by simp [isLinkChar]
  heading_chars := by simp
  label_chars := by simpa using h

def seaTree : Files.Tree :=
  { root := "/", files := [(["Plan.md"], .text "P\n"), (["Sea.md"], .text "S\n")] }

/-- A run in a line, among two documents. -/
def seaScene (line : String) : Scene := { world := { tree := seaTree }, context := { line } }

def seaRunner : Runner :=
  { settings := { documentRoot := "/" }, documents := some {}, now := ⟨⟨2000, 1, 1⟩, none, none⟩ }

theorem files_seaTree : Store.files {} seaTree = ["Plan.md", "Sea.md"] := by
  have hplaces : seaTree.places = [["Plan.md"], ["Sea.md"]] :=
    List.mergeSort_of_pairwise (by decide)
  rw [Store.files, hplaces]
  decide +kernel

/-- A label that ends like the path of the target does no harm. -/
theorem link_read_iff_same :
    IsFirstLink "See [[Plan|the/Plan]]" (planLink "the/Plan" (by decide)).inner ∧
      EndsAlike
        ((Act.read seaRunner (fromLine { pattern := "" })).run (seaScene "See [[Plan|the/Plan]]"))
        ((Act.read seaRunner (fromText { pattern := "" } "[[Plan|the/Plan]]")).run
          (seaScene "See [[Plan|the/Plan]]")) := by
  have hline : IsFirstLink "See [[Plan|the/Plan]]" (planLink "the/Plan" (by decide)).inner :=
    firstLink?_eq_some_iff.1 (by decide +kernel)
  have hfound : found {} (seaScene "See [[Plan|the/Plan]]") "Plan|the/Plan" =
      found {} (seaScene "See [[Plan|the/Plan]]") "Plan" := by
    simp only [found, Store.resolve, seaScene, files_seaTree]
    decide +kernel
  exact ⟨hline, (@link_read_iff seaRunner {} (seaScene "See [[Plan|the/Plan]]") { pattern := "" }
    (planLink "the/Plan" (by decide)) rfl hline).2.2.2 hfound⟩

/-- A label that ends like the path of another document makes that document the one that is read. -/
theorem line_link_reads_other :
    IsFirstLink "See [[Plan|to the/Sea]]" (planLink "to the/Sea" (by decide)).inner ∧
      (Act.linked {} (fromText { pattern := "" } "[[Plan|to the/Sea]]")).run
        (seaScene "See [[Plan|to the/Sea]]") =
          (.ok (.ofPath "Plan.md"), seaScene "See [[Plan|to the/Sea]]") ∧
      (Act.linked {} (fromLine { pattern := "" })).run (seaScene "See [[Plan|to the/Sea]]") =
          (.ok (.ofPath "Sea.md"), seaScene "See [[Plan|to the/Sea]]") ∧
      ¬ EndsAlike
        ((Act.linked {} (fromLine { pattern := "" })).run (seaScene "See [[Plan|to the/Sea]]"))
        ((Act.linked {} (fromText { pattern := "" } "[[Plan|to the/Sea]]")).run
          (seaScene "See [[Plan|to the/Sea]]")) := by
  have hline : IsFirstLink "See [[Plan|to the/Sea]]" (planLink "to the/Sea" (by decide)).inner :=
    firstLink?_eq_some_iff.1 (by decide +kernel)
  have hplan : found {} (seaScene "See [[Plan|to the/Sea]]")
      (planLink "to the/Sea" (by decide)).text = .ok (some (.ofPath "Plan.md")) := by
    simp only [found, Store.resolve, seaScene, files_seaTree]
    decide +kernel
  have hsea : found {} (seaScene "See [[Plan|to the/Sea]]")
      (planLink "to the/Sea" (by decide)).inner = .ok (some (.ofPath "Sea.md")) := by
    simp only [found, Store.resolve, seaScene, files_seaTree]
    decide +kernel
  have htext : (Act.linked {} (fromText { pattern := "" } "[[Plan|to the/Sea]]")).run
      (seaScene "See [[Plan|to the/Sea]]") = _ :=
    @run_linked_fromText {} _ { pattern := "" } (planLink "to the/Sea" (by decide))
  have hfirst : (Act.linked {} (fromLine { pattern := "" })).run
      (seaScene "See [[Plan|to the/Sea]]") = _ := run_linked_fromLine hline
  rw [hplan, lookedUp] at htext
  rw [hsea, lookedUp] at hfirst
  refine ⟨hline, htext, hfirst, ?_⟩
  rw [htext, hfirst]
  rintro (hsame | ⟨_, _, _, hfailed, -⟩)
  · have hpaths := Except.ok.inj (congrArg Prod.fst hsame)
    exact absurd hpaths (by decide +kernel)
  · nomatch congrArg Prod.fst hfailed

end BulletScript.Engine
