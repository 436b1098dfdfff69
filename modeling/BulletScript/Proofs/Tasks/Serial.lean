import BulletScript.Proofs.Tasks.Shared

/-! What calls leave behind that run at the same time: at any point it is what they leave when each
runs alone at its turn, but for what those that hold their locks will still do. -/
namespace BulletScript.Tasks

open Text Outline Files

variable {ι κ : Type}

variable {editor : Editor} {calls : κ → Call ι} {start σ σ' : Shared ι κ} {b b' : Serial ι κ}
  {c d : κ} {event : Event} {events : List (κ × Event)} {job : Job} {phase : Phase}

/-- A call that holds its lock will end as it did when it ran alone at its turn. -/
structure Settles (editor : Editor) (calls : κ → Call ι) (σ : Shared ι κ) (b : Serial ι κ) (c : κ)
    (job : Job) (phase : Phase) : Prop where
  carries : (calls c).request.job = .ok job
  holds : σ.holder (σ.path calls c) = some c
  sound : (σ.visit calls c phase).Sound editor
  outcome : ∃ result, ((σ.visit calls c phase).run editor job).1.phase = .ended result ∧
    b.outcome c = some result
  item : b.items (calls c).item = ((σ.visit calls c phase).run editor job).1.item
  file : ∀ q, (σ.visit calls c phase).place editor = .ok q →
    b.tree.file? q = ((σ.visit calls c phase).run editor job).1.tree.file? q

/-- Where calls are that run at the same time, and where the same calls are if each ran alone at
its turn: they differ in the items and documents of calls that hold their locks, and there only in
what these calls will still do. -/
structure Follows (editor : Editor) (calls : κ → Call ι) (start σ : Shared ι κ) (b : Serial ι κ) :
    Prop where
  grounded : σ.tree.Grounded
  since : start.tree.Alike σ.tree
  serial : σ.tree.Alike b.tree
  path : ∀ i, (σ.items i).path = (start.items i).path
  holder : ∀ path c, σ.holder path = some c → σ.Visits c ∧ path = σ.path calls c
  visiting : ∀ c job phase, σ.stage c = .visiting job phase → Settles editor calls σ b c job phase
  finished : ∀ c result, σ.stage c = .finished result → b.outcome c = some result
  item : ∀ i, (∀ c, σ.Visits c → (calls c).item ≠ i) → b.items i = σ.items i
  file : ∀ q, (∀ c, σ.Visits c → editor.store.place σ.tree (σ.path calls c) ≠ .ok q) →
    b.tree.file? q = σ.tree.file? q

/-- A call that still holds its lock, and still finds the same, settles as before. -/
theorem Settles.of_similar (h : Settles editor calls σ b c job phase) (ht : σ.tree.Grounded)
    (hsimilar : (σ.visit calls c phase).Similar editor (σ'.visit calls c phase))
    (hholds : σ'.holder (σ'.path calls c) = some c) (houtcome : b'.outcome c = b.outcome c)
    (hitem : b'.items (calls c).item = b.items (calls c).item)
    (hfile : ∀ q, (σ.visit calls c phase).place editor = .ok q → b'.tree.file? q = b.tree.file? q) :
    Settles editor calls σ' b' c job phase := by
  have hrun := @Visit.Similar.run editor job _ _ hsimilar
  obtain ⟨result, hended, hresult⟩ := h.outcome
  refine ⟨h.carries, hholds, hsimilar.sound h.sound, ⟨result, hrun.phase.trans hended,
    houtcome.trans hresult⟩, hitem.trans (h.item.trans hrun.item.symm), fun q hq => ?_⟩
  rw [hsimilar.place] at hq
  rw [hfile q hq, h.file q hq, hrun.file q ((Visit.run_leads job h.sound ht).place.trans hq)]

/-- While a call holds its lock, no other call on its path has it. -/
theorem Settles.path_ne (hd : Settles editor calls σ b d job phase)
    (hc : σ.holder (σ.path calls c) = none ∨ σ.holder (σ.path calls c) = some c) (hne : d ≠ c) :
    σ.path calls d ≠ σ.path calls c := by
  intro hpath
  rw [← hpath, hd.holds] at hc
  rcases hc with hc | hc
  · cases hc
  · exact hne (Option.some.inj hc)

namespace Follows

/-- Calls on items with different paths do not meet in a document. -/
theorem place_ne (h : Follows editor calls start σ b) (hinitial : start.Initial editor)
    (hpath : σ.path calls d ≠ σ.path calls c) {q : Place}
    (hq : editor.store.place σ.tree (σ.path calls d) = .ok q) :
    editor.store.place σ.tree (σ.path calls c) ≠ .ok q := by
  intro hq'
  rw [Documents.Store.place_congr h.since, Shared.path, h.path] at hq hq'
  refine hpath ?_
  rw [Shared.path, Shared.path, h.path, h.path]
  exact hinitial.onePath _ _ q hq hq'

end Follows

section Steps

variable [DecidableEq ι] [DecidableEq κ]

namespace Follows

theorem refuse {failure : Failure} (h : Follows editor calls start σ b)
    (hjob : (calls c).request.job = .error failure) (hstage : σ.stage c = .waiting) :
    Follows editor calls start (σ.refuse c failure) (b.perform editor calls c) := by
  rw [Serial.perform_of_refused hjob]
  have hself : (σ.refuse c failure).stage c = .finished (.error failure) := Function.update_self ..
  have hother (d : κ) (hd : d ≠ c) : (σ.refuse c failure).stage d = σ.stage d :=
    Function.update_of_ne hd _ _
  have hvisits (d : κ) (hd : σ.Visits d) : d ≠ c := by
    rintro rfl
    obtain ⟨job, phase, hd⟩ := hd
    rw [hstage] at hd
    cases hd
  refine ⟨h.grounded, h.since, h.serial, h.path, ?holder, ?visiting, ?finished, ?item, ?file⟩
  case holder =>
    intro path d hd
    obtain ⟨hd, hpath⟩ := h.holder path d hd
    exact ⟨hd.of_stage (hother d (hvisits d hd)), hpath⟩
  case visiting =>
    intro d job phase hd
    have hne : d ≠ c := by
      rintro rfl
      rw [hself] at hd
      cases hd
    have hsettles := h.visiting d job phase (hother d hne ▸ hd)
    exact hsettles.of_similar h.grounded (.refl hsettles.sound) hsettles.holds
      (Function.update_of_ne hne ..) rfl fun _ _ => rfl
  case finished =>
    intro d result hd
    by_cases hne : d = c
    · subst hne
      rw [hself, Stage.finished.injEq] at hd
      exact hd ▸ Function.update_self ..
    · exact (Function.update_of_ne hne ..).trans (h.finished d result (hother d hne ▸ hd))
  case item => exact fun i hi => h.item i fun d hd => hi d (hd.of_stage (hother d (hvisits d hd)))
  case file => exact fun q hq => h.file q fun d hd => hq d (hd.of_stage (hother d (hvisits d hd)))

theorem acquire (h : Follows editor calls start σ b) (hinitial : start.Initial editor)
    (hjob : (calls c).request.job = .ok job) (hstage : σ.stage c = .waiting)
    (hfree : σ.holder (σ.path calls c) = none) :
    Follows editor calls start (σ.acquire calls c job) (b.perform editor calls c) := by
  have hself : (σ.acquire calls c job).stage c = .visiting job .started := Function.update_self ..
  have hown : (σ.acquire calls c job).holder (σ.path calls c) = some c := Function.update_self ..
  have hother (d : κ) (hd : d ≠ c) : (σ.acquire calls c job).stage d = σ.stage d :=
    Function.update_of_ne hd _ _
  have hvisits (d : κ) (hd : σ.Visits d) : d ≠ c ∧ σ.path calls d ≠ σ.path calls c := by
    obtain ⟨job', phase, hd⟩ := hd
    have hne : d ≠ c := by
      rintro rfl
      rw [hstage] at hd
      cases hd
    exact ⟨hne, (h.visiting d job' phase hd).path_ne (.inl hfree) hne⟩
  -- Nobody holds the lock, so the call finds what it finds when it runs alone.
  have hsound : (σ.visit calls c .started).Sound editor := ⟨nofun, trivial⟩
  have hsimilar : (σ.visit calls c .started).Similar editor
      (.start b.tree (b.items (calls c).item)) :=
    ⟨trivial, rfl, h.item _ fun d hd => Shared.item_ne (hvisits d hd).2, h.serial,
      fun q hq => h.file q fun d hd hq' => h.place_ne hinitial (hvisits d hd).2 hq' hq⟩
  have hplace : (Visit.start b.tree (b.items (calls c).item)).place editor =
      editor.store.place σ.tree (σ.path calls c) := hsimilar.place
  have hrun := @Visit.Similar.run editor job _ _ hsimilar
  have hleads := Visit.run_leads job (hsimilar.sound hsound) (h.grounded.of_alike h.serial)
  obtain ⟨result, hended, hperform⟩ := @Serial.perform_of_job _ _ editor calls b c job _ _ hjob
  rw [hperform]
  refine ⟨h.grounded, h.since, h.serial.trans hleads.alike, h.path, ?holder, ?visiting, ?finished,
    ?item, ?file⟩
  case holder =>
    intro path d hd
    by_cases hpath : path = σ.path calls c
    · rw [hpath, hown] at hd
      obtain rfl := Option.some.inj hd
      exact ⟨⟨job, .started, hself⟩, hpath⟩
    · obtain ⟨hd, hpath⟩ := h.holder path d ((Function.update_of_ne hpath ..).symm.trans hd)
      exact ⟨hd.of_stage (hother d (hvisits d hd).1), hpath⟩
  case visiting =>
    intro d job' phase hd
    by_cases hne : d = c
    · subst hne
      rw [hself, Stage.visiting.injEq] at hd
      obtain ⟨rfl, rfl⟩ := hd
      refine ⟨hjob, hown, hsound, ⟨result, hrun.phase.symm.trans hended,
        Function.update_self ..⟩, (Function.update_self ..).trans hrun.item, fun q hq => ?_⟩
      exact hrun.file q ((Visit.run_leads job hsound h.grounded).place.trans hq)
    · have hsettles := h.visiting d job' phase (hother d hne ▸ hd)
      have hpath : σ.path calls d ≠ σ.path calls c := hsettles.path_ne (.inl hfree) hne
      refine hsettles.of_similar h.grounded (.refl hsettles.sound)
        ((Function.update_of_ne hpath ..).trans hsettles.holds) (Function.update_of_ne hne ..)
        (Function.update_of_ne (Shared.item_ne hpath) ..) fun q hq => hleads.others q ?_
      rw [hplace]
      exact h.place_ne hinitial hpath hq
  case finished =>
    intro d result hd
    have hne : d ≠ c := by
      rintro rfl
      rw [hself] at hd
      cases hd
    exact (Function.update_of_ne hne ..).trans (h.finished d result (hother d hne ▸ hd))
  case item =>
    intro i hi
    have hne : i ≠ (calls c).item := fun heq => hi c ⟨job, .started, hself⟩ heq.symm
    exact (Function.update_of_ne hne ..).trans
      (h.item i fun d hd => hi d (hd.of_stage (hother d (hvisits d hd).1)))
  case file =>
    intro q hq
    refine (hleads.others q ?_).trans
      (h.file q fun d hd => hq d (hd.of_stage (hother d (hvisits d hd).1)))
    rw [hplace]
    exact hq c ⟨job, .started, hself⟩

/-- A call that comes further towards the same end changes nothing for the others. -/
theorem advance {w : Visit} (h : Follows editor calls start σ b) (hinitial : start.Initial editor)
    (hstage : σ.stage c = .visiting job phase)
    (hleads : (σ.visit calls c phase).Leads editor w) (hsound : w.Sound editor)
    (hrun : (w.run editor job).1 = ((σ.visit calls c phase).run editor job).1) :
    Follows editor calls start (σ.advance calls c job w) b := by
  have hself : (σ.advance calls c job w).stage c = .visiting job w.phase := Function.update_self ..
  have hother (d : κ) (hd : d ≠ c) : (σ.advance calls c job w).stage d = σ.stage d :=
    Function.update_of_ne hd _ _
  have hvisits (d : κ) (hd : σ.Visits d) : (σ.advance calls c job w).Visits d := by
    by_cases hne : d = c
    · exact ⟨job, w.phase, hne ▸ hself⟩
    · exact hd.of_stage (hother d hne)
  have hc : Settles editor calls σ b c job phase := h.visiting c job phase hstage
  have hpath (i : ι) : ((σ.advance calls c job w).items i).path = (σ.items i).path :=
    Shared.path_advance hleads.path i
  have hplace (path : String) : editor.store.place w.tree path = editor.store.place σ.tree path :=
    Documents.Store.place_congr hleads.alike
  have hvisit : (σ.advance calls c job w).visit calls c w.phase = w := by
    change Visit.mk w.phase w.tree (Function.update σ.items (calls c).item w.item _) = w
    rw [Function.update_self]
  refine ⟨h.grounded.of_alike hleads.alike, h.since.trans hleads.alike,
    hleads.alike.symm.trans h.serial, fun i => (hpath i).trans (h.path i), ?holder, ?visiting,
    ?finished, ?item, ?file⟩
  case holder =>
    intro path d hd
    obtain ⟨hd, hpath'⟩ := h.holder path d hd
    exact ⟨hvisits d hd, hpath'.trans (hpath _).symm⟩
  case visiting =>
    intro d job' phase' hd
    by_cases hne : d = c
    · subst hne
      rw [hself, Stage.visiting.injEq] at hd
      obtain ⟨rfl, rfl⟩ := hd
      refine ⟨hc.carries, (congrArg σ.holder (hpath _)).trans hc.holds, ?_, ?_, ?_,
        fun q hq => ?_⟩
      · rwa [hvisit]
      · rw [hvisit, hrun]
        exact hc.outcome
      · rw [hvisit, hrun]
        exact hc.item
      · rw [hvisit] at hq ⊢
        rw [hrun]
        exact hc.file q (hleads.place.symm.trans hq)
    · have hd' : Settles editor calls σ b d job' phase' := h.visiting d job' phase' (hother d hne ▸ hd)
      have hpath' : σ.path calls d ≠ σ.path calls c := hd'.path_ne (.inr hc.holds) hne
      refine hd'.of_similar h.grounded ⟨hd'.sound.keepsPath, rfl,
        Function.update_of_ne (Shared.item_ne hpath') .., hleads.alike, fun q hq => ?_⟩
        ((congrArg σ.holder (hpath _)).trans hd'.holds) rfl rfl fun _ _ => rfl
      exact hleads.others q (h.place_ne hinitial hpath' hq)
  case finished =>
    intro d result hd
    have hne : d ≠ c := by
      rintro rfl
      rw [hself] at hd
      cases hd
    exact h.finished d result (hother d hne ▸ hd)
  case item =>
    intro i hi
    have hne : i ≠ (calls c).item := fun heq => hi c ⟨job, w.phase, hself⟩ heq.symm
    exact (h.item i fun d hd => hi d (hvisits d hd)).trans (Function.update_of_ne hne ..).symm
  case file =>
    intro q hq
    have hothers (d : κ) (hd : σ.Visits d) : editor.store.place σ.tree (σ.path calls d) ≠ .ok q := by
      rw [← hplace, Shared.path, ← hpath]
      exact hq d (hvisits d hd)
    rw [h.file q hothers]
    exact (hleads.others q (hothers c ⟨job, phase, hstage⟩)).symm

theorem release {result : Result Unit} (h : Follows editor calls start σ b)
    (hstage : σ.stage c = .visiting job (.ended result)) :
    Follows editor calls start (σ.release c result) b := by
  have hself : (σ.release c result).stage c = .finished result := Function.update_self ..
  have hother (d : κ) (hd : d ≠ c) : (σ.release c result).stage d = σ.stage d :=
    Function.update_of_ne hd _ _
  have hholder {path : String} {d : κ} :
      (σ.release c result).holder path = some d ↔ σ.holder path = some d ∧ d ≠ c := by
    simp only [Shared.release]
    split
    · rename_i hpath
      simp only [reduceCtorEq, hpath, Option.some.injEq, false_iff, not_and, not_not]
      exact Eq.symm
    · rename_i hpath
      exact ⟨fun hd => ⟨hd, fun heq => hpath (heq ▸ hd)⟩, And.left⟩
  have hvisits (d : κ) (hd : σ.Visits d) (hne : d ≠ c) : (σ.release c result).Visits d :=
    hd.of_stage (hother d hne)
  have hstages (d : κ) {job' : Job} {phase : Phase}
      (hd : (σ.release c result).stage d = .visiting job' phase) :
      d ≠ c ∧ σ.stage d = .visiting job' phase := by
    have hne : d ≠ c := by
      rintro rfl
      rw [hself] at hd
      cases hd
    exact ⟨hne, hother d hne ▸ hd⟩
  -- The call has done all it does, so that its item and its document are those of the serial run.
  have hc : Settles editor calls σ b c job (.ended result) := h.visiting c job _ hstage
  have hrun : ((σ.visit calls c (.ended result)).run editor job).1 =
      σ.visit calls c (.ended result) := by
    rw [Visit.run_of_ended rfl]
  refine ⟨h.grounded, h.since, h.serial, h.path, ?holder, ?visiting, ?finished, ?item, ?file⟩
  case holder =>
    intro path d hd
    obtain ⟨hd, hne⟩ := hholder.1 hd
    obtain ⟨hd, hpath⟩ := h.holder path d hd
    exact ⟨hvisits d hd hne, hpath⟩
  case visiting =>
    intro d job' phase hd
    obtain ⟨hne, hd⟩ := hstages d hd
    have hsettles : Settles editor calls σ b d job' phase := h.visiting d job' phase hd
    exact hsettles.of_similar h.grounded (.refl hsettles.sound) (hholder.2 ⟨hsettles.holds, hne⟩)
      rfl rfl fun _ _ => rfl
  case finished =>
    intro d result' hd
    by_cases hne : d = c
    · subst hne
      rw [hself, Stage.finished.injEq] at hd
      obtain ⟨result'', hended, hresult⟩ := hc.outcome
      rw [hrun, Shared.visit, Phase.ended.injEq] at hended
      rw [hresult, ← hended, hd]
    · exact h.finished d result' (hother d hne ▸ hd)
  case item =>
    intro i hi
    by_cases hitem : (calls c).item = i
    · subst hitem
      rw [hc.item, hrun]
      rfl
    · refine h.item i fun d hd => ?_
      by_cases hne : d = c
      · exact hne ▸ hitem
      · exact hi d (hvisits d hd hne)
  case file =>
    intro q hq
    by_cases hplace : editor.store.place σ.tree (σ.path calls c) = .ok q
    · rw [hc.file q hplace, hrun]
      rfl
    · refine h.file q fun d hd => ?_
      by_cases hne : d = c
      · exact hne ▸ hplace
      · exact hq d (hvisits d hd hne)

/-- At the beginning nothing has been done by anyone. -/
theorem initial (hinitial : start.Initial editor) :
    Follows editor calls start start (serially editor calls start []) := by
  refine ⟨hinitial.grounded, .refl _, .refl _, fun _ => rfl, ?holder, ?visiting, ?finished,
    fun _ _ => rfl, fun _ _ => rfl⟩
  case holder =>
    intro path d hd
    rw [hinitial.free] at hd
    cases hd
  case visiting =>
    intro d job phase hd
    rw [hinitial.waiting] at hd
    cases hd
  case finished =>
    intro d result hd
    rw [hinitial.waiting] at hd
    cases hd

/-- A step of one of the calls. -/
theorem step (h : Follows editor calls start σ b) (hinitial : start.Initial editor)
    (hstep : σ.step? editor calls c = some (event, σ')) :
    Follows editor calls start σ' (if event.isTurn then b.perform editor calls c else b) := by
  obtain ⟨failure, hstage, hjob, rfl, rfl⟩ | ⟨job, hstage, hjob, hfree, rfl, rfl⟩ |
    ⟨job, phase, hstage, -, rfl, rfl⟩ | ⟨job, result, hstage, rfl, rfl⟩ := Shared.step_cases hstep
  · exact h.refuse hjob hstage
  · exact h.acquire hinitial hjob hstage hfree
  · obtain ⟨hleads, hsound⟩ := Visit.next_leads job (h.visiting c job phase hstage).sound h.grounded
    refine h.advance hinitial hstage hleads hsound ?_
    rw [(σ.visit calls c phase).run_eq]
  · exact h.release hstage

/-- Steps of calls in any order. -/
theorem run (hinitial : start.Initial editor) (hrun : Run editor calls start events σ) :
    Follows editor calls start σ (serially editor calls start (turns events)) := by
  induction hrun with
  | nil => exact initial hinitial
  | @snoc events σ σ' c event hrun hstep ih =>
    have hturns : serially editor calls start (turns (events ++ [(c, event)])) =
        if event.isTurn then (serially editor calls start (turns events)).perform editor calls c
        else serially editor calls start (turns events) := by
      rw [turns, List.filter_append, List.map_append, serially, List.foldl_append]
      cases event <;> rfl
    rw [hturns]
    exact ih.step hinitial hstep

end Follows

end Steps

end BulletScript.Tasks
