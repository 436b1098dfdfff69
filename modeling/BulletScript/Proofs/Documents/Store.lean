import BulletScript.Documents.Store

/-! A document that was written is read again as it was written, and can be written again. -/
namespace BulletScript.Files.Tree

variable {t t' : Tree} {place q : Place} {content : Content}

theorem lookup_replace (files : List (Place × Content)) (place q : Place) (content : Content) :
    (files.map fun (p, old) => (p, if p = place then content else old)).lookup q =
      (files.lookup q).map fun old => if q = place then content else old := by
  induction files with
  | nil => rfl
  | cons file rest ih =>
    obtain ⟨p, old⟩ := file
    simp only [List.map_cons, List.lookup_cons]
    cases hq : q == p with
    | true =>
      rw [beq_iff_eq] at hq
      subst hq
      rfl
    | false => exact ih

/-- A content that is put at a place is all that is there, and nothing else changes. -/
theorem file?_put (t : Tree) (place q : Place) (content : Content) :
    (t.put place content).file? q = if q = place then some content else t.file? q := by
  have hfiles : (t.put place content).files =
      if t.isFile place then
        t.files.map fun (p, old) => (p, if p = place then content else old)
      else t.files ++ [(place, content)] := rfl
  rw [file?, hfiles]
  unfold isFile file?
  by_cases hfile : (t.files.lookup place).isSome
  · rw [if_pos hfile, lookup_replace]
    by_cases hq : q = place
    · subst hq
      obtain ⟨old, hold⟩ := Option.isSome_iff_exists.1 hfile
      simp [hold]
    · simp [hq]
  · rw [if_neg hfile, List.lookup_append]
    by_cases hq : q = place
    · subst hq
      simp [Option.not_isSome_iff_eq_none.1 hfile]
    · simp [hq, List.lookup_cons, beq_eq_false_iff_ne.2 hq]

theorem isFile_put_of_ne (h : q ≠ place) : (t.put place content).isFile q = t.isFile q := by
  rw [isFile, isFile, file?_put, if_neg h]

theorem length_le_of_mem_above {p : Place} (h : p ∈ above place ++ [place]) :
    p.length ≤ place.length := by
  rcases List.mem_append.1 h with h | h
  · obtain ⟨n, _, rfl⟩ := List.mem_map.1 h
    rw [List.length_take]
    exact Nat.min_le_right _ _
  · exact Nat.le_of_eq (congrArg List.length (List.mem_singleton.1 h))

/-- Folders that are added are no longer than the place they are made for. -/
theorem isFolder_addFolder (h : place.length < q.length) :
    (t.addFolder place).isFolder q = t.isFolder q := by
  have hfold (added folders : List Place) (hadded : q ∉ added) :
      (added.foldl (fun folders p =>
        if p.isEmpty || folders.contains p then folders else folders ++ [p]) folders).contains q =
        folders.contains q := by
    induction added generalizing folders with
    | nil => rfl
    | cons p rest ih =>
      rw [List.foldl_cons, ih _ fun hmem => hadded (List.mem_cons_of_mem _ hmem)]
      split
      · rfl
      · have hne : q ≠ p := fun heq => hadded (by simp [heq])
        simp [hne]
  unfold isFolder addFolder
  rw [hfold]
  intro hmem
  exact absurd (length_le_of_mem_above hmem) (by omega)

/-- A file can be written where it or its folders do not stand in its way. -/
structure Writable (t : Tree) (place : Place) : Prop where
  free : t.isBlocked place.dropLast = false
  noFile : t.isFile place.dropLast = false
  noFolder : t.isFolder place = false

theorem Writable.ne_nil (h : t.Writable place) : place ≠ [] := by
  rintro rfl
  exact absurd h.noFolder (by simp [isFolder])

theorem write_eq_ok :
    t.write place content = .ok t' ↔ t.Writable place ∧ t' = t.put place content := by
  constructor
  · intro h
    simp only [write] at h
    split at h
    · cases h
    · rename_i hfree
      split at h
      · cases h
      · rename_i hfile
        split at h
        · cases h
        · rename_i hfolder
          cases h
          simp only [Bool.not_eq_true] at hfree hfile hfolder
          exact ⟨⟨hfree, hfile, hfolder⟩, rfl⟩
  · rintro ⟨⟨hfree, hfile, hfolder⟩, rfl⟩
    simp [write, hfree, hfile, hfolder]

theorem Writable.put (h : t.Writable place) (content : Content) :
    (t.put place content).Writable place := by
  have hlength : place.dropLast.length < place.length := by
    have := List.length_pos_iff.2 h.ne_nil
    rw [List.length_dropLast]
    omega
  have hfile (q : Place) (hq : q.length < place.length) :
      (t.put place content).isFile q = t.isFile q :=
    isFile_put_of_ne fun heq => absurd hq (by simp [heq])
  refine ⟨?_, ?_, ?_⟩
  · rw [isBlocked, List.any_eq_false]
    intro p hp
    have hle := length_le_of_mem_above (List.mem_append_left [place.dropLast] hp)
    rw [hfile p (by omega)]
    exact List.any_eq_false.1 h.free p hp
  · rw [hfile _ hlength, h.noFile]
  · exact (isFolder_addFolder hlength).trans h.noFolder

end BulletScript.Files.Tree

namespace BulletScript.Documents.Store

open Files

variable {store : Store} {tree tree' : Tree} {path text : String}

theorem write_eq_ok : store.write tree path text = .ok tree' ↔
    ∃ place, store.place tree path = .ok place ∧ tree.Writable place ∧
      tree' = tree.put place (.text text) := by
  unfold write
  cases hplace : store.place tree path with
  | error failure => simp [bind, Except.bind]
  | ok place =>
    cases hwrite : tree.write place (.text text) with
    | error fault =>
      simp only [bind, Except.bind, hwrite, reduceCtorEq, false_iff]
      rintro ⟨_, heq, hplace, rfl⟩
      cases heq
      rw [Tree.write_eq_ok.2 ⟨hplace, rfl⟩] at hwrite
      cases hwrite
    | ok written =>
      obtain ⟨hplace, rfl⟩ := Tree.write_eq_ok.1 hwrite
      simp [bind, Except.bind, hplace, hwrite, eq_comm]

theorem place_put (place : Place) (content : Content) :
    store.place (tree.put place content) path = store.place tree path := rfl

theorem content_write (h : store.write tree path text = .ok tree') (missing : ActionFault) :
    store.content tree' path missing = .ok (.text text) := by
  obtain ⟨place, hplace, -, rfl⟩ := write_eq_ok.1 h
  simp [content, place_put, hplace, bind, Except.bind, Tree.read, Tree.file?_put]

theorem read_write (h : store.write tree path text = .ok tree') :
    store.read tree' path = .ok (Text.plainNewlines text) := by
  simp [read, content_write h, bind, Except.bind, Content.toText]

/-- A document that was written can be written again. -/
theorem write_write (h : store.write tree path text = .ok tree') (next : String) :
    ∃ tree'', store.write tree' path next = .ok tree'' := by
  obtain ⟨place, hplace, hwritable, rfl⟩ := write_eq_ok.1 h
  exact ⟨_, write_eq_ok.2 ⟨place, (place_put _ _).trans hplace, hwritable.put _, rfl⟩⟩

end BulletScript.Documents.Store

/-! Trees that differ in what their files hold at most. A text that is written over a file leaves
the tree alike, so that nobody who uses other files can tell. -/
namespace BulletScript.Files.Tree

variable {t t' t'' : Tree} {place q : Place} {content : Content}

/-- Two trees with the same folders and the same files, whatever these hold. -/
structure Alike (t t' : Tree) : Prop where
  root : t'.root = t.root
  folders : t'.folders = t.folders
  isFile : ∀ q, t'.isFile q = t.isFile q

namespace Alike

theorem refl (t : Tree) : Alike t t := ⟨rfl, rfl, fun _ => rfl⟩

theorem symm (h : Alike t t') : Alike t' t :=
  ⟨h.root.symm, h.folders.symm, fun q => (h.isFile q).symm⟩

theorem trans (h : Alike t t') (h' : Alike t' t'') : Alike t t'' :=
  ⟨h'.root.trans h.root, h'.folders.trans h.folders, fun q => (h'.isFile q).trans (h.isFile q)⟩

theorem isFolder (h : Alike t t') (q : Place) : t'.isFolder q = t.isFolder q := by
  rw [Tree.isFolder, Tree.isFolder, h.folders]

theorem isBlocked (h : Alike t t') (q : Place) : t'.isBlocked q = t.isBlocked q := by
  rw [Tree.isBlocked, Tree.isBlocked, funext h.isFile]

theorem pathOf (h : Alike t t') (q : Place) : t'.pathOf q = t.pathOf q := by
  rw [Tree.pathOf, Tree.pathOf, h.root]

/-- The same content put at the same place leaves alike trees alike. -/
theorem put (h : Alike t t') (place : Place) (content : Content) :
    Alike (t.put place content) (t'.put place content) := by
  refine ⟨h.root, ?_, fun q => ?_⟩
  · change (t'.addFolder place.dropLast).folders = (t.addFolder place.dropLast).folders
    rw [addFolder, addFolder, h.folders]
  · rw [Tree.isFile, Tree.isFile, file?_put, file?_put]
    split
    · rfl
    · exact h.isFile q

end Alike

theorem read_of_no_file (h : t.file? place = none) (shown : String) :
    ∃ fault, t.read place shown = .error fault := by
  rw [read, h]
  dsimp only
  split
  · exact ⟨_, rfl⟩
  · split <;> exact ⟨_, rfl⟩

/-- Alike trees are written alike, or fail alike. -/
theorem Alike.write (h : Alike t t') (place : Place) (content : Content) :
    (t.write place content = .ok (t.put place content) ∧
      t'.write place content = .ok (t'.put place content)) ∨
    ∃ fault, t.write place content = .error fault ∧ t'.write place content = .error fault := by
  simp only [Tree.write, h.isBlocked, h.isFile, h.isFolder, h.pathOf]
  split
  · exact .inr ⟨_, rfl, rfl⟩
  · split
    · exact .inr ⟨_, rfl, rfl⟩
    · split
      · exact .inr ⟨_, rfl, rfl⟩
      · exact .inl ⟨rfl, rfl⟩

/-- Every file stands in folders. -/
def Grounded (t : Tree) : Prop := ∀ place, t.isFile place → ∀ q ∈ above place, t.isFolder q

theorem Grounded.of_alike (ht : t.Grounded) (h : Alike t t') : t'.Grounded :=
  fun place hfile q hq => by
    rw [h.isFolder]
    exact ht place (h.isFile place ▸ hfile) q hq

theorem isFolder_iff : t.isFolder q ↔ q = [] ∨ q ∈ t.folders := by
  simp [isFolder]

/-- Adding folders that are there changes nothing. -/
theorem addFolder_of_isFolder (h : ∀ q ∈ above place ++ [place], t.isFolder q) :
    t.addFolder place = t := by
  have hfold (added : List Place) (hadded : ∀ q ∈ added, t.isFolder q) :
      added.foldl (fun folders p =>
        if p.isEmpty || folders.contains p then folders else folders ++ [p]) t.folders =
        t.folders := by
    induction added with
    | nil => rfl
    | cons p rest ih =>
      have hp : (p.isEmpty || t.folders.contains p) = true := hadded p (List.mem_cons_self ..)
      rw [List.foldl_cons, if_pos hp]
      exact ih fun q hq => hadded q (List.mem_cons_of_mem _ hq)
  rw [addFolder, hfold _ h]

/-- Folders that were added are there, and no folder is lost. -/
theorem isFolder_addFolder_iff :
    (t.addFolder place).isFolder q ↔ t.isFolder q ∨ q ∈ above place ++ [place] := by
  have hfold (added folders : List Place) :
      (q = [] ∨ q ∈ added.foldl (fun folders p =>
        if p.isEmpty || folders.contains p then folders else folders ++ [p]) folders) ↔
        (q = [] ∨ q ∈ folders) ∨ q ∈ added := by
    induction added generalizing folders with
    | nil => simp
    | cons p rest ih =>
      rw [List.foldl_cons, ih, List.mem_cons]
      split
      · rename_i hp
        have hthere : p = [] ∨ p ∈ folders := by simpa using hp
        constructor
        · rintro (hq | hq)
          · exact .inl hq
          · exact .inr (.inr hq)
        · rintro (hq | rfl | hq)
          · exact .inl hq
          · exact .inl hthere
          · exact .inr hq
      · simp only [List.mem_append, List.mem_singleton, or_assoc]
  rw [isFolder_iff, isFolder_iff]
  exact hfold _ _

/-- What lies above a place is its folder and what lies above that. -/
theorem mem_above_iff (h : place ≠ []) :
    q ∈ above place ↔ q ∈ above place.dropLast ++ [place.dropLast] := by
  obtain ⟨folder, name, rfl⟩ := (List.eq_nil_or_concat place).resolve_left h
  rw [List.concat_eq_append]
  have htake : (List.range folder.length).map (folder ++ [name]).take =
      (List.range folder.length).map folder.take :=
    List.map_congr_left fun n hn =>
      List.take_append_of_le_length (Nat.le_of_lt (List.mem_range.1 hn))
  rw [above, above, List.dropLast_concat, List.length_append, List.length_singleton,
    List.range_succ, List.map_append, htake, List.map_singleton, List.take_left]

theorem isFile_put_iff :
    (t.put place content).isFile q ↔ q = place ∨ t.isFile q := by
  rw [isFile, isFile, file?_put]
  split <;> simp [*]

/-- A file that is there and stands in folders can be written with no other change. -/
theorem alike_put (ht : t.Grounded) (hfile : t.isFile place) (content : Content) :
    Alike t (t.put place content) := by
  refine ⟨rfl, ?_, fun q => ?_⟩
  · change (t.addFolder place.dropLast).folders = t.folders
    rw [addFolder_of_isFolder]
    by_cases hplace : place = []
    · subst hplace
      intro q hq
      obtain rfl := List.mem_singleton.1 (show q ∈ [[]] from hq)
      rfl
    · exact fun q hq => ht place hfile q ((mem_above_iff hplace).2 hq)
  · by_cases hq : q = place
    · rw [hq, hfile, isFile_put_iff.2 (.inl rfl)]
    · exact isFile_put_of_ne hq

theorem Grounded.put (ht : t.Grounded) (place : Place) (content : Content) :
    (t.put place content).Grounded := by
  intro p hp q hq
  change (t.addFolder place.dropLast).isFolder q
  rw [isFolder_addFolder_iff]
  rcases isFile_put_iff.1 hp with rfl | hfile
  · by_cases hne : p = []
    · subst hne
      cases hq
    · exact .inr ((mem_above_iff hne).1 hq)
  · exact .inl (ht p hfile q hq)

theorem grounded_ofFiles (root : String) (files : List (String × Content)) :
    (ofFiles root files).Grounded := by
  have hfold (t : Tree) (ht : t.Grounded) :
      (files.foldl (fun t file => t.put (Path.ofText file.1).parts file.2) t).Grounded := by
    induction files generalizing t with
    | nil => exact ht
    | cons file rest ih => exact ih _ (ht.put _ _)
  exact hfold _ fun _ hfile => by cases hfile

end BulletScript.Files.Tree

namespace BulletScript.Documents.Store

open Files

variable {store : Store} {t t' : Tree} {place : Place} {path : String}

theorem place_congr (h : t.Alike t') : store.place t' path = store.place t path := by
  rw [Store.place, Store.place, Tree.place?, Tree.place?, h.root]

/-- Alike trees are read alike where the file is the same. -/
theorem read_congr (h : t.Alike t')
    (hfile : ∀ place, store.place t path = .ok place → t'.file? place = t.file? place) :
    store.read t' path = store.read t path := by
  unfold Store.read content
  rw [place_congr h]
  cases hplace : store.place t path with
  | error failure => rfl
  | ok place =>
    simp only [bind, Except.bind, Tree.read, hfile place hplace, h.isFolder, h.isBlocked, h.pathOf]

/-- A document that is read is a file. -/
theorem isFile_of_read {s : String} (h : store.read t path = .ok s) :
    ∃ place, store.place t path = .ok place ∧ t.isFile place := by
  unfold Store.read content at h
  cases hplace : store.place t path with
  | error failure => simp [hplace, bind, Except.bind] at h
  | ok place =>
    refine ⟨place, rfl, ?_⟩
    cases hfile : t.file? place with
    | some content => rw [Tree.isFile, hfile]; rfl
    | none =>
      obtain ⟨fault, hfault⟩ := Tree.read_of_no_file hfile (t.pathOf place)
      simp only [hplace, bind, Except.bind, hfault] at h
      cases fault <;> cases h

/-- Alike trees are written alike. -/
theorem write_congr (h : t.Alike t') (path text : String) :
    (∃ place, store.place t path = .ok place ∧
      store.write t path text = .ok (t.put place (.text text)) ∧
      store.write t' path text = .ok (t'.put place (.text text))) ∨
    ∃ failure, store.write t path text = .error failure ∧
      store.write t' path text = .error failure := by
  unfold Store.write
  rw [place_congr h]
  cases hplace : store.place t path with
  | error failure => exact .inr ⟨failure, rfl, rfl⟩
  | ok place =>
    obtain ⟨hwrite, hwrite'⟩ | ⟨fault, hwrite, hwrite'⟩ := h.write place (.text text)
    · exact .inl ⟨place, rfl, by simp [bind, Except.bind, hwrite],
        by simp [bind, Except.bind, hwrite']⟩
    · exact .inr ⟨.internal (.file fault), by simp [bind, Except.bind, hwrite],
        by simp [bind, Except.bind, hwrite']⟩

end BulletScript.Documents.Store
