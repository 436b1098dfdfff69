import BulletScript.Documents.Frontmatter
import BulletScript.Proofs.Text.Lines

/-! Documents with a head. The fence that ends a head is looked for behind its first line, so a head of
one line or more ends at its own fence and the body is kept as it is. A head without lines has no end of
its own: it takes the body up to the next fence there, or is no head. -/
namespace BulletScript.Documents

open Text

/-- A document with the lines of a head between fences, and a body behind it. -/
def headed (header : List String) (body : String) : String :=
  "---\n" ++ String.join (header.map (· ++ "\n")) ++ "---\n" ++ body

/-- A document with a head is split as it was written: the body is kept, and the head gives its record.
It is refused if the head breaks the rules of YAML. -/
inductive SplitAsWritten (header : List String) (body : String) : Result (Record × String) → Prop
  | mapping {entries : Record} (h : Yaml.load (unlines header) = .ok (.map entries)) :
    SplitAsWritten header body (.ok (entries, body))
  | other {v : Value} (h : Yaml.load (unlines header) = .ok v) (hv : v.isMap = false) :
    SplitAsWritten header body (.ok ([], body))
  | invalid {fault : Yaml.Fault} (h : Yaml.load (unlines header) = .error fault)
    (hfault : ∀ failure, fault ≠ .noValue failure) :
    SplitAsWritten header body (.error (.action
      (.invalidFrontmatter (fault.failure "<unicode string>").message)))

section Lines

variable {header : List String} {body : String}

theorem lines_join_append (hheader : ∀ l ∈ header, '\n' ∉ l.toList) (rest : String) :
    lines (String.join (header.map (· ++ "\n")) ++ rest) = header ++ lines rest := by
  induction header with
  | nil => simp [String.join]
  | cons l header ih =>
    rw [List.forall_mem_cons] at hheader
    have hjoin : String.join ((l :: header).map (· ++ "\n")) ++ rest =
        l ++ "\n" ++ (String.join (header.map (· ++ "\n")) ++ rest) := by
      apply String.toList_injective
      simp
    rw [hjoin, lines_append, lines_of_no_newline hheader.1, ih hheader.2]
    rfl

theorem lines_headed (hheader : ∀ l ∈ header, '\n' ∉ l.toList) :
    lines (headed header body) = "---" :: header ++ "---" :: lines body := by
  have hfence : '\n' ∉ "---".toList := by decide
  have hheaded : headed header body = "---" ++ "\n" ++
      (String.join (header.map (· ++ "\n")) ++ ("---" ++ "\n" ++ body)) := by
    apply String.toList_injective
    simp [headed]
  rw [hheaded, lines_append, lines_of_no_newline hfence, lines_join_append hheader, lines_append,
    lines_of_no_newline hfence]
  rfl

/-- Behind lines of which none is a fence, a fence is the first. -/
theorem findIdx?_isFence_append (hopen : ∀ l ∈ header, isFence l = false) (rest : List String) :
    (header ++ "---" :: rest).findIdx? isFence = some header.length := by
  have hfence : isFence "---" = true := by decide +kernel
  rw [List.findIdx?_append, List.findIdx?_eq_none_iff.2 hopen, List.findIdx?_cons, hfence]
  simp

/-- A head of one line or more ends at its own fence. -/
theorem cutHeader_headed (hheader : ∀ l ∈ header, '\n' ∉ l.toList)
    (hopen : ∀ l ∈ header, isFence l = false) (hne : header ≠ []) :
    cutHeader (headed header body) = some (unlines header, body) := by
  obtain ⟨first, header, rfl⟩ := List.exists_cons_of_ne_nil hne
  have hfence : isFence "---" = true := by decide +kernel
  rw [cutHeader, lines_headed hheader]
  simp only [List.cons_append]
  rw [if_pos hfence, findIdx?_isFence_append (List.forall_mem_cons.1 hopen).2]
  simp [unlines_lines]

/-- A head without lines ends at the first fence of the body, if there is one. -/
theorem cutHeader_headed_nil (body : String) : cutHeader (headed [] body) =
    ((lines body).findIdx? isFence).map fun n =>
      (unlines ("---" :: (lines body).take n), unlines ((lines body).drop (n + 1))) := by
  have hfence : isFence "---" = true := by decide +kernel
  rw [cutHeader, lines_headed (List.forall_mem_nil _), List.cons_append, List.nil_append]
  dsimp only
  rw [if_pos hfence]
  cases (lines body).findIdx? isFence <;> rfl

/-- Behind a fence the body is not whole. -/
theorem unlines_drop_ne {n : Nat} (h : (lines body).findIdx? isFence = some n) :
    unlines ((lines body).drop (n + 1)) ≠ body := by
  intro hbody
  by_cases hnone : (lines body).drop (n + 1) = []
  · have hempty : lines body = [unlines []] := by
      rw [← hbody, hnone]
      exact lines_of_no_newline (by simp [toList_unlines])
    have hopen : isFence (unlines []) = false := by decide +kernel
    rw [hempty, List.findIdx?_cons, hopen] at h
    simp at h
  · have hlines := lines_unlines_of_no_newline hnone fun l hl =>
      no_newline_of_mem_lines (List.mem_of_mem_drop hl)
    rw [hbody] at hlines
    have hlength := congrArg List.length hlines
    have hpos := List.length_pos_of_ne_nil (lines_ne_nil body)
    rw [List.length_drop] at hlength
    omega

end Lines

section Splitting

variable {header : List String} {body text : String}

theorem SplitAsWritten.body_eq {p : Record × String} (h : SplitAsWritten header body (.ok p)) :
    p.2 = body := by
  cases h <;> rfl

theorem SplitAsWritten.exists_fault {failure : Failure}
    (h : SplitAsWritten header body (.error failure)) :
    ∃ fault, Yaml.load (unlines header) = .error fault ∧ ∀ failure, fault ≠ .noValue failure := by
  cases h with
  | invalid h hfault => exact ⟨_, h, hfault⟩

theorem SplitAsWritten.ne_noValue {result : Result (Record × String)}
    (h : SplitAsWritten header body result) (failure : Failure) :
    Yaml.load (unlines header) ≠ .error (.noValue failure) := by
  intro hload
  cases h with
  | mapping h => cases h.symm.trans hload
  | other h _ => cases h.symm.trans hload
  | invalid h hfault => exact hfault failure (Except.error.inj (h.symm.trans hload))

/-- What a head that is cut out says. The failure of a value that does not exist is passed on. -/
theorem splitFrontmatter_of_cut (h : cutHeader text = some (unlines header, body)) :
    SplitAsWritten header body (splitFrontmatter text) ∨
      ∃ failure, Yaml.load (unlines header) = .error (.noValue failure) ∧
        splitFrontmatter text = .error failure := by
  rw [splitFrontmatter, h]
  dsimp only
  cases hload : Yaml.load (unlines header) with
  | ok v =>
    cases v with
    | map entries => exact .inl (.mapping hload)
    | _ => exact .inl (.other hload rfl)
  | error fault =>
    cases fault with
    | noValue failure => exact .inr ⟨failure, rfl, rfl⟩
    | _ => exact .inl (.invalid hload nofun)

/-- Whatever a head says, the body is what stands behind it. -/
theorem snd_of_splitFrontmatter {head : String} {p : Record × String}
    (hcut : cutHeader text = some (head, body)) (h : splitFrontmatter text = .ok p) :
    p.2 = body := by
  rw [splitFrontmatter, hcut] at h
  dsimp only at h
  split at h
  · exact congrArg Prod.snd (Except.ok.inj h).symm
  · exact congrArg Prod.snd (Except.ok.inj h).symm
  · cases h
  · cases h

/-- A head without lines is never split off as it was written. -/
theorem not_splitAsWritten_nil (body : String) :
    ¬ SplitAsWritten [] body (splitFrontmatter (headed [] body)) := by
  intro hsplit
  cases hresult : splitFrontmatter (headed [] body) with
  | error failure =>
    -- no lines are valid, so it is no reason that they are not
    rw [hresult] at hsplit
    obtain ⟨fault, hload, -⟩ := hsplit.exists_fault
    have hread : (Yaml.load (unlines [])).toOption.isSome = true := by decide +kernel
    rw [hload] at hread
    cases hread
  | ok p =>
    rw [hresult] at hsplit
    have hbody := hsplit.body_eq
    have hcut := cutHeader_headed_nil body
    cases hfind : (lines body).findIdx? isFence with
    | none =>
      rw [hfind, Option.map_none] at hcut
      rw [splitFrontmatter, hcut] at hresult
      have hwhole : headed [] body = body := (congrArg Prod.snd (Except.ok.inj hresult)).trans hbody
      have hlength := congrArg (fun s : String => s.toList.length) hwhole
      simp [headed] at hlength
      omega
    | some n =>
      rw [hfind, Option.map_some] at hcut
      exact unlines_drop_ne hfind ((snd_of_splitFrontmatter hcut hresult).symm.trans hbody)

/-- A document is split as it was written if and only if its head has a line, and the reader of the head
gives a value or says which rule is broken. -/
theorem frontmatter_split_iff
    (hheader : ∀ l ∈ header, '\n' ∉ l.toList ∧ isFence l = false) :
    SplitAsWritten header body (splitFrontmatter (headed header body)) ↔
      header ≠ [] ∧ ∀ failure, Yaml.load (unlines header) ≠ .error (.noValue failure) := by
  constructor
  · intro hsplit
    have hne : header ≠ [] := by
      rintro rfl
      exact not_splitAsWritten_nil body hsplit
    exact ⟨hne, hsplit.ne_noValue⟩
  · rintro ⟨hne, hvalue⟩
    have hcut : cutHeader (headed header body) = some (unlines header, body) :=
      cutHeader_headed (fun l hl => (hheader l hl).1) (fun l hl => (hheader l hl).2) hne
    rcases splitFrontmatter_of_cut hcut with hsplit | ⟨failure, hload, -⟩
    · exact hsplit
    · exact absurd hload (hvalue failure)

end Splitting

/-- A line of dashes in the body ends no head. -/
theorem frontmatter_split_iff_recipe :
    (∀ l ∈ ["title: Pasta", "", "# ---"], '\n' ∉ l.toList ∧ isFence l = false) ∧
      headed ["title: Pasta", "", "# ---"] "Boil\n---\nServe\n" =
        "---\ntitle: Pasta\n\n# ---\n---\nBoil\n---\nServe\n" ∧
      SplitAsWritten ["title: Pasta", "", "# ---"] "Boil\n---\nServe\n"
        (splitFrontmatter "---\ntitle: Pasta\n\n# ---\n---\nBoil\n---\nServe\n") := by
  have hheader : ∀ l ∈ ["title: Pasta", "", "# ---"], '\n' ∉ l.toList ∧ isFence l = false := by
    decide +kernel
  have htext : headed ["title: Pasta", "", "# ---"] "Boil\n---\nServe\n" =
      "---\ntitle: Pasta\n\n# ---\n---\nBoil\n---\nServe\n" := by
    decide +kernel
  refine ⟨hheader, htext, ?_⟩
  rw [← htext]
  refine (frontmatter_split_iff hheader).2 ⟨by simp, fun failure hload => ?_⟩
  have hread : (Yaml.load (unlines ["title: Pasta", "", "# ---"])).toOption.isSome = true := by
    decide +kernel
  rw [hload] at hread
  cases hread

/-- A head without lines takes the body with it up to the next line of dashes. -/
theorem frontmatter_takes_body :
    headed [] "Boil\n---\nServe\n" = "---\n---\nBoil\n---\nServe\n" ∧
      (splitFrontmatter "---\n---\nBoil\n---\nServe\n").toOption.map (·.2) = some "Serve\n" ∧
      ¬ SplitAsWritten [] "Boil\n---\nServe\n"
        (splitFrontmatter "---\n---\nBoil\n---\nServe\n") := by
  have htext : headed [] "Boil\n---\nServe\n" = "---\n---\nBoil\n---\nServe\n" := by
    decide +kernel
  refine ⟨htext, by decide +kernel, ?_⟩
  rw [← htext]
  exact not_splitAsWritten_nil _

end BulletScript.Documents
