import BulletScript.Proofs.Tasks.Queried
import BulletScript.Proofs.Value.Record

/-! Queries with a limit. Whether there are enough entries is asked once one has been added, so a query
with a limit finds the first entries of the query without one, as many as the limit says but never less
than one. -/
namespace BulletScript.Tasks

open Text Outline Files Documents

namespace Query

/-- A query as it is without a limit. -/
def unlimited (q : Query) : Query := { q with limit := none }

def limitedTo (n : Nat) (q : Query) : Query := { q with limit := some (.int n) }

end Query

/-- How a search ends that stops at `most` entries, by how the same search ends that does not stop: with
its first entries, and where that one fails, in the same way or with enough found before. -/
inductive Capped (most : Nat) : Result (List Value) → Result (List Value) → Prop
  | found (entries : List Value) : Capped most (.ok entries) (.ok (entries.take most))
  | failed (failure : Failure) : Capped most (.error failure) (.error failure)
  | before (failure : Failure) {entries : List Value} (h : entries.length = most) :
    Capped most (.error failure) (.ok entries)

section Searching

variable {q : Query} {n most : Nat} {path : String} {ls : List String} {found : List Value}
  {store : Store} {tree : Tree}

theorem Capped.of_short (h : found.length < most) : Capped most (.ok found) (.ok found) := by
  have hfound : Capped most (.ok found) (.ok (found.take most)) := .found found
  rwa [List.take_of_length_le h.le] at hfound

/-- Once enough is found, it does not matter how the search would go on. -/
theorem Capped.of_full (h : most ≤ found.length) (rest : Result (List Value)) :
    Capped most (rest.map (found ++ ·)) (.ok (found.take most)) := by
  cases rest with
  | error failure => exact .before failure (List.length_take_of_le h)
  | ok new =>
    have hfound : Capped most (.ok (found ++ new)) (.ok ((found ++ new).take most)) := .found _
    rwa [List.take_append_of_le_length h] at hfound

/-- Without a limit, the lines of a document add to what was found before. -/
theorem exists_collectLines_unlimited (q : Query) (path : String) (ls : List String)
    (found : List Value) (indices : List Nat) :
    ∃ new : Result (List Value), q.unlimited.collectLines path ls found indices =
      new.map fun new => (found ++ new, false) := by
  induction indices generalizing found with
  | nil => exact ⟨.ok [], by simp [Query.collectLines, Except.map]⟩
  | cons index rest ih =>
    rw [Query.collectLines]
    cases q.unlimited.entry? path ls index with
    | error failure => exact ⟨.error failure, rfl⟩
    | ok entry? =>
      cases entry? with
      | none => exact ih found
      | some entry =>
        obtain ⟨new, hnew⟩ := ih (found ++ [entry])
        refine ⟨new.map (entry :: ·), hnew.trans ?_⟩
        cases new <;> simp [Except.map]

theorem exists_collectDocuments_unlimited (q : Query) (store : Store) (tree : Tree)
    (found : List Value) (paths : List String) :
    ∃ new : Result (List Value), q.unlimited.collectDocuments store tree found paths =
      new.map (found ++ ·) := by
  induction paths generalizing found with
  | nil => exact ⟨.ok [], by simp [Query.collectDocuments, Except.map]⟩
  | cons path rest ih =>
    rw [Query.collectDocuments]
    split
    · cases store.read tree path with
      | error failure => exact ⟨.error failure, rfl⟩
      | ok text =>
        obtain ⟨new, hnew⟩ := exists_collectLines_unlimited q path (lines text) found
          (List.range (lines text).length)
        cases new with
        | error failure => exact ⟨.error failure, by simp [bind, Except.bind, hnew, Except.map]⟩
        | ok new =>
          obtain ⟨more, hmore⟩ := ih (found ++ new)
          refine ⟨more.map (new ++ ·), ?_⟩
          simp only [bind, Except.bind, hnew, Except.map] at hmore ⊢
          rw [if_neg Bool.false_ne_true, hmore]
          cases more <;> simp
    · exact ih found

/-- A query is full from its first entry on if its limit is zero. -/
theorem isFull_limitedTo (entry : Value) : (q.limitedTo n).isFull (found ++ [entry]) =
    .ok (decide (max n 1 ≤ (found ++ [entry]).length)) := by
  have hlength : (n : Int) ≤ ((found ++ [entry]).length : Nat) ↔
      max n 1 ≤ (found ++ [entry]).length := by
    rw [List.length_append, List.length_singleton]
    omega
  exact congrArg Except.ok (decide_eq_decide.2 hlength)

/-- The lines of a document: where the limit is not reached, both searches go on with what they have
found. -/
theorem capped_collectLines (q : Query) (path : String) (ls : List String)
    (hroom : found.length < max n 1) (indices : List Nat) :
    ∃ all capped, Capped (max n 1) all capped ∧
      q.unlimited.collectLines path ls found indices = all.map (·, false) ∧
      (q.limitedTo n).collectLines path ls found indices =
        capped.map fun entries => (entries, decide (max n 1 ≤ entries.length)) := by
  induction indices generalizing found with
  | nil =>
    refine ⟨.ok found, .ok found, .of_short hroom, rfl, ?_⟩
    simp only [Query.collectLines, Except.map, decide_eq_false (Nat.not_le_of_lt hroom)]
  | cons index rest ih =>
    have hentry : Query.entry? (q.limitedTo n) path ls index = q.unlimited.entry? path ls index := rfl
    rw [Query.collectLines, Query.collectLines, hentry]
    cases q.unlimited.entry? path ls index with
    | error failure => exact ⟨.error failure, .error failure, .failed failure, rfl, rfl⟩
    | ok entry? =>
      cases entry? with
      | none => exact ih hroom
      | some entry =>
        simp only [bind, Except.bind, pure, Except.pure, isFull_limitedTo]
        by_cases hfull : max n 1 ≤ (found ++ [entry]).length
        · obtain ⟨new, hnew⟩ := exists_collectLines_unlimited q path ls (found ++ [entry]) rest
          have hlength : (found ++ [entry]).length ≤ max n 1 := by
            rw [List.length_append]
            exact hroom
          refine ⟨_, _, .of_full hfull new, ?_, ?_⟩
          · refine hnew.trans ?_
            cases new <;> rfl
          · simp only [Except.map, List.take_of_length_le hlength, decide_eq_true hfull, if_true]
        · obtain ⟨all, capped, hcapped, hall, hlimited⟩ := ih (Nat.lt_of_not_le hfull)
          refine ⟨all, capped, hcapped, hall, ?_⟩
          rw [← hlimited, decide_eq_false hfull, if_neg Bool.false_ne_true]

/-- All documents: a document after which the search is full ends it. -/
theorem capped_collectDocuments (hroom : found.length < max n 1) (paths : List String) :
    Capped (max n 1) (q.unlimited.collectDocuments store tree found paths)
      ((q.limitedTo n).collectDocuments store tree found paths) := by
  induction paths generalizing found with
  | nil => exact .of_short hroom
  | cons path rest ih =>
    have hglob : (q.limitedTo n).glob = q.unlimited.glob := rfl
    rw [Query.collectDocuments, Query.collectDocuments, hglob]
    split
    · cases store.read tree path with
      | error failure => exact .failed failure
      | ok text =>
        obtain ⟨all, capped, hcapped, hall, hlimited⟩ := capped_collectLines q path (lines text) hroom
          (List.range (lines text).length)
        simp only [bind, Except.bind, pure, Except.pure, hall, hlimited]
        cases hcapped with
        | failed failure => exact .failed failure
        | before failure h => simpa [Except.map, h] using Capped.before failure h
        | found entries =>
          by_cases hfull : max n 1 ≤ entries.length
          · obtain ⟨more, hmore⟩ := exists_collectDocuments_unlimited q store tree entries rest
            have hend := Capped.of_full hfull more
            rw [← hmore] at hend
            simpa [Except.map, hfull] using hend
          · have hshort : entries.length < max n 1 := Nat.lt_of_not_le hfull
            have hgo := ih hshort
            simpa [Except.map, hfull, List.take_of_length_le hshort.le] using hgo
    · exact ih hroom

end Searching

/-- What a query with options finds. -/
def query (store : Store) (tree : Tree) (identifier : String) (options : Record) :
    Result (List Value) := do
  (← Query.ofOptions identifier options).run store tree

section Options

variable {store : Store} {tree : Tree} {identifier : String} {options : Record} {n : Nat}
  {entries : List Value}

/-- The limit of options is the limit of the query, and has no part in anything else. -/
theorem ofOptions_of_limit {others : Record} {limit : Option Value}
    (hlimit : (options.get? "limit").filter (!·.isNull) = limit)
    (hothers : ∀ name : String, name ≠ "limit" → options.get? name = others.get? name) :
    Query.ofOptions identifier options =
      (Query.ofOptions identifier others).map fun q => { q with limit } := by
  have hchildren := hothers "children" (by decide)
  have hstatus := hothers "status" (by decide)
  have hpath := hothers "path" (by decide)
  rw [Query.ofOptions, Query.ofOptions]
  cases tagOfIdentifier identifier with
  | error failure => rfl
  | ok tag =>
    simp only [bind, Except.bind, pure, Except.pure, Except.map, Record.getD, hchildren, hstatus,
      hpath, hlimit]

theorem ofOptions_limitedTo : Query.ofOptions identifier (options.set "limit" (.int n)) =
    (Query.ofOptions identifier options).map (Query.limitedTo n) := by
  refine ofOptions_of_limit ?_ fun name hname => ?_
  · rw [Record.get?_set_str]
    rfl
  · rw [Record.get?_set_str, beq_false_of_ne (Ne.symm hname), if_neg Bool.false_ne_true]

theorem ofOptions_unlimited : Query.ofOptions identifier (options.erase "limit") =
    (Query.ofOptions identifier options).map Query.unlimited := by
  refine ofOptions_of_limit ?_ fun name hname => ?_
  · rw [Record.get?_erase_str, if_pos rfl]
    rfl
  · rw [Record.get?_erase_str, if_neg (Ne.symm hname)]

/-- A query with a limit ends as the same query without one that is cut short. -/
theorem capped_query (store : Store) (tree : Tree) (identifier : String) (options : Record)
    (n : Nat) : Capped (max n 1) (query store tree identifier (options.erase "limit"))
    (query store tree identifier (options.set "limit" (.int n))) := by
  rw [query, query, ofOptions_limitedTo, ofOptions_unlimited]
  cases Query.ofOptions identifier options with
  | error failure => exact .failed failure
  | ok q =>
    have hroom : ([] : List Value).length < max n 1 :=
      Nat.lt_of_lt_of_le Nat.one_pos (Nat.le_max_right n 1)
    exact capped_collectDocuments hroom (store.documents tree)

/-- A query with a limit finds one entry at least, if there is one. -/
theorem query_limitedTo (h : query store tree identifier (options.erase "limit") = .ok entries) :
    query store tree identifier (options.set "limit" (.int n)) =
      .ok (entries.take (max n 1)) := by
  have hcapped := capped_query store tree identifier options n
  rw [h] at hcapped
  generalize query store tree identifier (options.set "limit" (.int n)) = limited at hcapped ⊢
  cases hcapped
  rfl

/-- A query with a limit finds the first entries of what the same query finds without one, across all
documents: as many as the limit says, but one if it says none. So it keeps to the limit if and only if
that is not zero or there is nothing to find. -/
theorem query_limit_iff
    (h : query store tree identifier (options.erase "limit") = .ok entries) :
    query store tree identifier (options.set "limit" (.int n)) = .ok (entries.take (max n 1)) ∧
      (query store tree identifier (options.set "limit" (.int n)) = .ok (entries.take n) ↔
        n ≠ 0 ∨ entries = []) := by
  have hlimited := query_limitedTo (n := n) h
  refine ⟨hlimited, ?_⟩
  rw [hlimited, Except.ok.injEq]
  cases n with
  | zero => cases entries <;> simp
  | succ n => simp

end Options

/-- Two documents with books, of which the second has two. -/
def bookText (path : String) : String :=
  if path = "a.md" then "- Dune #book\n" else "- Emma #book\n- [x] Ulysses #book\n"

def bookTree : Tree :=
  { root := "/", files := ["a.md", "b.md"].map fun path => ([path], .text (bookText path)) }

/-- The line of a document as a query for books reports it. -/
def bookReport (path : String) (index : Nat) : Value := report path (bookText path) true index

theorem query_book : query {} bookTree "book" [] =
    .ok [bookReport "a.md" 0, bookReport "b.md" 0, bookReport "b.md" 1] := by
  have hplaces : bookTree.places = [["a.md"], ["b.md"]] :=
    List.mergeSort_of_pairwise (by decide)
  have hdocuments : Store.documents {} bookTree = ["a.md", "b.md"] := by
    rw [Store.documents, Store.files, hplaces]
    decide +kernel
  have hreads : ∀ path ∈ ["a.md", "b.md"], Store.read {} bookTree path = .ok (bookText path) := by
    decide +kernel
  have hboundaries : ∀ path ∈ ["a.md", "b.md"],
      ((bookText path).toList.all fun c => !isLineBoundary c || c == '\n') = true := by
    decide +kernel
  have hasked : ∀ path ∈ ["a.md", "b.md"], ((List.range (lines (bookText path)).length).filter
      fun index => isAsked ("#" ++ "book") none ((lines (bookText path)).getD index "")) =
        if path = "a.md" then [0] else [0, 1] := by
    decide +kernel
  have hname : IsTagName "book".toList := ⟨by decide, List.all_eq_true.1 (by decide)⟩
  obtain ⟨q, hq, htag, hmarks, hglob, hlimit, hchildren⟩ :
      ∃ q, Query.ofOptions "book" [] = .ok q ∧ q.tag = "#" ++ "book" ∧
        q.statuses = Option.map Value.list none ∧ q.glob = none ∧ q.limit = none ∧
        q.withChildren = wantsChildren [] :=
    @ofOptions_eq "book" "book" [] none hname (.inl rfl) rfl rfl .absent
  have hrun : q.collectDocuments {} bookTree [] ["a.md", "b.md"] =
      .ok ([] ++ ["a.md", "b.md"].flatMap fun path =>
        reports ("#" ++ "book") none q.withChildren path (bookText path)) := by
    refine collectDocuments_eq hname htag hmarks hglob hlimit (fun path hpath => ?_) []
    refine ⟨hreads path hpath, fun c hc hboundary => ?_⟩
    simpa [hboundary] using List.all_eq_true.1 (hboundaries path hpath) c hc
  rw [List.forall_mem_cons, List.forall_mem_singleton] at hasked
  rw [query, hq]
  refine (congrArg (q.collectDocuments {} bookTree []) hdocuments).trans (hrun.trans ?_)
  rw [hchildren, List.flatMap_cons, List.flatMap_cons, List.flatMap_nil, reports, reports, hasked.1,
    hasked.2]
  rfl

/-- With a limit of two, the first document gives one entry and the second the other. -/
theorem query_limit_iff_book :
    query {} bookTree "book" [] =
        .ok [bookReport "a.md" 0, bookReport "b.md" 0, bookReport "b.md" 1] ∧
      query {} bookTree "book" [(.str "limit", .int 2)] =
        .ok [bookReport "a.md" 0, bookReport "b.md" 0] :=
  ⟨query_book, (@query_limit_iff {} bookTree "book" [] 2 _ query_book).1⟩

/-- With a limit of zero there still is an entry. -/
theorem query_exceeds_limit_zero :
    query {} bookTree "book" [(.str "limit", .int 0)] = .ok [bookReport "a.md" 0] ∧
      query {} bookTree "book" [(.str "limit", .int 0)] ≠ .ok [] := by
  have hlimited := @query_limitedTo {} bookTree "book" [] 0 _ query_book
  refine ⟨hlimited, fun hnone => ?_⟩
  have hempty := Except.ok.inj (hlimited.symm.trans hnone)
  exact List.cons_ne_nil _ _ hempty

end BulletScript.Tasks
