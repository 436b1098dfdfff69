import BulletScript.Proofs.Outline.Descendants
import BulletScript.Proofs.Text.Search
import BulletScript.Proofs.Text.Word
import BulletScript.Tasks.Query

/-! Tags in a text, and the lines that a query for one finds. A tag that is looked for is found exactly
where it is one of the tags that are read from the text from left to right, each as long as it can be.
Without a limit, a query finds all list lines of all documents that have the tag and, if status marks
are asked for, one of these. -/
namespace BulletScript.Tasks

open Text Outline Files Documents

section Tags

/-- What a tag is called: one or more of the characters of tags. -/
def IsTagName (name : List Char) : Prop := name ≠ [] ∧ ∀ c ∈ name, isTagChar c = true

variable {name cs rest : List Char} {before : Option Char} {c : Char}

theorem isBlank_of_isTagChar (h : isTagChar c = true) : isBlank c = false := by
  simp only [isTagChar, Bool.or_eq_true, decide_eq_true_eq] at h
  rcases h with (h | rfl) | rfl
  · exact isBlank_of_isWord h
  · decide
  · decide

theorem ne_number_sign_of_isTagChar (h : isTagChar c = true) : c ≠ '#' := by
  rintro rfl
  exact absurd h (by decide)

theorem drop_length_takeWhile (cs : List Char) :
    cs.drop (cs.takeWhile isTagChar).length = cs.dropWhile isTagChar := by
  have hdrop : (cs.takeWhile isTagChar ++ cs.dropWhile isTagChar).drop
      (cs.takeWhile isTagChar).length = cs.dropWhile isTagChar := List.drop_left
  rwa [List.takeWhile_append_dropWhile] at hdrop

/-- At a number sign a tag is found if it is all that can be read of a tag there. -/
theorem isPrefixOf_and_ends_iff (hname : ∀ c ∈ name, isTagChar c = true) :
    (('#' :: name).isPrefixOf ('#' :: rest) &&
        !(('#' :: rest).drop ('#' :: name).length).head?.any isTagChar) = true ↔
      rest.takeWhile isTagChar = name := by
  rw [Bool.and_eq_true, List.isPrefixOf_iff_prefix, List.prefix_cons_inj, List.length_cons,
    List.drop_succ_cons, Bool.not_eq_true']
  constructor
  · rintro ⟨⟨after, rfl⟩, hends⟩
    rw [List.drop_left, Option.any_eq_false] at hends
    have hspan := span_append (p := isTagChar) hname fun d hd => by simpa using hends d hd
    rw [List.span_eq_takeWhile_dropWhile] at hspan
    exact congrArg Prod.fst hspan
  · rintro rfl
    refine ⟨List.takeWhile_prefix _, ?_⟩
    rw [drop_length_takeWhile]
    have hnot := List.head?_dropWhile_not isTagChar rest
    cases hhead : (rest.dropWhile isTagChar).head? with
    | none => rfl
    | some d => simpa [hhead] using hnot

/-- Where no number sign stands, no tag is found. -/
theorem hasTagAfter_append (hcs : '#' ∉ cs) :
    hasTagAfter ('#' :: name) before (cs ++ rest) =
      hasTagAfter ('#' :: name) (cs.getLast?.or before) rest := by
  induction cs generalizing before with
  | nil => rfl
  | cons c cs ih =>
    rw [List.mem_cons, not_or] at hcs
    have hhead : ('#' :: name).isPrefixOf (c :: (cs ++ rest)) = false := by
      simp [List.isPrefixOf, hcs.1]
    rw [List.cons_append, hasTagAfter, hhead, Bool.and_false, Bool.false_and, Bool.false_or,
      ih hcs.2]
    congr 1
    cases cs with
    | nil => rfl
    | cons d cs => simp [List.getLast?_cons]

/-- A tag is found in a text if it is one of its tags. -/
theorem hasTagAfter_iff (h : IsTagName name) :
    hasTagAfter ('#' :: name) before cs = true ↔ '#' :: name ∈ tagsAfter before cs := by
  fun_induction tagsAfter before cs with
  | case1 before => simp [hasTagAfter]
  | case2 before c rest found hfound ih =>
    simp only [Bool.and_eq_true, decide_eq_true_eq] at hfound
    obtain ⟨⟨rfl, hfree⟩, hfound⟩ := hfound
    have hsign : '#' ∉ found := fun hmem =>
      ne_number_sign_of_isTagChar (List.mem_takeWhile_imp hmem) rfl
    have hlast : found.getLast?.or (some '#') = found.getLast? := by
      cases hcases : found.getLast? with
      | none => simp [List.getLast?_eq_none_iff.1 hcases] at hfound
      | some d => rfl
    have hbehind : hasTagAfter ('#' :: name) (some '#') rest =
        hasTagAfter ('#' :: name) found.getLast? (rest.drop found.length) := by
      have hskip : hasTagAfter ('#' :: name) (some '#') (found ++ rest.dropWhile isTagChar) =
          hasTagAfter ('#' :: name) (found.getLast?.or (some '#')) (rest.dropWhile isTagChar) :=
        hasTagAfter_append hsign
      rwa [hlast, List.takeWhile_append_dropWhile, ← drop_length_takeWhile] at hskip
    rw [hasTagAfter, Bool.or_eq_true, Bool.and_assoc, Bool.and_eq_true, isPrefixOf_and_ends_iff h.2,
      hbehind, ih, List.mem_cons, List.cons.injEq]
    simp [hfree, eq_comm, found]
  | case3 before c rest found hfound ih =>
    -- Here starts no tag: not at this character, not behind the one before, or not without a name.
    have hhere : (!before.any blocksTag && ('#' :: name).isPrefixOf (c :: rest) &&
        !((c :: rest).drop ('#' :: name).length).head?.any isTagChar) = false := by
      rw [Bool.eq_false_iff]
      intro hhere
      rw [Bool.and_assoc, Bool.and_eq_true] at hhere
      obtain ⟨hfree, hhere⟩ := hhere
      obtain rfl : c = '#' := by
        have hprefix := List.isPrefixOf_iff_prefix.1 (Bool.and_eq_true_iff.1 hhere).1
        exact (List.cons_prefix_cons.1 hprefix).1.symm
      have hname : found = name := (isPrefixOf_and_ends_iff h.2).1 hhere
      exact hfound (by simp [hfree, hname, h.1])
    rw [hasTagAfter, hhere, Bool.false_or, ih]

end Tags

/-- The status marks that an option asks for, if it asks for any. -/
inductive Requests : Option Value → Option (List Value) → Prop
  | absent : Requests none none
  | null : Requests (some .null) none
  | one (mark : String) : Requests (some (.str mark)) (some [.str mark])
  | several (marks : List Value) : Requests (some (.list marks)) (some marks)

def markValue : Option Char → Value
  | some mark => .str mark.toString
  | none => .null

/-- Whether a line is asked for: a list line with the tag among its tags and one of the marks. -/
def isAsked (tag : String) (marks : Option (List Value)) (line : String) : Bool :=
  let parsed := ListLine.ofText line
  parsed.bullet.isSome && (findTags parsed.content).contains tag &&
    marks.all fun marks => marks.any (markValue parsed.status).same

/-- The contents of the lines below a line in the outline of a document. -/
def contentsBelow (text : String) (index : Nat) : List String :=
  (descendants (ofText text) index).map fun n =>
    (ListLine.ofText ((lines text).getD n "")).content

/-- What is reported of a line. -/
def report (path text : String) (withChildren : Bool) (index : Nat) : Value :=
  let parsed := ListLine.ofText ((lines text).getD index "")
  .map ([(.str "text", .str parsed.content), (.str "path", .str path), (.str "line", .int index),
      (.str "status", markValue parsed.status),
      (.str "tags", .list ((findTags parsed.content).map .str))] ++
    if withChildren then [(.str "children", .list ((contentsBelow text index).map .str))] else [])

/-- The reports of a document, one for each line that is asked for. -/
def reports (tag : String) (marks : Option (List Value)) (withChildren : Bool)
    (path text : String) : List Value :=
  ((List.range (lines text).length).filter fun index =>
    isAsked tag marks ((lines text).getD index "")).map (report path text withChildren)

/-- Whether options leave the lines below those found switched on. -/
def wantsChildren (options : Record) : Bool :=
  let children := options.getD "children" (.bool true)
  !(children.same (.bool false) || children.same (.str "false"))

section Identifier

variable {identifier name : String}

theorem trim_of_isTagName (h : IsTagName name.toList) :
    trim name = name ∧ trim ("#" ++ name) = "#" ++ name := by
  have hblank : ∀ c ∈ '#' :: name.toList, isBlank c = false :=
    List.forall_mem_cons.2 ⟨by decide, fun c hc => isBlank_of_isTagChar (h.2 c hc)⟩
  have htrim {s : String} (hs : s.toList ⊆ '#' :: name.toList) : trim s = s := by
    rw [trim, trimChars_eq_self_iff.2, String.ofList_toList]
    exact ⟨fun c hc => hblank c (hs (List.mem_of_mem_head? hc)),
      fun c hc => hblank c (hs (List.mem_of_getLast? hc))⟩
  exact ⟨htrim (List.subset_cons_self ..), htrim (by simp)⟩

theorem tagOfIdentifier_eq (h : IsTagName name.toList)
    (hidentifier : identifier = name ∨ identifier = "#" ++ name) :
    tagOfIdentifier identifier = .ok ("#" ++ name) := by
  obtain ⟨hplain, hsigned⟩ := trim_of_isTagName h
  rcases hidentifier with rfl | rfl
  · have hsign : startsWith "#" identifier = false := by
      obtain ⟨c, rest, hname⟩ := List.exists_cons_of_ne_nil h.1
      have hc : c ≠ '#' := ne_number_sign_of_isTagChar (h.2 c (by simp [hname]))
      simp [startsWith, hname, List.isPrefixOf, hc.symm]
    have hne : identifier ≠ "" := fun heq => h.1 (by simp [heq])
    simp [tagOfIdentifier, hplain, hsign, hne]
  · have hsign : startsWith "#" ("#" ++ name) = true := by simp [startsWith]
    have hne : "#" ++ name ≠ "" := fun heq => by simpa using congrArg String.toList heq
    simp [tagOfIdentifier, hsigned, hsign, hne]

end Identifier

section Entries

variable {q : Query} {name : String} {marks : Option (List Value)} {path text : String}

theorem acceptsStatus_marks (marks : Option (List Value)) (status : Option Char) :
    acceptsStatus (marks.map .list) status =
      .ok (marks.all fun marks => marks.any (markValue status).same) := by
  cases marks <;> cases status <;> rfl

theorem hasTagAfter_eq_contains (h : IsTagName name.toList) (content : String) :
    hasTagAfter ("#" ++ name).toList none content.toList =
      (findTags content).contains ("#" ++ name) := by
  have hmem : "#" ++ name ∈ findTags content ↔
      '#' :: name.toList ∈ tagsAfter none content.toList := by
    rw [findTags, List.mem_map]
    constructor
    · rintro ⟨cs, hcs, heq⟩
      obtain rfl : cs = '#' :: name.toList := by simpa using congrArg String.toList heq
      exact hcs
    · exact fun hcs => ⟨_, hcs, String.toList_injective (by simp)⟩
  rw [Bool.eq_iff_iff, List.contains_iff_mem, hmem, ← hasTagAfter_iff h]
  simp

/-- The lines with text of a block are those below its line in the outline of the document. -/
theorem contentsBelow_eq (hlines : ∀ c ∈ text.toList, isLineBoundary c = true → c = '\n')
    {index : Nat} (h : (ListLine.ofText ((lines text).getD index "")).bullet.isSome = true) :
    ((((lines text).take (blockEnd (lines text) index + 1)).drop (index + 1)).filter
      (!isBlankText ·)).map (fun line => (ListLine.ofText line).content) =
        contentsBelow text index := by
  obtain ⟨bullet, hbullet⟩ := Option.isSome_iff_exists.1 h
  have hblock : ((lines text).take (blockEnd (lines text) index + 1)).drop (index + 1) =
      blockBelow (lines text) index := by
    rw [blockBelow, List.drop_take, blockEnd]
    congr 1
    omega
  rw [hblock, ← map_descendants hlines (not_isBlankText_of_bullet hbullet), List.map_map]
  rfl

theorem entry?_eq (hname : IsTagName name.toList) (htag : q.tag = "#" ++ name)
    (hmarks : q.statuses = marks.map .list)
    (hlines : ∀ c ∈ text.toList, isLineBoundary c = true → c = '\n') (index : Nat) :
    q.entry? path (lines text) index = .ok
      (if isAsked ("#" ++ name) marks ((lines text).getD index "") then
        some (report path text q.withChildren index) else none) := by
  have hfinds := hasTagAfter_eq_contains hname (ListLine.ofText ((lines text).getD index "")).content
  have haccepts := acceptsStatus_marks marks (ListLine.ofText ((lines text).getD index "")).status
  rw [← htag] at hfinds
  rw [← hmarks] at haccepts
  unfold Query.entry?
  dsimp only
  rw [hfinds, haccepts, htag]
  cases hbullet : (ListLine.ofText ((lines text).getD index "")).bullet with
  | none =>
    simp only [isAsked, hbullet]
    rfl
  | some bullet =>
    have hbelow := congrArg (List.map Value.str)
      (contentsBelow_eq hlines (Option.isSome_iff_exists.2 ⟨bullet, hbullet⟩))
    rw [List.map_map] at hbelow
    cases hcontains : (findTags (ListLine.ofText ((lines text).getD index "")).content).contains
        ("#" ++ name) with
    | false =>
      simp only [isAsked, hbullet, hcontains]
      rfl
    | true =>
      cases hmark : marks.all fun marks =>
          marks.any (markValue (ListLine.ofText ((lines text).getD index "")).status).same with
      | false =>
        simp only [isAsked, hbullet, hcontains, hmark]
        rfl
      | true =>
        simp only [isAsked, hbullet, hcontains, hmark, report, ← hbelow]
        rfl

/-- Without a limit, all lines are looked at. -/
theorem collectLines_eq {ls : List String} {asked : Nat → Bool} {reported : Nat → Value}
    (hlimit : q.limit = none) (hentry : ∀ index, q.entry? path ls index =
      .ok (if asked index then some (reported index) else none)) (found : List Value)
    (indices : List Nat) : q.collectLines path ls found indices =
      .ok (found ++ (indices.filter asked).map reported, false) := by
  induction indices generalizing found with
  | nil => simp [Query.collectLines]
  | cons index rest ih =>
    rw [Query.collectLines, hentry]
    cases hasked : asked index with
    | false => simp [bind, Except.bind, ih, hasked]
    | true => simp [bind, Except.bind, ih, hasked, Query.isFull, hlimit]

theorem collectDocuments_eq {store : Store} {tree : Tree} {text : String → String}
    (hname : IsTagName name.toList) (htag : q.tag = "#" ++ name)
    (hmarks : q.statuses = marks.map .list) (hglob : q.glob = none) (hlimit : q.limit = none)
    {paths : List String} (hpaths : ∀ path ∈ paths, store.read tree path = .ok (text path) ∧
      ∀ c ∈ (text path).toList, isLineBoundary c = true → c = '\n') (found : List Value) :
    q.collectDocuments store tree found paths = .ok (found ++ paths.flatMap fun path =>
      reports ("#" ++ name) marks q.withChildren path (text path)) := by
  induction paths generalizing found with
  | nil => simp [Query.collectDocuments]
  | cons path rest ih =>
    rw [List.forall_mem_cons] at hpaths
    obtain ⟨⟨hread, hlines⟩, hrest⟩ := hpaths
    have hdocument : q.collectLines path (lines (text path)) found
        (List.range (lines (text path)).length) =
          .ok (found ++ reports ("#" ++ name) marks q.withChildren path (text path), false) :=
      collectLines_eq hlimit (entry?_eq hname htag hmarks hlines) found _
    rw [Query.collectDocuments, hglob, hread]
    simp [bind, Except.bind, hdocument, ih hrest]

end Entries

section Queries

variable {store : Store} {tree : Tree} {identifier name : String} {options : Record}
  {marks : Option (List Value)} {text : String → String}

theorem filter_of_all_isNull {v? : Option Value} (h : v?.all Value.isNull = true) :
    v?.filter (!·.isNull) = none := by
  cases v? with
  | none => rfl
  | some v => simpa using h

/-- What a query without a path and a limit asks for. -/
theorem ofOptions_eq (hname : IsTagName name.toList)
    (hidentifier : identifier = name ∨ identifier = "#" ++ name)
    (hpath : (options.get? "path").all Value.isNull = true)
    (hlimit : (options.get? "limit").all Value.isNull = true)
    (hstatus : Requests (options.get? "status") marks) :
    ∃ q, Query.ofOptions identifier options = .ok q ∧ q.tag = "#" ++ name ∧
      q.statuses = marks.map .list ∧ q.glob = none ∧ q.limit = none ∧
        q.withChildren = wantsChildren options := by
  rw [Query.ofOptions, tagOfIdentifier_eq hname hidentifier]
  refine ⟨_, rfl, rfl, ?_, ?_, filter_of_all_isNull hlimit, rfl⟩
  · dsimp only
    generalize options.get? (.str "status") = status at hstatus
    cases hstatus <;> rfl
  · dsimp only
    rw [filter_of_all_isNull hpath]
    rfl

/-- A query by a tag, without a path and a limit, finds in each document, one after the other, all
list lines that have the tag among their tags, and one of the marks if marks are asked for. With each
it reports, unless this is switched off, the contents of the lines below it in the outline of the
document. -/
theorem query_finds_tagged (hname : IsTagName name.toList)
    (hidentifier : identifier = name ∨ identifier = "#" ++ name)
    (hpath : (options.get? "path").all Value.isNull = true)
    (hlimit : (options.get? "limit").all Value.isNull = true)
    (hstatus : Requests (options.get? "status") marks)
    (hread : ∀ path ∈ store.documents tree, store.read tree path = .ok (text path) ∧
      ∀ c ∈ (text path).toList, isLineBoundary c = true → c = '\n') :
    (do (← Query.ofOptions identifier options).run store tree) =
      .ok ((store.documents tree).flatMap fun path =>
        reports ("#" ++ name) marks (wantsChildren options) path (text path)) := by
  obtain ⟨q, hq, htag, hmarks, hglob, hnolimit, hchildren⟩ :=
    ofOptions_eq hname hidentifier hpath hlimit hstatus
  have hrun := collectDocuments_eq hname htag hmarks hglob hnolimit hread []
  rw [hq, ← hchildren]
  exact hrun

end Queries

/-- Two documents with lines that name a trip, one of them only as part of other tags. -/
def tripText (path : String) : String :=
  if path = "a.md" then "- [x] Book #trip/sea #trip\n  - by rail\n\n    at noon\n- [ ] Pack #trip\n"
  else "* [!] Call, #trip!\n- [x] #trips ##trip\n"

def tripTree : Tree :=
  { root := "/", files := ["a.md", "b.md"].map fun path => ([path], .text (tripText path)) }

def tripOptions : Record := [(.str "status", .list [.str "x", .str "!"])]

theorem query_finds_tagged_trip :
    (do (← Query.ofOptions "#trip" tripOptions).run {} tripTree) =
        .ok [report "a.md" (tripText "a.md") true 0, report "b.md" (tripText "b.md") true 0] ∧
      contentsBelow (tripText "a.md") 0 = ["by rail", "at noon"] := by
  have hplaces : tripTree.places = [["a.md"], ["b.md"]] :=
    List.mergeSort_of_pairwise (by decide)
  have hdocuments : Store.documents {} tripTree = ["a.md", "b.md"] := by
    rw [Store.documents, Store.files, hplaces]
    decide +kernel
  have hread : ∀ path ∈ Store.documents {} tripTree,
      Store.read {} tripTree path = .ok (tripText path) ∧
        ∀ c ∈ (tripText path).toList, isLineBoundary c = true → c = '\n' := by
    have hreads : ∀ path ∈ ["a.md", "b.md"], Store.read {} tripTree path = .ok (tripText path) := by
      decide +kernel
    have hboundaries : ∀ path ∈ ["a.md", "b.md"],
        ((tripText path).toList.all fun c => !isLineBoundary c || c == '\n') = true := by
      decide +kernel
    rw [hdocuments]
    refine fun path hpath => ⟨hreads path hpath, fun c hc hboundary => ?_⟩
    simpa [hboundary] using List.all_eq_true.1 (hboundaries path hpath) c hc
  have htrip : IsTagName "trip".toList := ⟨by decide, List.all_eq_true.1 (by decide)⟩
  have hfound : (do (← Query.ofOptions "#trip" tripOptions).run {} tripTree) =
      .ok ((Store.documents {} tripTree).flatMap fun path =>
        reports "#trip" (some [.str "x", .str "!"]) true path (tripText path)) :=
    query_finds_tagged htrip (.inr rfl) rfl rfl (.several _) hread
  have hasked : ∀ path ∈ ["a.md", "b.md"], ((List.range (lines (tripText path)).length).filter
      fun index => isAsked "#trip" (some [.str "x", .str "!"])
        ((lines (tripText path)).getD index "")) = [0] := by
    decide +kernel
  rw [List.forall_mem_cons, List.forall_mem_singleton] at hasked
  refine ⟨?_, by decide +kernel⟩
  rw [hfound, hdocuments, List.flatMap_cons, List.flatMap_cons, List.flatMap_nil, reports, reports,
    hasked.1, hasked.2]
  rfl

end BulletScript.Tasks
