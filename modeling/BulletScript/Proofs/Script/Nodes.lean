import BulletScript.Proofs.Script.Head

/-! Options are found by their names, and a step is read as it is written. -/
namespace BulletScript.Script

open Text Outline Written

variable {head : Head} {record : Record} {name : String} {keyword : Keyword}
  {options : List (String × String)}

section Options

/-- A word is read as it is. -/
theorem isPhrase_of_isKey {s : String} (h : isKey s = true) : IsPhrase s := by
  obtain ⟨c, cs, heq, hc, hcs⟩ := exists_of_isKey h
  have hblank := isBlank_of_mem_key h
  have hunbroken : ∀ x ∈ s.toList, isLineBoundary x = false :=
    fun x hx => isLineBoundary_of_not_isBlank (hblank x hx)
  have hlast : s.toList.getLast? = some (s.toList.getLast (by simp [heq])) :=
    List.getLast?_eq_some_getLast _
  refine ⟨?_, ?_, fun hquote => ?_⟩
  · rintro rfl
    cases heq
  · exact plainText_of_ends (by rw [heq]; rfl) hlast (hblank c (by simp [heq]))
      (hblank _ (List.getLast_mem _)) hunbroken
  · have hchar : isKeyChar '\x60' = true := by
      rw [heq] at hquote
      rcases List.mem_cons.1 hquote with rfl | hquote
      · exact isKeyChar_of_startsKey hc
      · exact hcs _ hquote
    exact absurd hchar (by decide)

/-- The options that an action can have on its line, in their order. -/
def optionNames : Keyword → List String
  | .log => ["level"]
  | .set => ["value", "pattern", "in"]
  | .match => ["in"]
  | .extract => ["from", "as"]
  | .validate => ["message"]
  | .foreach => ["as", "index"]
  | _ => []

theorem nodup_optionNames (keyword : Keyword) : (keyword.text :: optionNames keyword).Nodup := by
  cases keyword <;> decide

theorem isKey_of_mem_optionNames (keyword : Keyword) :
    (optionNames keyword).all isKey = true := by
  cases keyword <;> decide

theorem isOptions_of_sublist (h : (options.map (·.1)).Sublist (optionNames keyword))
    (hphrases : ∀ e ∈ options, IsPhrase e.2) : IsOptions keyword.text options where
  keys e he := List.all_eq_true.1 (isKey_of_mem_optionNames keyword) e.1
    (h.subset (List.mem_map_of_mem he))
  phrases := hphrases
  nodup := (h.cons_cons keyword.text).nodup (nodup_optionNames keyword)

theorem keys_option (key : String) (p : Option Phrase) :
    ((option key p).map (·.1)).Sublist [key] := by
  cases p with
  | none => exact List.nil_sublist _
  | some p => exact List.Sublist.refl _

theorem isPhrase_of_mem_option {key : String} {p : Option Phrase} :
    ∀ e ∈ option key p, IsPhrase e.2 := by
  cases p with
  | none => exact List.forall_mem_nil _
  | some p => exact fun e he => List.mem_singleton.1 he ▸ p.isPhrase

theorem lookup_option_self (key : String) (p : Option Phrase) :
    (option key p).lookup key = p.map (·.text) := by
  cases p <;> simp [option]

theorem lookup_option_of_ne {key name : String} (h : name ≠ key) (p : Option Phrase) :
    (option key p).lookup name = none := by
  cases p <;> simp [option, h]

theorem given_eq (p : Option Phrase) : given p = (p.map (·.text)).map .str := by
  cases p <;> rfl

theorem isOptions_two (p q : Option Phrase) {first second : String}
    (h : optionNames keyword = [first, second]) :
    IsOptions keyword.text (option first p ++ option second q) := by
  refine isOptions_of_sublist ?_
    (List.forall_mem_append.2 ⟨isPhrase_of_mem_option, isPhrase_of_mem_option⟩)
  rw [h, List.map_append]
  exact (keys_option first p).append (keys_option second q)

theorem isOptions_one (p : Option Phrase) {name : String} (h : optionNames keyword = [name]) :
    IsOptions keyword.text (option name p) :=
  isOptions_of_sublist (h ▸ keys_option name p) isPhrase_of_mem_option

theorem isOptions_nil (keyword : Keyword) : IsOptions keyword.text [] :=
  isOptions_of_sublist (List.nil_sublist _) (List.forall_mem_nil _)

theorem isOptions_loop (itemName indexName : Option Phrase) :
    IsOptions (Keyword.text .foreach) (option "as" itemName ++ option "index" indexName) :=
  isOptions_two itemName indexName rfl

theorem isKey_level (level : LogLevel) : isKey level.text = true := by
  cases level <;> decide

/-- The options of a step are such options. -/
theorem Written.Leaf.isOptions (leaf : Leaf) : IsOptions leaf.keyword.text leaf.options := by
  cases leaf with
  | log _ level =>
    cases level with
    | none => exact isOptions_nil .log
    | some level => exact isOptions_one (some ⟨_, isPhrase_of_isKey (isKey_level level)⟩) rfl
  | set _ value pattern source =>
    have hrest := (keys_option "pattern" pattern).append (keys_option "in" source)
    rw [← List.map_append] at hrest
    exact isOptions_of_sublist (hrest.cons_cons "value") (List.forall_mem_cons.2 ⟨value.isPhrase,
      List.forall_mem_append.2 ⟨isPhrase_of_mem_option, isPhrase_of_mem_option⟩⟩)
  | «match» _ source => exact isOptions_one source rfl
  | extract _ source storeAs => exact isOptions_two source storeAs rfl
  | validate _ message => exact isOptions_one message rfl
  | delay => exact isOptions_nil .delay
  | «return» => exact isOptions_nil .return

theorem lookup_map {α β : Type} (f : α → β) (entries : List (String × α)) (name : String) :
    (entries.map fun e => (e.1, f e.2)).lookup name = (entries.lookup name).map f := by
  induction entries with
  | nil => rfl
  | cons e rest ih =>
    rw [List.map_cons, List.lookup_cons, List.lookup_cons, ih]
    split <;> rfl

theorem get?_update_optionRecord (h : (options.map (·.1)).Nodup) (record : Record) (name : String) :
    (record.update (optionRecord options)).get? name =
      ((options.lookup name).map .str).or (record.get? name) := by
  let entries : List (String × Value) := options.map fun e => (e.1, .str e.2)
  have hentries : entries.map (fun e => ((.str e.1 : Key), e.2)) = optionRecord options := by
    simp [entries, optionRecord]
  have hnodup : (entries.map (·.1)).Nodup := by simpa [entries, Function.comp_def] using h
  rw [← hentries, Record.get?_update_str hnodup, lookup_map]

/-- An option is what is written on the line, if the lines below say nothing about it. -/
theorem get?_of_options (h : IsOptions keyword.text options)
    (hhead : head.options = record.update (optionRecord options))
    (hrecord : record.get? name = none) :
    head.options.get? name = (options.lookup name).map .str := by
  rw [hhead, get?_update_optionRecord (List.nodup_cons.1 h.nodup).2, hrecord, Option.or_none]

theorem given?_of_options (h : IsOptions keyword.text options)
    (hhead : head.options = record.update (optionRecord options))
    (hrecord : record.get? name = none) :
    head.given? name = (options.lookup name).map .str := by
  rw [Head.given?, get?_of_options h hhead hrecord]
  cases hlookup : options.lookup name with
  | none => rfl
  | some s =>
    obtain ⟨before, behind, rfl, -⟩ := List.lookup_eq_some_iff.1 hlookup
    have hs : s ≠ "" := (h.phrases (name, s) (by simp)).nonempty
    simp [Option.filter, Value.isSome, hs]

theorem givenOr_of_options (h : IsOptions keyword.text options)
    (hhead : head.options = record.update (optionRecord options))
    (hrecord : record.get? name = none) (fallback : String) :
    head.givenOr name fallback = ((options.lookup name).map .str).getD (.str fallback) := by
  rw [Head.givenOr, given?_of_options h hhead hrecord]

/-- The variables of a loop are named on its line. -/
theorem names_of_loop (itemName indexName : Option Phrase)
    (hhead : head.options =
      record.update (optionRecord (option "as" itemName ++ option "index" indexName)))
    (hitem : record.get? "as" = none) (hindex : record.get? "index" = none) :
    head.givenOr "as" "item" = givenOr itemName "item" ∧
      head.given? "index" = given indexName := by
  have hoptions := isOptions_loop itemName indexName
  constructor
  · rw [givenOr_of_options hoptions hhead hitem, givenOr, given_eq]
    simp [List.lookup_append, lookup_option_self, lookup_option_of_ne]
  · rw [given?_of_options hoptions hhead hindex, given_eq]
    simp [List.lookup_append, lookup_option_self, lookup_option_of_ne]

end Options

section Steps

theorem lower_level (level : LogLevel) : lower level.text = level.text := by
  cases level <;> decide

theorem readChoice_level (level : LogLevel) :
    readChoice "level" LogLevel.all LogLevel.text (.str level.text) = .ok level := by
  cases level <;> decide

/-- A step is read from its value and the options on its line. -/
theorem stepOf_leaf (leaf : Leaf) (hkeyword : head.keyword = leaf.keyword)
    (hvalue : head.value = (leaf.main.map (·.text)).getD "")
    (hoptions : head.options = Record.update [] (optionRecord leaf.options)) :
    stepOf head = .ok leaf.step := by
  have hget (name : String) : head.options.get? name = (leaf.options.lookup name).map .str :=
    get?_of_options leaf.isOptions hoptions rfl
  have hgiven (name : String) : head.given? name = (leaf.options.lookup name).map .str :=
    given?_of_options leaf.isOptions hoptions rfl
  have hgivenOr (name fallback : String) :
      head.givenOr name fallback = ((leaf.options.lookup name).map .str).getD (.str fallback) :=
    givenOr_of_options leaf.isOptions hoptions rfl fallback
  have hmain (p : Phrase) (hmain : leaf.main = some p) (what : String) :
      head.required what = .ok p.text := by
    rw [Head.required, hvalue, hmain]
    exact if_neg p.isPhrase.nonempty
  unfold stepOf
  rw [hkeyword]
  cases leaf with
  | log message level =>
    have hlevel : head.givenOr "level" "info" = .str (level.getD .info).text := by
      rw [hgivenOr]
      cases level <;> rfl
    simp only [Leaf.keyword, hlevel, Value.plain, lower_level, readChoice_level]
    rw [hvalue]
    rfl
  | set name value pattern source =>
    have hset : head.options.getD "value" (.str "") = .str value.text := by
      rw [Record.getD, hget]
      rfl
    have hpattern : head.given? "pattern" = given pattern := by
      rw [hgiven, given_eq]
      simp [Leaf.options, List.lookup_append, List.lookup_cons, lookup_option_self,
        lookup_option_of_ne]
    have hsource : head.givenOr "in" lineTemplate = givenOr source lineTemplate := by
      rw [hgivenOr, givenOr, given_eq]
      simp [Leaf.options, List.lookup_append, List.lookup_cons, lookup_option_self,
        lookup_option_of_ne]
    simp only [Leaf.keyword, hmain name rfl, hset, hpattern, hsource]
    rfl
  | «match» pattern source =>
    have hsource : head.givenOr "in" lineTemplate = givenOr source lineTemplate := by
      rw [hgivenOr, givenOr, given_eq, Leaf.options, lookup_option_self]
    simp only [Leaf.keyword, hsource]
    rw [hvalue]
    rfl
  | extract pattern source storeAs =>
    have hsource : head.givenOr "from" lineTemplate = givenOr source lineTemplate := by
      rw [hgivenOr, givenOr, given_eq]
      simp [Leaf.options, List.lookup_append, lookup_option_self, lookup_option_of_ne]
    have hstoreAs : head.givenOr "as" "matches" = givenOr storeAs "matches" := by
      rw [hgivenOr, givenOr, given_eq]
      simp [Leaf.options, List.lookup_append, lookup_option_self, lookup_option_of_ne]
    simp only [Leaf.keyword, hmain pattern rfl, hsource, hstoreAs]
    rfl
  | validate condition message =>
    have hmessage : head.given? "message" = given message := by
      rw [hgiven, given_eq, Leaf.options, lookup_option_self]
    simp only [Leaf.keyword, hmain condition rfl, hmessage]
    rfl
  | delay duration =>
    simp only [Leaf.keyword, hmain duration rfl]
    rfl
  | «return» value =>
    simp only [Leaf.keyword]
    rw [hvalue]
    cases value with
    | none => rfl
    | some value =>
      have hnonempty : nonEmpty? value.text = some value.text := if_neg value.isPhrase.nonempty
      simp only [Leaf.main, Option.map_some, Option.getD_some, hnonempty]
      rfl

end Steps

end BulletScript.Script

/-! Actions are read from their outlines, however deeply they are nested. What the children of an
action mean depends on their keys alone, and an action has the key of its keyword: it is never taken
for a block or for the name of a variable. -/
namespace BulletScript.Script

open Text Outline Written

variable {key : String} {xs rest : List Item} {item : Item}

section Reader

/-- Without such items there is no such entry. -/
theorem get?_blockRecord (h : ∀ x ∈ xs, hasKey key x = false) (record : Record) :
    (blockRecord record xs).get? key = record.get? key := by
  induction xs generalizing record with
  | nil => rw [blockRecord]
  | cons x xs ih =>
    have hx := h x (by simp)
    have hxs : ∀ x ∈ xs, hasKey key x = false := fun x hx => h x (List.mem_cons_of_mem _ hx)
    rw [blockRecord]
    split
    · next found value hfound =>
      have hne : found ≠ key := by simpa [hasKey, hfound] using hx
      rw [ih hxs, Record.get?_set_str, if_neg (by simpa using hne)]
    · exact ih hxs record

theorem readHandler_append (h : ∀ x ∈ xs, hasKey "onError" x = false) (handler : List Action) :
    readHandler handler (xs ++ rest) = readHandler handler rest := by
  induction xs with
  | nil => rfl
  | cons x xs ih =>
    obtain ⟨text, children, line⟩ := x
    rw [List.cons_append, readHandler, if_neg (by simp [h ⟨text, children, line⟩ (by simp)])]
    exact ih fun x hx => h x (List.mem_cons_of_mem _ hx)

/-- Items before the `else` of a branch are its actions. -/
theorem readBranches_append (herror : ∀ x ∈ xs, hasKey "onError" x = false)
    (helse : ∀ x ∈ xs, hasKey "else" x = false) :
    readBranches false (xs ++ rest) = (do
      let actions ← readActions xs
      let (yes, no) ← readBranches false rest
      return (actions ++ yes, no)) := by
  induction xs with
  | nil => simp [readActions]
  | cons x xs ih =>
    obtain ⟨text, children, line⟩ := x
    have hrest := ih (fun x hx => herror x (List.mem_cons_of_mem _ hx))
      fun x hx => helse x (List.mem_cons_of_mem _ hx)
    rw [List.cons_append, readBranches, if_neg (by simp [herror ⟨text, children, line⟩ (by simp)]),
      if_neg (by simp [helse ⟨text, children, line⟩ (by simp)]), hrest, readActions]
    simp

/-- The items of a loop that neither handle failures nor name variables are its actions. -/
theorem readBody_append (herror : ∀ x ∈ xs, hasKey "onError" x = false)
    (hname : ∀ x ∈ xs, namesVariable x = false) :
    readBody (xs ++ rest) = (do
      let actions ← readActions xs
      let others ← readBody rest
      return actions ++ others) := by
  induction xs with
  | nil => simp [readActions]
  | cons x xs ih =>
    obtain ⟨text, children, line⟩ := x
    have hrest := ih (fun x hx => herror x (List.mem_cons_of_mem _ hx))
      fun x hx => hname x (List.mem_cons_of_mem _ hx)
    rw [List.cons_append, readBody, if_neg (by simp [herror ⟨text, children, line⟩ (by simp),
      hname ⟨text, children, line⟩ (by simp)]), hrest, readActions]
    simp only [bind_assoc, pure_bind, List.append_assoc]

/-- An action with the options on its line and below it. -/
def headWith (keyword : Keyword) (value : String) (pairs : Record) (children : List Item) : Head :=
  let regular := children.filter (!hasKey "onError" ·)
  ⟨keyword, value, (blockRecord [] regular).update pairs, regular⟩

variable {text value : String} {children : List Item} {line : Option Nat} {keyword : Keyword}
  {pairs : Record} {handler yes no body : List Action} {leaf : Step}

theorem readAction_step (hhead : headOf text line = .ok (keyword, value, pairs))
    (hhandler : readHandler [] children = pure handler) (hif : keyword ≠ .if)
    (hforeach : keyword ≠ .foreach)
    (hstep : stepOf (headWith keyword value pairs children) = .ok leaf) :
    readAction ⟨text, children, line⟩ = pure (some (.step leaf handler line)) := by
  rw [readAction, hhead]
  dsimp only
  rw [hhandler, pure_bind]
  split
  · exact absurd rfl hif
  · exact absurd rfl hforeach
  · rw [← headWith, hstep]

theorem readAction_branch (hhead : headOf text line = .ok (.if, value, pairs))
    (hhandler : readHandler [] children = pure handler)
    (hbranches : readBranches false children = pure (yes, no)) :
    readAction ⟨text, children, line⟩ = pure (some (.branch value yes no handler line)) := by
  rw [readAction, hhead]
  dsimp only
  rw [hhandler, pure_bind, hbranches, pure_bind]

theorem readAction_loop (hhead : headOf text line = .ok (.foreach, value, pairs))
    (hhandler : readHandler [] children = pure handler)
    (hbody : readBody children = pure body) (hvalue : value ≠ "") :
    readAction ⟨text, children, line⟩ = pure (some (.loop value
      ((headWith .foreach value pairs children).givenOr "as" "item")
      ((headWith .foreach value pairs children).given? "index") body handler line)) := by
  have hitems : (headWith .foreach value pairs children).required "an items variable" =
      .ok value := if_neg hvalue
  rw [readAction, hhead]
  dsimp only
  rw [hhandler, pure_bind, ← headWith, hitems]
  dsimp only
  rw [hbody, pure_bind]

end Reader

section Items

theorem numbered_append (n : Nat) (xs ys : List Item) :
    numbered n (xs ++ ys) = numbered n xs ++ numbered (n + (preorder xs).length) ys := by
  induction xs generalizing n with
  | nil => rfl
  | cons x xs ih =>
    rw [List.cons_append, numbered, numbered, preorder, ih, List.length_append, Nat.add_assoc]
    rfl

theorem text_numbered (n : Nat) (item : Item) : (item.numbered n).text = item.text := by
  cases item
  rfl

theorem hasKey_of_keyValue? {value : String} (h : keyValue? item.text = some (key, value))
    (name : String) : hasKey name item = decide (key = name) := by
  simp [hasKey, h]

theorem exists_headText (node : Node) : ∃ keyword main options,
    IsOptions (Keyword.text keyword) options ∧ node.item.text = headText keyword main options := by
  cases node with
  | leaf leaf onError => exact ⟨leaf.keyword, leaf.main, leaf.options, leaf.isOptions, rfl⟩
  | branch condition yes no onError => exact ⟨.if, condition, [], isOptions_nil .if, rfl⟩
  | loop target itemName indexName body onError =>
    exact ⟨.foreach, target, _, isOptions_loop itemName indexName, rfl⟩

/-- An action has its keyword as a key and no other. -/
theorem hasKey_node (h : Keyword.ofText? key = none) (node : Node) (n : Nat) :
    hasKey key (node.item.numbered n) = false := by
  obtain ⟨keyword, main, options, hoptions, htext⟩ := exists_headText node
  obtain ⟨value, hvalue⟩ := keyValue?_headText hoptions main
  rw [hasKey_of_keyValue? (by rw [text_numbered, htext, hvalue]), decide_eq_false_iff_not]
  rintro rfl
  cases (ofText?_text keyword).symm.trans h

theorem exists_node_of_mem (nodes : List Node) (n : Nat) :
    ∀ item ∈ numbered n (items nodes), ∃ (node : Node) (m : Nat), item = node.item.numbered m := by
  induction nodes generalizing n with
  | nil => exact List.forall_mem_nil _
  | cons node nodes ih =>
    rw [items, numbered]
    exact List.forall_mem_cons.2 ⟨⟨node, n, rfl⟩, ih _⟩

theorem hasKey_items (h : Keyword.ofText? key = none) (nodes : List Node) (n : Nat) :
    ∀ item ∈ numbered n (items nodes), hasKey key item = false := by
  intro item hitem
  obtain ⟨node, m, rfl⟩ := exists_node_of_mem nodes n item hitem
  exact hasKey_node h node m

theorem hasKey_block (hkey : isKey key = true) (name : String) (children : List Item)
    (line : Option Nat) : hasKey name ⟨key ++ ":", children, line⟩ = decide (key = name) := by
  have htext : (key ++ ":").toList = key.toList ++ ':' :: [] := by simp
  rw [hasKey, keyValue?_eq_some (plainText_key hkey) hkey htext]
  rfl

/-- A block is empty, or one item with its key. -/
theorem numbered_block (key : String) (xs : List Item) (n : Nat) :
    xs = [] ∧ numbered n (block key xs) = [] ∨
      numbered n (block key xs) = [⟨key ++ ":", numbered (n + 1) xs, some n⟩] := by
  cases xs with
  | nil => exact .inl ⟨rfl, rfl⟩
  | cons x xs => exact .inr rfl

theorem readHandler_block (xs : List Item) (n : Nat) :
    readHandler [] (numbered n (block "onError" xs)) = readActions (numbered (n + 1) xs) := by
  obtain ⟨rfl, hblock⟩ | hblock := numbered_block "onError" xs n
  · rw [hblock]
    rfl
  · rw [hblock, readHandler, if_pos (by rw [hasKey_block (by decide)]; rfl)]
    simp [readHandler]

theorem readBody_block (xs : List Item) (n : Nat) :
    readBody (numbered n (block "onError" xs)) = pure [] := by
  obtain ⟨rfl, hblock⟩ | hblock := numbered_block "onError" xs n
  · rw [hblock]
    rfl
  · rw [hblock, readBody, if_pos (by rw [hasKey_block (by decide)]; rfl)]
    rfl

theorem readBranches_blocks (inElse : Bool) (xs ys : List Item) (n m : Nat) :
    readBranches inElse (numbered n (block "else" xs) ++ numbered m (block "onError" ys)) = (do
      let no ← readActions (numbered (n + 1) xs)
      return ([], no)) := by
  have herror (inElse : Bool) :
      readBranches inElse (numbered m (block "onError" ys)) = pure ([], []) := by
    obtain ⟨-, hblock⟩ | hblock := numbered_block "onError" ys m
    · rw [hblock]
      rfl
    · rw [hblock, readBranches, if_pos (by rw [hasKey_block (by decide)]; rfl)]
      rfl
  obtain ⟨rfl, hblock⟩ | hblock := numbered_block "else" xs n
  · rw [hblock, List.nil_append, herror]
    rfl
  · rw [hblock, List.singleton_append, readBranches,
      if_neg (by rw [hasKey_block (by decide)]; decide),
      if_pos (by rw [hasKey_block (by decide)]; rfl), herror]
    simp

end Items

section Reading

theorem Written.Leaf.options_of_main (leaf : Leaf) (h : leaf.main = none) : leaf.options = [] := by
  cases leaf with
  | «return» => rfl
  | _ => cases h

theorem Written.Leaf.keyword_ne (leaf : Leaf) : leaf.keyword ≠ .if ∧ leaf.keyword ≠ .foreach := by
  cases leaf <;> simp [Leaf.keyword]

theorem filter_block (xs : List Item) (n : Nat) :
    (numbered n (block "onError" xs)).filter (!hasKey "onError" ·) = [] := by
  obtain ⟨-, hblock⟩ | hblock := numbered_block "onError" xs n
  · rw [hblock]
    rfl
  · rw [hblock, List.filter_cons_of_neg (by rw [hasKey_block (by decide)]; decide)]
    rfl

theorem hasKey_block_of_ne {name : String} (hkey : isKey key = true) (hne : key ≠ name)
    (xs : List Item) (n : Nat) :
    ∀ item ∈ numbered n (block key xs), hasKey name item = false := by
  obtain ⟨-, hblock⟩ | hblock := numbered_block key xs n
  · rw [hblock]
    exact List.forall_mem_nil _
  · rw [hblock, List.forall_mem_singleton, hasKey_block hkey, decide_eq_false_iff_not]
    exact hne

/-- Nothing below a loop names its variables. -/
theorem names_of_items (value : String) (itemName indexName : Option Phrase)
    (body onError : List Node) (n : Nat) :
    let head := headWith .foreach value
      (optionRecord (option "as" itemName ++ option "index" indexName))
      (numbered n (items body ++ block "onError" (items onError)))
    head.givenOr "as" "item" = givenOr itemName "item" ∧
      head.given? "index" = given indexName := by
  have hunnamed (name : String) (hname : Keyword.ofText? name = none) (hne : "onError" ≠ name) :
      (blockRecord [] ((numbered n (items body ++ block "onError" (items onError))).filter
        (!hasKey "onError" ·))).get? name = none := by
    refine get?_blockRecord (fun item hitem => ?_) []
    have hmem := (List.mem_filter.1 hitem).1
    rw [numbered_append] at hmem
    rcases List.mem_append.1 hmem with hmem | hmem
    · exact hasKey_items hname body _ item hmem
    · exact hasKey_block_of_ne (by decide) hne _ _ item hmem
  exact names_of_loop itemName indexName rfl (hunnamed "as" (by decide) (by decide))
    (hunnamed "index" (by decide) (by decide))

/-- The items are read as these actions, without a warning. -/
def ReadsAs (items : List Item) (actions : List Action) : Prop :=
  ∃ read, readActions items = pure read ∧ bareActions read = actions

-- The first line is general, since a block begins below however many lines stand before it.
mutual

theorem reads_node (n : Nat) : ∀ node : Node, ∃ action,
    readAction (node.item.numbered n) = pure (some action) ∧ action.bare = node.action
  | .leaf leaf onError => by
    obtain ⟨handler, hhandler, hbare⟩ := reads_nodes (n + 1 + 1) onError
    rw [← readHandler_block] at hhandler
    refine ⟨.step leaf.step handler (some n), ?_, by rw [Action.bare, hbare]; rfl⟩
    have hhead := headOf_headText leaf.isOptions leaf.main leaf.options_of_main (some n)
    refine readAction_step hhead hhandler leaf.keyword_ne.1 leaf.keyword_ne.2 ?_
    rw [headWith, filter_block]
    exact stepOf_leaf leaf rfl rfl rfl
  | .branch condition yes no onError => by
    obtain ⟨first, hfirst, hyes⟩ := reads_nodes (n + 1) yes
    obtain ⟨second, hsecond, hno⟩ := reads_nodes (n + 1 + (preorder (items yes)).length + 1) no
    obtain ⟨handler, hhandler, herror⟩ := reads_nodes
      (n + 1 + (preorder (items yes ++ block "else" (items no))).length + 1) onError
    refine ⟨.branch condition.text first second handler (some n), ?_,
      by rw [Action.bare, hyes, hno, herror]; rfl⟩
    have hhead := headOf_headText (isOptions_nil .if) (some condition) (fun h => nomatch h) (some n)
    refine readAction_branch hhead ?_ ?_
    · rw [numbered_append, numbered_append, List.append_assoc,
        readHandler_append (hasKey_items (by decide) yes _),
        readHandler_append (hasKey_block_of_ne (by decide) (by decide) _ _), readHandler_block,
        hhandler]
    · rw [numbered_append, numbered_append, List.append_assoc,
        readBranches_append (hasKey_items (by decide) yes _) (hasKey_items (by decide) yes _),
        hfirst, readBranches_blocks, hsecond]
      simp
  | .loop target itemName indexName body onError => by
    obtain ⟨inner, hinner, hbody⟩ := reads_nodes (n + 1) body
    obtain ⟨handler, hhandler, herror⟩ := reads_nodes (n + 1 + (preorder (items body)).length + 1)
      onError
    refine ⟨.loop target.text (givenOr itemName "item") (given indexName) inner handler (some n), ?_,
      by rw [Action.bare, hbody, herror]; rfl⟩
    have hhead := headOf_headText (isOptions_loop itemName indexName) (some target)
      (fun h => nomatch h) (some n)
    obtain ⟨hitemName, hindexName⟩ :=
      names_of_items target.text itemName indexName body onError (n + 1)
    rw [← hitemName, ← hindexName]
    refine readAction_loop hhead ?_ ?_ target.isPhrase.nonempty
    · rw [numbered_append, readHandler_append (hasKey_items (by decide) body _), readHandler_block,
        hhandler]
    · rw [numbered_append, readBody_append (hasKey_items (by decide) body _) ?_, hinner,
        readBody_block]
      · simp
      · intro item hitem
        have hitemKey : hasKey "as" item = false := hasKey_items (by decide) body _ item hitem
        have hindexKey : hasKey "index" item = false := hasKey_items (by decide) body _ item hitem
        simp [namesVariable, hitemKey, hindexKey]

theorem reads_nodes (n : Nat) : ∀ nodes : List Node,
    ReadsAs (numbered n (items nodes)) (actions nodes)
  | [] => ⟨[], rfl, rfl⟩
  | node :: rest => by
    obtain ⟨action, haction, hbare⟩ := reads_node n node
    obtain ⟨others, hothers, hrest⟩ := reads_nodes (n + node.item.preorder.length) rest
    refine ⟨action :: others, ?_, by rw [bareActions, hbare, hrest]; rfl⟩
    rw [items, numbered, readActions, haction, hothers]
    rfl

end

end Reading

end BulletScript.Script
