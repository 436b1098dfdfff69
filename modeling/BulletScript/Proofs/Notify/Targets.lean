import BulletScript.Notify.Target
import BulletScript.Proofs.Text.Search
import BulletScript.Proofs.Value.Record
import BulletScript.Settings.Build
import Mathlib.Data.List.Forall2

/-! From the entries of the settings to the targets of notifications. The builder of the settings turns
the keys of an entry into texts, which changes nothing under a name, and checks one address; an entry then
has its target if it also holds what its kind of target is made from. -/
namespace BulletScript

namespace Result

variable {α β : Type}

theorem bind_eq_ok {r : Result α} {f : α → Result β} {b : β} :
    (r >>= f) = .ok b ↔ ∃ a, r = .ok a ∧ f a = .ok b := by
  cases r <;> simp [bind, Except.bind]

theorem exists_ok {r : Result α} (h : r.toBool) : ∃ a, r = .ok a := by
  cases r with
  | error failure => cases h
  | ok a => exact ⟨a, rfl⟩

theorem pure_eq_ok {a b : α} : (pure a : Result α) = .ok b ↔ a = b := by
  simp [pure, Except.pure]

/-- A check refuses what meets its condition and lets all else pass. -/
theorem check_eq_ok {c : Prop} [Decidable c] {failure : Failure} {k : α → Result β} {r : Result β}
    {b : β} : (if c then (.error failure : Result α) >>= k else r) = .ok b ↔ ¬c ∧ r = .ok b := by
  by_cases hc : c
  · rw [if_pos hc]
    refine iff_of_false ?_ fun h => h.1 hc
    intro hok
    cases hok
  · rw [if_neg hc]
    exact (and_iff_right hc).symm

end Result

namespace Settings

open Result

section Built

/-- The fields of a value that is a mapping. -/
def fieldsOf : Value → Record
  | .map entries => entries
  | _ => []

/-- The items of a value that is a list. -/
def itemsOf : Value → List Value
  | .list items => items
  | _ => []

/-- The entries for targets of notifications in a mapping of settings. -/
def targetEntries (v : Value) : List Record :=
  (itemsOf ((fieldsOf ((fieldsOf v).getD "notifications" .null)).getD "targets" .null)).map fieldsOf

/-- What the builder makes of an entry, and the address that it has checked. -/
structure Built (e made : Record) : Prop where
  made_eq : ∃ type, e.get? "type" = some (.str type) ∧
    made = e.named.set "type" (.str (Text.lower (Text.trim type)))
  checked : ∀ url, made.get? "url" = some url → url.isSome → isAddress url = .ok true

variable {e made : Record} {v : Value}

/-- An entry that is accepted is a mapping, and the builder makes of it what it should. -/
theorem built_of_buildTarget {i : Nat} (h : buildTarget i v = .ok made) : Built (fieldsOf v) made := by
  unfold buildTarget at h
  split at h
  · next entries =>
    split at h
    · next type htype =>
      simp only [mustBe, refuse, check_eq_ok] at h
      obtain ⟨-, h⟩ := h
      generalize htarget : Record.set _ "type" (.str (Text.lower (Text.trim type))) = target at h
      obtain ⟨url, hurl⟩ : ∃ url, url = if (target.getD "url" .null).isSome then
          target.getD "url" .null else target.getD "webhook_url" .null := ⟨_, rfl⟩
      rw [← hurl] at h
      have hmade : target = made ∧ (url.isNull = false → isAddress url = .ok true) := by
        split_ifs at h with hnull
        · simp only [bind_eq_ok, check_eq_ok, pure_eq_ok] at h
          obtain ⟨found, hfound, htrue, htarget⟩ := h
          rw [hfound]
          exact ⟨htarget, fun _ => congrArg Except.ok (by simpa using htrue)⟩
        · exact ⟨pure_eq_ok.1 h, fun hsome => absurd hsome (by simpa using hnull)⟩
      obtain ⟨rfl, hchecked⟩ := hmade
      refine ⟨⟨type, htype, htarget.symm⟩, fun address haddress hsome => ?_⟩
      have hgiven : target.getD "url" .null = address := by rw [Record.getD, haddress]; rfl
      rw [hgiven, if_pos hsome] at hurl
      rw [← hurl]
      refine hchecked ?_
      rw [hurl]
      cases address <;> first | rfl | cases hsome
    · cases h
  · cases h

theorem built_of_buildTargets {vs : List Value} {i : Nat} {targets : List Record}
    (h : buildTargets i vs = .ok targets) : List.Forall₂ Built (vs.map fieldsOf) targets := by
  induction vs generalizing i targets with
  | nil =>
    cases h
    exact .nil
  | cons v rest ih =>
    simp only [buildTargets, bind_eq_ok, pure_eq_ok] at h
    obtain ⟨made, hmade, more, hmore, rfl⟩ := h
    exact .cons (built_of_buildTarget hmade) (ih hmore)

theorem section?_eq_ok {field : String} {r : Record} (h : section? field v = .ok r) :
    r = fieldsOf v := by
  cases v <;> cases h <;> rfl

theorem built_of_buildNotifications {notifications : Notifications}
    (h : buildNotifications v = .ok notifications) :
    List.Forall₂ Built ((itemsOf ((fieldsOf v).getD "targets" .null)).map fieldsOf)
      notifications.targets := by
  unfold buildNotifications at h
  simp only [bind_eq_ok] at h
  obtain ⟨r, hr, h⟩ := h
  obtain rfl := section?_eq_ok hr
  have hitems : itemsOf ((fieldsOf v).getD "targets" .null) =
      itemsOf (if ((fieldsOf v).getD "targets" (.list [])).isSome then
        (fieldsOf v).getD "targets" (.list []) else .list []) := by
    rw [Record.getD, Record.getD]
    cases (fieldsOf v).get? "targets" with
    | none => rfl
    | some raw =>
      rw [Option.getD_some, Option.getD_some]
      split_ifs with hsome
      · rfl
      · cases raw with
        | list items =>
          obtain rfl : items = [] := by simpa [Value.isSome] using hsome
          rfl
        | _ => rfl
  rw [hitems]
  split at h
  · next items hlist =>
    simp only [bind_eq_ok, pure_eq_ok] at h
    obtain ⟨entries, rfl, targets, htargets, _, -, rfl⟩ := h
    rw [hlist]
    exact built_of_buildTargets htargets
  · cases h

/-- The settings have what was built of each entry, one after the other. -/
theorem built_of_build {homes : Homes} {base : Files.Path} {settings : BulletScript.Settings}
    (h : build homes base v = .ok settings) :
    List.Forall₂ Built (targetEntries v) settings.notifications.targets := by
  unfold build at h
  simp only [mustBe, refuse, bind_eq_ok, check_eq_ok] at h
  obtain ⟨r, hr, -, root, -, -, h⟩ := h
  obtain rfl := section?_eq_ok hr
  split_ifs at h
  on_goal 2 => obtain ⟨_, -, h⟩ := bind_eq_ok.1 h
  all_goals
    obtain ⟨scriptsFile, -, h⟩ := bind_eq_ok.1 h
    split at h
    · simp only [check_eq_ok, bind_eq_ok, pure_eq_ok] at h
      obtain ⟨-, _, -, _, -, notifications, hbuilt, _, -, rfl⟩ := h
      exact built_of_buildNotifications hbuilt
    · cases h

end Built

end Settings

namespace Notify

open Result Settings Text Engine

section Entries

/-- The kind of target that an entry asks for. -/
def kindOf (e : Record) : String :=
  match e.get? "type" with
  | some (.str type) => lower (trim type)
  | _ => ""

/-- Whether an entry switches its target on. -/
def isOn (e : Record) : Bool := (e.getD "enabled" (.bool true)).isSome

/-- What an entry gives under a name. -/
def given (e : Record) (name : String) : Option Value := (e.get? (.str name)).filter Value.isSome

/-- An entry has the address of a page under one of the two names. -/
def HasAddress (e : Record) : Prop :=
  ∃ name ∈ ["url", "webhook_url"], ∃ s, e.get? (.str name) = some (.str s) ∧ Web.isWebUrl s = .ok true

/-- A text or bytes. -/
def HasCase (v : Value) : Prop := (∃ s, v = .str s) ∨ ∃ data, v = .bytes data

/-- What a post to a web address is made from: the address under its first name, a method that has an
upper case, and headers that can be written. -/
structure IsPostable (e : Record) : Prop where
  url : (given e "url").isSome
  method : HasCase (e.getD "method" (.str "POST"))
  headers : ∀ v, given e "headers" = some v → v.isMap ∧ v.isWritable

/-- The address of a chat, if it is given under its own name, is a text that is not blank. -/
def IsReachable (e : Record) : Prop :=
  ∀ v, given e "webhook_url" = some v → ∃ s, v = .str s ∧ trim s ≠ ""

/-- A target is of the kind that an entry asks for, and on if the entry switches it on. -/
structure Serves (e : Record) (t : Target) : Prop where
  kind : t.sink.name = kindOf e
  enabled : t.enabled = isOn e

/-- The target that is made from an entry of the settings. -/
structure Makes (made : Record) (t : Target) : Prop where
  sink : sinkOf made = .ok (.ok t.sink)
  active : t.active = isOn made

variable {e made : Record}

/-- The names of what a target is made from besides its type. -/
def entryFields : List String := ["url", "webhook_url", "enabled", "method", "headers"]

theorem entryFields_apart : ∀ name ∈ entryFields, isFieldName name = true ∧ name ≠ "type" := by
  decide

theorem get?_made (h : Built e made) (hdistinct : e.Distinct) {name : String}
    (hmem : name ∈ entryFields) : made.get? (.str name) = e.get? (.str name) := by
  obtain ⟨hname, hne⟩ := entryFields_apart name hmem
  obtain ⟨type, -, rfl⟩ := h.made_eq
  rw [Record.get?_set_str, beq_false_of_ne hne.symm, if_neg Bool.false_ne_true,
    Record.get?_named hdistinct hname]

theorem type_made (h : Built e made) : made.get? "type" = some (.str (kindOf e)) := by
  obtain ⟨type, htype, rfl⟩ := h.made_eq
  rw [Record.get?_set_str, beq_self_eq_true, if_pos rfl, kindOf, htype]

end Entries

section Sinks

variable {e made : Record} {u : Value} {sink : Sink}

/-- The address of a page has a colon, so that it is not blank. -/
theorem trim_ne_empty_of_isWebUrl {s : String} (h : Web.isWebUrl s = .ok true) : trim s ≠ "" := by
  intro hblank
  rw [trim_eq_empty_iff_isBlankText, isBlankText, List.all_eq_true] at hblank
  have hscheme {cs : List Char} (hcs : ∀ c ∈ cs, isBlank c = true) : Web.cutScheme cs = ([], cs) := by
    unfold Web.cutScheme
    split
    · next before after hcut =>
      have hcolon := hcs ':' (by rw [cutChars_eq hcut]; simp)
      cases hcolon
    · rfl
  have hurl {url : Web.Url} (hok : Web.Url.ofText s = .ok url) : url.scheme = "" := by
    unfold Web.Url.ofText at hok
    dsimp only at hok
    rw [hscheme fun c hc => hblank c (List.dropWhile_subset _ (List.mem_of_mem_filter hc))] at hok
    dsimp only at hok
    split at hok
    · cases hok
    · cases hok
      rfl
  obtain ⟨url, hok, hweb⟩ := bind_eq_ok.1 h
  rw [hurl hok] at hweb
  cases hweb

/-- An address that was checked can be posted to. -/
theorem ready_of_isAddress (h : isAddress u = .ok true) : (trimmed? u).any (· ≠ "") = true := by
  cases u with
  | str s =>
    simpa [trimmed?] using trim_ne_empty_of_isWebUrl h
  | null => cases h
  | bytes data => cases h
  | _ =>
    simp only [isAddress] at h
    split_ifs at h
    cases h

/-- The headers of the posts to a web address. -/
def postHeaders (made : Record) : Result Record :=
  match given made "headers" with
  | none => .ok []
  | some (.map headers) => do
    (Value.map headers).checkWritable
    return .ofEntries (headers.map fun (k, v) => (.str k.plain, .str v.plain))
  | some v => .error (.internal (.noAttribute v.typeName "items"))

theorem webSink_eq (u : Value) (made : Record) : webSink u made = do
    let method ← upperCase (made.getD "method" (.str "POST"))
    let headers ← postHeaders made
    return .webhook (trimmed? u) method headers (made.getD "template" .null) := by
  unfold webSink postHeaders given
  generalize (made.get? "headers").filter Value.isSome = headers
  cases upperCase (made.getD "method" (.str "POST")) with
  | error failure => rfl
  | ok method =>
    cases headers with
    | none => rfl
    | some v =>
      cases v with
      | map headers =>
        dsimp only
        cases (Value.map headers).checkWritable <;> rfl
      | _ => rfl

/-- There is an upper case of texts and of bytes. -/
theorem exists_upperCase_iff : (∃ method, upperCase u = .ok method) ↔ HasCase u := by
  cases u <;> simp [upperCase, HasCase]

theorem exists_postHeaders_iff : (∃ headers, postHeaders made = .ok headers) ↔
    ∀ v, given made "headers" = some v → v.isMap ∧ v.isWritable := by
  unfold postHeaders
  cases given made "headers" with
  | none => simp
  | some v =>
    cases v with
    | map headers =>
      simp only [bind_eq_ok, pure_eq_ok, Value.checkWritable, Value.isMap, Option.some.injEq]
      cases hwritable : (Value.map headers).isWritable <;> simp [hwritable]
    | _ => simp [Value.isMap]

/-- The sink of a web address is made exactly if the method has an upper case and the headers can be
written. -/
theorem exists_webSink_iff : (∃ sink, webSink u made = .ok sink) ↔
    HasCase (made.getD "method" (.str "POST")) ∧
      ∀ v, given made "headers" = some v → v.isMap ∧ v.isWritable := by
  rw [webSink_eq, ← exists_upperCase_iff, ← exists_postHeaders_iff]
  simp only [bind_eq_ok, pure_eq_ok]
  constructor
  · rintro ⟨_, method, hmethod, headers, hheaders, -⟩
    exact ⟨⟨method, hmethod⟩, headers, hheaders⟩
  · rintro ⟨⟨method, hmethod⟩, headers, hheaders⟩
    exact ⟨_, method, hmethod, headers, hheaders, rfl⟩

theorem webSink_ok (h : webSink u made = .ok sink) :
    sink.name = "webhook" ∧ sink.isReady = (trimmed? u).any (· ≠ "") := by
  simp only [webSink_eq, bind_eq_ok, pure_eq_ok] at h
  obtain ⟨method, -, headers, -, rfl⟩ := h
  exact ⟨rfl, rfl⟩

/-- The sink of an entry of each kind. -/
theorem sinkOf_log (h : made.get? "type" = some (.str "log")) : sinkOf made = .ok (.ok .log) := by
  have hlower : lower "log" = "log" := by decide
  unfold sinkOf
  rw [Record.getD, h]
  simp only [Option.getD_some, Value.plain, hlower]
  rfl

theorem sinkOf_discord (h : made.get? "type" = some (.str "discord"))
    (hu : (given made "webhook_url").or (given made "url") = some u) :
    sinkOf made = .ok (.ok (.discord (trimmed? u) (made.getD "username" .null))) := by
  have hlower : lower "discord" = "discord" := by decide
  unfold given at hu
  unfold sinkOf
  rw [Record.getD, h]
  simp only [Option.getD_some, Value.plain, hlower, hu]
  rfl

theorem sinkOf_webhook (h : made.get? "type" = some (.str "webhook")) :
    sinkOf made = match given made "url" with
      | some u => do return .ok (← webSink u made)
      | none => .ok (.error "Skipped webhook target because url was not provided.") := by
  have hlower : lower "webhook" = "webhook" := by decide
  unfold given sinkOf
  rw [Record.getD, h]
  simp only [Option.getD_some, Value.plain, hlower]
  rfl

end Sinks

section Served

variable {e made : Record} (hbuilt : Built e made) (hdistinct : e.Distinct)

include hbuilt hdistinct

theorem isOn_made : isOn made = isOn e := by
  rw [isOn, isOn, Record.getD, Record.getD,
    get?_made hbuilt hdistinct (by decide : "enabled" ∈ entryFields)]

theorem given_made {name : String} (hmem : name ∈ entryFields) : given made name = given e name := by
  rw [given, given, get?_made hbuilt hdistinct hmem]

/-- An address that the entry gives under the first name was checked. -/
theorem ready_of_given {u : Value} (hu : given e "url" = some u) :
    (trimmed? u).any (· ≠ "") = true := by
  rw [← given_made hbuilt hdistinct (by decide : "url" ∈ entryFields), given,
    Option.filter_eq_some_iff] at hu
  exact ready_of_isAddress (hbuilt.checked u hu.1 hu.2)

omit hbuilt hdistinct in
/-- What the entry gives as the address of a chat, or else as an address. -/
theorem exists_address (haddress : HasAddress e) :
    ∃ u, (given e "webhook_url").or (given e "url") = some u := by
  obtain ⟨name, hname, s, hs, hweb⟩ := haddress
  have hsome : given e name = some (.str s) := by
    have hne : s ≠ "" := by
      rintro rfl
      exact trim_ne_empty_of_isWebUrl hweb rfl
    rw [given, hs, Option.filter_some, if_pos (show (Value.str s).isSome from decide_eq_true hne)]
  cases hchat : given e "webhook_url" with
  | some u => exact ⟨u, rfl⟩
  | none =>
    rcases List.mem_pair.1 hname with rfl | rfl
    · exact ⟨_, by rw [Option.none_or, hsome]⟩
    · rw [hchat] at hsome
      cases hsome

/-- A sink of the right kind serves an entry that is on if it has an address to post to. -/
theorem exists_served_iff {sink : Sink} (hsink : sinkOf made = .ok (.ok sink))
    (hname : sink.name = kindOf e) :
    (∃ t, Makes made t ∧ Serves e t) ↔ (isOn e → sink.isReady) := by
  constructor
  · rintro ⟨t, hmakes, hserves⟩ hon
    obtain rfl : t.sink = sink := by
      have hsame := hmakes.sink.symm.trans hsink
      rwa [Except.ok.injEq, Except.ok.injEq] at hsame
    have henabled := hserves.enabled
    rw [Target.enabled, hmakes.active, isOn_made hbuilt hdistinct, hon, Bool.true_and] at henabled
    exact henabled
  · intro hready
    refine ⟨⟨sink, isOn made⟩, ⟨hsink, rfl⟩, hname, ?_⟩
    rw [Target.enabled, isOn_made hbuilt hdistinct]
    cases hon : isOn e with
    | false => rfl
    | true => rw [hready hon, Bool.true_and]

theorem exists_served_log (hkind : kindOf e = "log") : ∃ t, Makes made t ∧ Serves e t := by
  have htype := type_made hbuilt
  rw [hkind] at htype
  exact (exists_served_iff hbuilt hdistinct (sinkOf_log htype) hkind.symm).2 fun _ => rfl

theorem exists_served_discord_iff (hkind : kindOf e = "discord") (haddress : HasAddress e) :
    (∃ t, Makes made t ∧ Serves e t) ↔ (isOn e → IsReachable e) := by
  obtain ⟨u, hu⟩ := exists_address haddress
  have htype := type_made hbuilt
  rw [hkind] at htype
  have hsink : sinkOf made = .ok (.ok (.discord (trimmed? u) (made.getD "username" .null))) := by
    refine sinkOf_discord htype ?_
    rw [given_made hbuilt hdistinct (by decide),
      given_made hbuilt hdistinct (by decide), hu]
  have hready : (trimmed? u).any (· ≠ "") = true ↔ IsReachable e := by
    unfold IsReachable
    cases hchat : given e "webhook_url" with
    | none =>
      rw [hchat, Option.none_or] at hu
      exact iff_of_true (ready_of_given hbuilt hdistinct hu) nofun
    | some v =>
      rw [hchat, Option.some_or, Option.some.injEq] at hu
      subst hu
      cases v <;> simp [trimmed?]
  rw [exists_served_iff hbuilt hdistinct hsink hkind.symm, ← hready]
  rfl

theorem exists_served_webhook_iff (hkind : kindOf e = "webhook") :
    (∃ t, Makes made t ∧ Serves e t) ↔ IsPostable e := by
  have htype := type_made hbuilt
  rw [hkind] at htype
  have hsink := sinkOf_webhook htype
  have hmethod : made.getD "method" (.str "POST") = e.getD "method" (.str "POST") := by
    rw [Record.getD, Record.getD, get?_made hbuilt hdistinct (by decide)]
  have hheaders := given_made hbuilt hdistinct (by decide : "headers" ∈ entryFields)
  rw [given_made hbuilt hdistinct (by decide)] at hsink
  cases hurl : given e "url" with
  | none =>
    rw [hurl] at hsink
    refine iff_of_false ?_ fun h => ?_
    · rintro ⟨t, hmakes, -⟩
      cases hmakes.sink.symm.trans hsink
    · have hsome := h.url
      rw [hurl] at hsome
      cases hsome
  | some u =>
    rw [hurl] at hsink
    have hready := ready_of_given hbuilt hdistinct hurl
    constructor
    · rintro ⟨t, hmakes, -⟩
      obtain ⟨sink, hweb, -⟩ := bind_eq_ok.1 (hsink.symm.trans hmakes.sink)
      have hfields := exists_webSink_iff.1 ⟨sink, hweb⟩
      rw [hmethod, hheaders] at hfields
      exact ⟨by rw [hurl]; rfl, hfields.1, hfields.2⟩
    · rintro ⟨-, hcase, hwritable⟩
      rw [← hmethod] at hcase
      rw [← hheaders] at hwritable
      obtain ⟨sink, hweb⟩ := (@exists_webSink_iff made u).2 ⟨hcase, hwritable⟩
      obtain ⟨hname, hisReady⟩ := webSink_ok hweb
      refine (exists_served_iff hbuilt hdistinct ?_ (hname.trans hkind.symm)).2 fun _ => ?_
      · rw [hsink]
        dsimp only
        rw [hweb]
        rfl
      · rw [hisReady, hready]

/-- Whether an entry gets the target that it asks for. -/
structure IsServed (e : Record) : Prop where
  posted : kindOf e = "webhook" → IsPostable e
  reached : kindOf e = "discord" → isOn e → IsReachable e

omit hbuilt hdistinct in
theorem isServed_of_log (h : kindOf e = "log") : IsServed e := ⟨by simp [h], by simp [h]⟩

/-- The kinds of targets that there are. -/
def targetKinds : List String := ["log", "webhook", "discord"]

theorem exists_makes_serves_iff (hkind : kindOf e ∈ targetKinds)
    (haddress : kindOf e ≠ "log" → HasAddress e) :
    (∃ t, Makes made t ∧ Serves e t) ↔ IsServed e := by
  rw [targetKinds, List.mem_cons, List.mem_pair] at hkind
  rcases hkind with hlog | hwebhook | hdiscord
  · exact iff_of_true (exists_served_log hbuilt hdistinct hlog) (isServed_of_log hlog)
  · rw [exists_served_webhook_iff hbuilt hdistinct hwebhook]
    exact ⟨fun h => ⟨fun _ => h, by simp [hwebhook]⟩, fun h => h.posted hwebhook⟩
  · have hpage : HasAddress e := haddress (by rw [hdiscord]; decide)
    rw [exists_served_discord_iff hbuilt hdistinct hdiscord hpage]
    exact ⟨fun h => ⟨by simp [hdiscord], fun _ => h⟩, fun h => h.reached hdiscord⟩

end Served

section Service

/-- The targets of made entries, in order; an entry that describes none is passed over. -/
inductive Yields : List Record → List Target → Prop
  | nil : Yields [] []
  | made {entry : Record} {rest : List Record} {t : Target} {ts : List Target} :
      Makes entry t → Yields rest ts → Yields (entry :: rest) (t :: ts)
  | passed {entry : Record} {rest : List Record} {reason : String} {ts : List Target} :
      sinkOf entry = .ok (.error reason) → Yields rest ts → Yields (entry :: rest) ts

variable {e entry : Record} {entries made rest : List Record} {targets ts : List Target} {sink : Sink}
  {world : World}

theorem run_bind {α β : Type} (m : WorldM α) (k : α → WorldM β) (world : World) :
    (m >>= k).run world = match m.run world with
      | (.ok a, after) => (k a).run after
      | (.error failure, after) => (.error failure, after) := by
  rcases h : m.run world with ⟨r, after⟩
  change (ExceptT.bindCont k (m.run world).1) (m.run world).2 = _
  rw [h]
  cases r <;> rfl

theorem run_targetsOf_passed {reason : String} (h : sinkOf entry = .ok (.error reason)) :
    (targetsOf (entry :: rest)).run world =
      (targetsOf rest).run (world.log .warning reason) := by
  rw [targetsOf, h]
  rfl

/-- The target of an entry is put in front of those of the rest, if these can be made. -/
theorem run_targetsOf_made {after : World} {found : Result (List Target)}
    (h : sinkOf entry = .ok (.ok sink)) (hrest : (targetsOf rest).run world = (found, after)) :
    (targetsOf (entry :: rest)).run world =
      (found.map (⟨sink, isOn entry⟩ :: ·), after) := by
  rw [targetsOf, h]
  change (targetsOf rest >>= fun ts => pure (⟨sink, isOn entry⟩ :: ts)).run world = _
  rw [run_bind, hrest]
  cases found <;> rfl

/-- The targets come out exactly as the entries yield them, whatever is logged on the way. -/
theorem run_targetsOf_iff :
    (∃ after, (targetsOf made).run world = (.ok targets, after)) ↔ Yields made targets := by
  induction made generalizing world targets with
  | nil =>
    constructor
    · rintro ⟨after, hrun⟩
      cases hrun
      exact .nil
    · intro h
      cases h
      exact ⟨world, rfl⟩
  | cons entry rest ih =>
    constructor
    · rintro ⟨after, hrun⟩
      rcases hsink : sinkOf entry with failure | reason | sink
      · rw [targetsOf, hsink] at hrun
        cases hrun
      · rw [run_targetsOf_passed hsink] at hrun
        exact .passed hsink (ih.1 ⟨after, hrun⟩)
      · rcases hrest : (targetsOf rest).run world with ⟨failure | ts, after'⟩
        · rw [run_targetsOf_made hsink hrest] at hrun
          cases hrun
        · rw [run_targetsOf_made hsink hrest] at hrun
          cases hrun
          exact .made ⟨hsink, rfl⟩ (ih.1 ⟨_, hrest⟩)
    · intro h
      cases h with
      | @made _ _ t ts hmakes hrest =>
        obtain ⟨after, hrun⟩ : ∃ after, (targetsOf rest).run world = (.ok ts, after) :=
          ih.2 hrest
        refine ⟨after, ?_⟩
        rw [run_targetsOf_made hmakes.sink hrun, ← hmakes.active]
        rfl
      | passed hsink hrest =>
        rw [run_targetsOf_passed hsink]
        exact ih.2 hrest

theorem Yields.length_le (h : Yields made targets) : targets.length ≤ made.length := by
  induction h with
  | nil => exact Nat.le_refl 0
  | made _ _ ih => exact Nat.succ_le_succ ih
  | passed _ _ ih => exact Nat.le_succ_of_le ih

/-- As many targets as entries are one of each entry. -/
theorem yields_iff_of_length (hlength : targets.length = made.length) :
    Yields made targets ↔ List.Forall₂ Makes made targets := by
  constructor
  · intro h
    induction h with
    | nil => exact .nil
    | made hmakes _ ih => exact .cons hmakes (ih (Nat.succ.inj hlength))
    | passed _ hrest =>
      have hle := hrest.length_le
      rw [List.length_cons] at hlength
      omega
  · intro h
    induction h with
    | nil => exact .nil
    | cons hmakes _ ih => exact .made hmakes (ih (Nat.succ.inj hlength))

theorem run_serviceTargets_iff {settings : Settings.Notifications} {found : List Target} :
    (∃ after, (serviceTargets settings).run world = (.ok found, after)) ↔
      ∃ ts, Yields settings.targets ts ∧ withLog ts = found := by
  have hrun := run_bind (targetsOf settings.targets) (fun ts => pure (withLog ts)) world
  rw [serviceTargets, hrun]
  constructor
  · rintro ⟨after, hfound⟩
    split at hfound
    · next ts after' hts =>
      cases hfound
      exact ⟨ts, run_targetsOf_iff.1 ⟨_, hts⟩, rfl⟩
    · cases hfound
  · rintro ⟨ts, hyields, rfl⟩
    obtain ⟨after, hts⟩ := run_targetsOf_iff.2 hyields
    rw [hts]
    exact ⟨after, rfl⟩

theorem map_of_serves (h : List.Forall₂ Serves entries targets) :
    targets.map (fun t => (t.sink.name, t.enabled)) = entries.map fun e => (kindOf e, isOn e) := by
  induction h with
  | nil => rfl
  | cons hserve _ ih => rw [List.map_cons, List.map_cons, ih, hserve.kind, hserve.enabled]

/-- Entry by entry, what was made of it becomes a target that serves it. -/
theorem exists_targets_iff (hbuilt : List.Forall₂ Built entries made)
    (hdistinct : ∀ e ∈ entries, e.Distinct) (hkinds : ∀ e ∈ entries, kindOf e ∈ targetKinds)
    (haddresses : ∀ e ∈ entries, kindOf e ≠ "log" → HasAddress e) :
    (∃ targets, List.Forall₂ Makes made targets ∧ List.Forall₂ Serves entries targets) ↔
      ∀ e ∈ entries, IsServed e := by
  induction hbuilt with
  | nil => exact iff_of_true ⟨[], .nil, .nil⟩ nofun
  | @cons e entry entries made he _ ih =>
    rw [List.forall_mem_cons] at hdistinct hkinds haddresses ⊢
    rw [← exists_makes_serves_iff he hdistinct.1 hkinds.1 haddresses.1,
      ← ih hdistinct.2 hkinds.2 haddresses.2]
    constructor
    · rintro ⟨targets, hmakes, hserves⟩
      cases hmakes with
      | cons hmake hmakes =>
        cases hserves with
        | cons hserve hserves => exact ⟨⟨_, hmake, hserve⟩, _, hmakes, hserves⟩
    · rintro ⟨⟨t, hmake, hserve⟩, targets, hmakes, hserves⟩
      exact ⟨t :: targets, .cons hmake hmakes, .cons hserve hserves⟩

/-- The log that stands in for no target serves no entry but one that asks for the log. -/
theorem isLog_of_withLog_eq (hserves : List.Forall₂ Serves entries targets) (hne : ts ≠ targets)
    (h : withLog ts = withLog targets) : ∀ e ∈ entries, kindOf e = "log" := by
  cases hserves with
  | nil => nofun
  | @cons e t entries targets hserve hrest =>
    cases ts with
    | nil =>
      obtain ⟨rfl, rfl⟩ : ⟨.log, true⟩ = t ∧ [] = targets := List.cons.inj h
      cases hrest
      intro e' he'
      rw [List.mem_singleton.1 he']
      exact hserve.kind.symm
    | cons t' ts => exact absurd h hne

/-- A service that is made from settings that were accepted has one target for each of their entries, in
order, of its kind and on or off as it says, exactly if each entry for a web address holds what a post is
made from, and each entry for a chat that is on names no blank address. Without entries there is the
log. -/
theorem one_target_each_iff {homes : Homes} {base : Files.Path} {v : Value}
    {settings : BulletScript.Settings} (hbuild : build homes base v = .ok settings)
    (hdistinct : ∀ e ∈ targetEntries v, e.Distinct)
    (hkinds : ∀ e ∈ targetEntries v, kindOf e ∈ targetKinds)
    (haddresses : ∀ e ∈ targetEntries v, kindOf e ≠ "log" → HasAddress e) (world : World) :
    (∃ targets after,
      (serviceTargets settings.notifications).run world = (.ok (withLog targets), after) ∧
        List.Forall₂ Serves (targetEntries v) targets) ↔
      ∀ e ∈ targetEntries v, IsServed e := by
  have hbuilt := built_of_build hbuild
  have hall := exists_targets_iff hbuilt hdistinct hkinds haddresses
  rw [← hall]
  constructor
  · rintro ⟨targets, after, hrun, hserves⟩
    obtain ⟨found, hyields, hfound⟩ := run_serviceTargets_iff.1 ⟨after, hrun⟩
    have hlength : targets.length = settings.notifications.targets.length :=
      hserves.length_eq.symm.trans hbuilt.length_eq
    by_cases hsame : found = targets
    · rw [hsame] at hyields
      exact ⟨targets, (yields_iff_of_length hlength).1 hyields, hserves⟩
    · have hlog := isLog_of_withLog_eq hserves hsame hfound
      exact hall.2 fun e he => isServed_of_log (hlog e he)
  · rintro ⟨targets, hmakes, hserves⟩
    obtain ⟨after, hrun⟩ := run_serviceTargets_iff.2
      ⟨targets, (yields_iff_of_length hmakes.length_eq.symm).2 hmakes, rfl⟩
    exact ⟨targets, after, hrun, hserves⟩

/-- The entries of the settings with these targets. -/
def settingsWith (entries : List Record) : Value :=
  .map [("notifications", .map [("targets", .list (entries.map .map))])]

theorem targetEntries_settingsWith (entries : List Record) :
    targetEntries (settingsWith entries) = entries := by
  change (entries.map Value.map).map fieldsOf = entries
  rw [List.map_map]
  exact List.map_id' entries

/-- A post that is switched off, a chat, and the log. -/
def threeEntries : List Record :=
  [[("type", .str " Webhook"), ("url", .str "https://hooks.test/x"), ("method", .str "put"),
      ("enabled", .bool false)],
    [("type", .str "discord"), ("webhook_url", .str "http://chat.test/y")],
    [("type", .str "LOG")]]

theorem one_target_each_three : ∃ settings,
    build {} ⟨"/", []⟩ (settingsWith threeEntries) = .ok settings ∧ ∀ world, ∃ targets after,
      (serviceTargets settings.notifications).run world = (.ok (withLog targets), after) ∧
        targets.map (fun t => (t.sink.name, t.enabled)) =
          [("webhook", false), ("discord", true), ("log", true)] := by
  have haccepted : (build {} ⟨"/", []⟩ (settingsWith threeEntries)).toBool := by decide +kernel
  obtain ⟨settings, hbuild⟩ := exists_ok haccepted
  have hentries := targetEntries_settingsWith threeEntries
  have hdistinct : ∀ e ∈ threeEntries, e.Distinct := by
    simp [threeEntries, Record.Distinct]
  have hkinds : threeEntries.map kindOf = ["webhook", "discord", "log"] := by decide +kernel
  have haddresses : ∀ e ∈ threeEntries, kindOf e ≠ "log" → HasAddress e := by
    simp only [threeEntries, List.forall_mem_cons]
    refine ⟨fun _ => ?_, fun _ => ?_, fun h => absurd ?_ h, nofun⟩
    · exact ⟨"url", by decide, "https://hooks.test/x", rfl, by decide +kernel⟩
    · exact ⟨"webhook_url", by decide, "http://chat.test/y", rfl, by decide +kernel⟩
    · decide +kernel
  have hserved : ∀ e ∈ threeEntries, IsServed e := by
    simp only [threeEntries, List.forall_mem_cons]
    refine ⟨⟨fun _ => ⟨rfl, .inl ⟨"put", rfl⟩, ?_⟩, fun h => absurd h (by decide +kernel)⟩,
      ⟨fun h => absurd h (by decide +kernel), ?_⟩, isServed_of_log (by decide +kernel), nofun⟩
    · rintro v ⟨⟩
    · rintro - - v ⟨⟩
      exact ⟨_, rfl, by decide +kernel⟩
  refine ⟨settings, hbuild, fun world => ?_⟩
  obtain ⟨targets, after, hrun, hserves⟩ := (one_target_each_iff hbuild (by rwa [hentries])
    (by rw [hentries, ← List.forall_mem_map, hkinds]; decide) (by rwa [hentries]) world).2
    (by rwa [hentries])
  rw [hentries] at hserves
  refine ⟨targets, after, hrun, ?_⟩
  rw [map_of_serves hserves]
  decide +kernel

/-- An entry for the log that is switched off, and one for a post with its address under the second
name. -/
def secondName : List Record :=
  [[("type", .str "log"), ("enabled", .bool false)],
    [("type", .str "webhook"), ("webhook_url", .str "https://hooks.test/x")]]

theorem webhook_url_passed_over : ∃ settings,
    build {} ⟨"/", []⟩ (settingsWith secondName) = .ok settings ∧
      (∀ e ∈ secondName, e.Distinct ∧ kindOf e ∈ targetKinds ∧ (kindOf e ≠ "log" → HasAddress e)) ∧
      ∀ world, ∃ after,
        (serviceTargets settings.notifications).run world = (.ok [⟨.log, false⟩], after) := by
  have haccepted : (build {} ⟨"/", []⟩ (settingsWith secondName)).toBool := by decide +kernel
  obtain ⟨settings, hbuild⟩ := exists_ok haccepted
  have hentries : ∀ e ∈ secondName,
      e.Distinct ∧ kindOf e ∈ targetKinds ∧ (kindOf e ≠ "log" → HasAddress e) := by
    simp only [secondName, List.forall_mem_cons]
    refine ⟨⟨?_, by decide +kernel, fun h => absurd ?_ h⟩, ⟨?_, by decide +kernel, fun _ => ?_⟩, nofun⟩
    · simp [Record.Distinct]
    · decide +kernel
    · simp [Record.Distinct]
    · exact ⟨"webhook_url", by decide, "https://hooks.test/x", rfl, by decide +kernel⟩
  refine ⟨settings, hbuild, hentries, fun world => ?_⟩
  have hbuilt := built_of_build hbuild
  rw [targetEntries_settingsWith] at hbuilt
  generalize settings.notifications = notifications at hbuilt ⊢
  rcases notifications with ⟨made, duration⟩
  cases hbuilt with
  | @cons _ first _ _ hfirst hrest =>
    cases hrest with
    | @cons _ second _ _ hsecond hnil =>
      cases hnil
      have hlog : sinkOf first = .ok (.ok .log) := sinkOf_log (type_made hfirst)
      have hpassed : ∃ reason, sinkOf second = .ok (.error reason) := by
        rw [sinkOf_webhook (type_made hsecond),
          given_made hsecond (hentries _ (by simp [secondName])).1 (by decide)]
        exact ⟨_, rfl⟩
      obtain ⟨reason, hreason⟩ := hpassed
      have hoff := isOn_made hfirst (hentries _ (by simp [secondName])).1
      refine run_serviceTargets_iff.2 ⟨_, .made ⟨hlog, ?_⟩ (.passed hreason .nil), rfl⟩
      rw [hoff]
      rfl

end Service


end Notify

end BulletScript
