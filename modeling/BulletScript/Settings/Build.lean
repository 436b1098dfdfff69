import BulletScript.Files.Path
import BulletScript.Settings.Basic
import BulletScript.Text.Blank
import BulletScript.Text.Case
import BulletScript.Value.Literal
import BulletScript.Value.Whole
import BulletScript.Web.Url

/-! Settings made from a mapping, each field checked. -/
namespace BulletScript.Settings

open Files

def refuse {α : Type} (message : String) : Result α := .error (.internal (.badValue message))

/-- The name of a field between quotes, and what it must be. -/
def mustBe {α : Type} (field rule : String) : Result α :=
  refuse ("'" ++ field ++ "' must be " ++ rule)

/-- A part of the settings; one that is missing is empty. -/
def section? (field : String) : Value → Result Record
  | .null => .ok []
  | .map entries => .ok entries
  | _ => mustBe field "provided as a mapping when specified"

/-- Whether a failure says that a value has no number. -/
def isMisfit : InternalFault → Bool
  | .badType _ | .badValue _ | .notInt _ | .tooManyDigits _ | .number .nanToInt => true
  | _ => false

/-- A number by a reader; a value that has none is refused. -/
def numberBy {α : Type} (read : Value → Result α) (field rule : String) (v : Value) : Result α :=
  match read v with
  | .error (.internal fault) =>
    if isMisfit fault then mustBe field rule else .error (.internal fault)
  | r => r

def positive (field : String) (v : Value) : Result Float := do
  let x ← numberBy Value.toFloat field "a number" v
  if x ≤ 0 then mustBe field "greater than 0"
  return x

def nonNegative (field : String) (v : Value) : Result Int := do
  let n ← numberBy Value.whole field "an integer" v
  if n < 0 then mustBe field "greater than or equal to 0"
  return n

def buildHttp (v : Value) : Result Http := do
  let r ← section? "http" v
  match r.getD "user_agent" (.str ({} : Http).userAgent) with
  | .str agent =>
    if Text.isBlankText agent then mustBe "http.user_agent" "a non-empty string"
    let timeout ← positive "http.timeout" (r.getD "timeout" (.float ({} : Http).timeout))
    return { timeout, userAgent := Text.trim agent }
  | _ => mustBe "http.user_agent" "a non-empty string"

def buildShell (v : Value) : Result Shell := do
  let r ← section? "shell" v
  let usual : Shell := {}
  let maxOutput ← nonNegative "shell.max_output" (r.getD "max_output" (.int usual.maxOutput))
  if maxOutput = 0 then mustBe "shell.max_output" "greater than 0"
  let timeout ← positive "shell.timeout" (r.getD "timeout" (.float usual.timeout))
  let enabled := (r.getD "enabled" (.bool true)).isSome
  return { enabled, timeout, maxOutput := maxOutput.toNat }

/-- Whether a value is the address of a web page. -/
def isAddress (v : Value) : Result Bool :=
  match v with
  | .str s => Web.isWebUrl s
  | .bytes _ => .ok false
  | v => if v.isSome then .error (.internal (.noAttribute v.typeName "decode")) else .ok false

/-- A target of notifications with its type in lower case and its address checked. -/
def buildTarget (index : Nat) : Value → Result Record
  | .map entries => do
    match Record.get? entries "type" with
    | some (.str type) =>
      if !entries.all (·.1.isWritable) then .error (.internal .tooLongToWrite)
      let named : Record :=
        Record.ofEntries (entries.map fun (key, v) => (.str key.plain, v))
      let target := named.set "type" (.str (Text.lower (Text.trim type)))
      let url := target.getD "url" .null
      let url := if url.isSome then url else target.getD "webhook_url" .null
      if !url.isNull then
        if !(← isAddress url) then
          mustBe ("notifications.targets[" ++ toString index ++ "].url")
            ("a valid http/https URL, got: " ++ url.plain)
      return target
    | _ => refuse "Notification target entries must include a string 'type'"
  | _ => refuse "Each entry in 'notifications.targets' must be a mapping"

def buildTargets (index : Nat) : List Value → Result (List Record)
  | [] => .ok []
  | v :: rest => do
    let target ← buildTarget index v
    return target :: (← buildTargets (index + 1) rest)

def buildNotifications (v : Value) : Result Notifications := do
  let r ← section? "notifications" v
  let raw := r.getD "targets" (.list [])
  let entries ← match if raw.isSome then raw else .list [] with
    | .list entries => pure entries
    | _ => mustBe "notifications.targets" "provided as a list when specified"
  let targets ← buildTargets 0 entries
  let duration ← nonNegative "notifications.default_duration_ms"
    (r.getD "default_duration_ms" (.int ({} : Notifications).defaultDurationMs))
  return { targets, defaultDurationMs := duration }

def buildConnector (v : Value) : Result Connector := do
  let r ← section? "connector" v
  match r.getD "error_format" (.str ({} : Connector).errorFormat) with
  | .str errorFormat =>
    let flag (key : String) : Bool := (r.getD key (.bool false)).isSome
    let retry ← nonNegative "connector.retry" (r.getD "retry" (.int 0))
    return {
      errorFormat, retry
      timestamps := flag "timestamps"
      clearErrorsOnSuccess := flag "clear_errors_on_success"
      clearErrorsOnReset := flag "clear_errors_on_reset" }
  | _ => mustBe "connector.error_format" "a string"

/-- The folders of the users that a path may begin with. -/
structure Homes where
  own : String := ""
  others : List (String × String) := [("root", "/root")]

/-- A path with the home folder in place of a tilde. -/
def expandHome (homes : Homes) (p : Path) : Result Path :=
  if p.root ≠ "" then .ok p
  else match p.parts with
    | first :: rest =>
      match first.toList with
      | '~' :: user =>
        let home := if user = [] then some homes.own else homes.others.lookup (.ofList user)
        match home with
        | some home => .ok ((Path.ofText home).under ⟨"", rest⟩)
        | none => .error (.internal (.crashed "Could not determine home directory."))
      | _ => .ok p
    | [] => .ok p

/-- A path that must not be blank, below a base unless it is absolute. -/
def pathBelow (homes : Homes) (base : Path) (s : String) : Result Path := do
  return base.under (← expandHome homes (Path.ofText s))

def isBlankOrMissing : Value → Bool
  | .str s => Text.isBlankText s
  | _ => true

/-- The settings that a mapping describes; its relative paths begin at a base. -/
def build (homes : Homes) (base : Path) (v : Value) : Result BulletScript.Settings := do
  let r ← section? "settings" v
  let root := r.getD "document_root" (.str ".")
  if isBlankOrMissing root then mustBe "document_root" "a non-empty string"
  let documentRoot ← pathBelow homes base root.plain
  let scripts := r.getD "scripts_file" .null
  if !scripts.isNull && isBlankOrMissing scripts then
    mustBe "scripts_file" "a non-empty string when specified"
  let scriptsFile ←
    if scripts.isNull then pure none
    else pure (some (← pathBelow homes documentRoot scripts.plain).text)
  match r.getD "indent_unit" (.str "  ") with
  | .str indentUnit =>
    if indentUnit = "" ∨ !Text.isBlankText indentUnit then
      mustBe "indent_unit" "a non-empty whitespace string"
    let resolved := { documentRoot with root := "/" }.normal
    return {
      documentRoot := resolved.text, scriptsFile, indentUnit
      http := ← buildHttp (r.getD "http" .null)
      shell := ← buildShell (r.getD "shell" .null)
      notifications := ← buildNotifications (r.getD "notifications" .null)
      connector := ← buildConnector (r.getD "connector" .null) }
  | _ => mustBe "indent_unit" "a non-empty whitespace string"

end BulletScript.Settings
