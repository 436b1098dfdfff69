import BulletScript.Console.Printed
import BulletScript.Engine.Run
import BulletScript.Script.Reader
import BulletScript.Settings.Validation

/-! Reports on scripts, on runs and on settings. -/
namespace BulletScript.Console

def successMark : String := "✓"
def warningMark : String := "⚠"
def errorMark : String := "✗"
def idleMark : String := "○"

/-- Names with the number of times they occur, in the order in which they first do. -/
def counted (names : List String) : List (String × Nat) :=
  names.eraseDups.map fun name => (name, names.count name)

/-- The kinds of the actions of a trigger, nested ones included. -/
def kindsText (actions : List Script.Action) : String :=
  let kinds := (Script.Action.flattenAll actions).map (·.keyword.text)
  ", ".intercalate ((counted kinds).map fun (kind, n) =>
    if 1 < n then kind ++ "×" ++ toString n else kind)

/-- A row for each trigger of a script. The first one bears its tag and its number of warnings. -/
def scriptRows (tag : String) (parsed : Script.Parsed) : List (List String) :=
  let count := parsed.warnings.length
  let warnings := inStyle (if count = 0 then "dim" else "yellow") (toString count)
  parsed.config.triggers.zipIdx.map fun (trigger, i) =>
    [if i = 0 then tag else "", trigger.kind.text, toString trigger.actions.length,
      kindsText trigger.actions, if i = 0 then warnings else ""]

def warningLines (tag : String) (parsed : Script.Parsed) : List Printed :=
  parsed.warnings.map fun text =>
    .markup (inStyle "yellow" (warningMark ++ " " ++ tag ++ ": " ++ escape text))

/-- The scripts of a document with their triggers, then all warnings. -/
def ofScripts (scripts : List (String × Script.Parsed)) : List Printed :=
  if scripts.isEmpty then [.markup (inStyle "yellow" (warningMark ++ " No scripts found."))]
  else
    let columns := ["Tag", "Trigger", "Actions", "Kinds", "Warnings"]
    .table ⟨some "Scripts", columns, scripts.flatMap fun (tag, parsed) => scriptRows tag parsed⟩ ::
      scripts.flatMap fun (tag, parsed) => warningLines tag parsed

/-- The variables that a run leaves, but for its configuration. -/
def variableRows (vars : Record) : List (List String) :=
  (vars.sorted.filter fun (k, _) => k.plain ≠ "config").map fun (k, v) =>
    [k.plain, escape v.templateText]

/-- How a run of a tag's script ended. -/
def ofOutcome (tag : String) (o : Engine.Outcome) : Printed :=
  let body : Table := ⟨none, ["Variable", "Value"], variableRows o.context.vars⟩
  match o.state with
  | .idle => .styled (idleMark ++ " " ++ tag ++ ": no matching trigger") "dim"
  | .completed =>
    let trigger := o.context.trigger.getD "None"
    .panel (inStyle "bold green" (successMark ++ " " ++ tag ++ " (" ++ trigger ++ ")")) "green" body
  | .failed =>
    let message := (o.error.map (·.message)).getD "None"
    .panel (inStyle "bold red" (errorMark ++ " " ++ tag ++ ": " ++ escape message)) "red" body

/-- The section of the settings that a path leads into. -/
def sectionOf (path : String) : String :=
  .ofList (path.toList.takeWhile fun c => c ≠ '.' && c ≠ '[')

def issueRow (i : Settings.Issue) : List String :=
  [i.path, escape i.message ++ " " ++ inStyle "dim" ("(" ++ i.code ++ ")")]

/-- Issues of one severity below a heading, in a frame for each section. -/
def issueGroups (heading kind style border : String) (issues : List Settings.Issue) :
    List Printed :=
  if issues.isEmpty then []
  else
    let sections := (issues.map fun i => sectionOf i.path).eraseDups
    let count := toString issues.length ++ " " ++ kind ++ "(s) detected"
    .markup ("\n" ++ inStyle style (heading ++ ": " ++ count)) :: sections.map fun name =>
      let rows := (issues.filter fun i => sectionOf i.path = name).map issueRow
      .panel (inStyle "bold" name) border ⟨none, ["Path", "Message"], rows⟩

/-- What is to be said of settings: errors, then warnings, then that they can be used. -/
def ofIssues (issues : List Settings.Issue) : List Printed :=
  let warnings := Settings.graded .warning issues
  let passed := successMark ++ " Settings passed validation"
  issueGroups "Validation Errors" "error" "bold red" "red" (Settings.graded .error issues) ++
    issueGroups "Validation Warnings" "warning" "bold yellow" "yellow" warnings ++
    if Settings.isValid issues then
      [.markup (inStyle "bold green"
        (passed ++ (if warnings.isEmpty then "." else " (with warnings).")))]
    else []

/-- A line that tells of a failure. -/
def ofFailure (text : String) : Printed := .markup (inStyle "bold red" (errorMark ++ " " ++ text))

end BulletScript.Console
