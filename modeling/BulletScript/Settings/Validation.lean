import BulletScript.Files.Tree
import BulletScript.Settings.Build
import BulletScript.Settings.Schema

/-! A report on settings: the rules they break, or else what they would make a script stumble
over. -/
namespace BulletScript.Settings

open Files

inductive Severity where
  | error | warning
  deriving Repr, DecidableEq

def Severity.text : Severity → String
  | .error => "error"
  | .warning => "warning"

structure Issue where
  severity : Severity
  path : String
  message : String
  code : String
  deriving Repr, DecidableEq

/-- The name of the whole in place of an empty path. -/
def wholeName : String := "<root>"

/-- A key as it stands in a path: whole numbers and truth values in brackets, names apart by
dots. -/
def stepText (isFirst : Bool) : Key → String
  | .int n => "[" ++ Number.intText n ++ "]"
  | .bool b => "[" ++ boolShown b ++ "]"
  | key => if isFirst then key.plain else "." ++ key.plain

def pathText (path : List Key) : String :=
  if path.isEmpty then wholeName
  else "".intercalate (path.zipIdx.map fun (key, i) => stepText (i = 0) key)

/-- The path as the texts by which misfits are sorted. -/
def sortKey (m : Misfit) : List String := m.path.map Key.plain

def schemaIssues (v : Value) : List Issue :=
  let found := (misfits v rules).mergeSort fun a b => !decide (sortKey b < sortKey a)
  found.map fun m => ⟨.error, pathText m.path, m.message, "schema"⟩

/-- Whether something is at an absolute path: a file or folder of the tree, or the root. -/
def isThere (tree : Tree) (path : String) : Bool :=
  match tree.place? [] path with
  | some place => tree.exists? place
  | none => path = "/"

/-- What settings that can be used leave to be desired. -/
def warnings (tree : Tree) (s : BulletScript.Settings) : List Issue :=
  let rootIssues : List Issue :=
    if isThere tree s.documentRoot then []
    else [⟨.warning, "document_root", "Document root " ++ s.documentRoot ++ " does not exist",
      "missing-root"⟩]
  let scriptIssues : List Issue :=
    match s.scriptsFile with
    | some path =>
      if isThere tree path then []
      else [⟨.warning, "scripts_file", "Scripts file " ++ path ++ " does not exist",
        "missing-scripts"⟩]
    | none => []
  let shellIssues : List Issue :=
    if s.shell.enabled then []
    else [⟨.warning, "shell.enabled",
      "Shell actions are disabled; scripts using 'shell' will fail", "shell-disabled"⟩]
  rootIssues ++ scriptIssues ++ shellIssues

/-- The issues of the settings in a value. A field that is refused is told only where the shape is
right. -/
def validate (homes : Homes) (base : Path) (tree : Tree) (v : Value) : Result (List Issue) :=
  let v := match v with
    | .map entries => (Record.get? entries "settings").getD v
    | v => v
  match schemaIssues v with
  | [] =>
    match build homes base v with
    | .ok settings => .ok (warnings tree settings)
    | .error failure =>
      if failure.name = "ValueError" then
        .ok [⟨.error, wholeName, failure.message, "settings"⟩]
      else .error failure
  | issues => .ok issues

/-- The issues of one severity. -/
def graded (severity : Severity) (issues : List Issue) : List Issue :=
  issues.filter (·.severity = severity)

def isValid (issues : List Issue) : Bool := (graded .error issues).isEmpty

end BulletScript.Settings
