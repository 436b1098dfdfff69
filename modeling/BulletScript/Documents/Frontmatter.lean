import BulletScript.Text.Lines
import BulletScript.Yaml.Load

/-! The record at the head of a document, between two lines of dashes. -/
namespace BulletScript.Documents

/-- Three dashes, and nothing but blanks and tabs behind them. -/
def isFence (line : String) : Bool :=
  line.toList.take 3 == ['-', '-', '-'] &&
    (line.toList.drop 3).all fun c => c == ' ' || c == '\t'

/-- The text between the fences, which is one line or more, and the text behind them. -/
def cutHeader (text : String) : Option (String × String) :=
  match Text.lines text with
  | first :: second :: rest =>
    if isFence first then
      match rest.findIdx? isFence with
      | some n => some (Text.unlines (second :: rest.take n), Text.unlines (rest.drop (n + 1)))
      | none => none
    else none
  | _ => none

/-- The record of a document and its body. A head that holds no mapping counts as empty. -/
def splitFrontmatter (text : String) : Result (Record × String) :=
  match cutHeader text with
  | none => .ok ([], text)
  | some (header, body) =>
    match Yaml.load header with
    | .ok (.map entries) => .ok (entries, body)
    | .ok _ => .ok ([], body)
    | .error (.noValue failure) => .error failure
    | .error fault =>
      .error (.action (.invalidFrontmatter (fault.failure "<unicode string>").message))

example : isFence "--- \t" = true ∧ isFence "----" = false := by decide +kernel

end BulletScript.Documents
