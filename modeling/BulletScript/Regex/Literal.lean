import BulletScript.Failure
import BulletScript.Regex.Matcher
import BulletScript.Regex.Reader
import BulletScript.Text.Blank

/-! Patterns between slashes with letters for their flags. -/
namespace BulletScript.Regex

/-- A pattern as authored, and whether all its matches are wanted or only the first. -/
structure Literal where
  regex : Regex
  everywhere : Bool

/-- The pattern between slashes and the flags after them; a bare pattern matches everywhere. -/
def literalParts (source : String) : String × String :=
  match Text.cutLast? "/" (Text.trim source) with
  | some (before, flags) =>
    match before.toList with
    | '/' :: c :: cs =>
      if flags.toList.all (fun c => 'a' ≤ c && c ≤ 'z') then (.ofList (c :: cs), flags)
      else (source, "g")
    | _ => (source, "g")
  | none => (source, "g")

def flagsOf (letters : String) : Flags :=
  { ignoreCase := letters.toList.contains 'i', multiline := letters.toList.contains 'm',
    dotAll := letters.toList.contains 's' }

def readLiteral (source : String) : Result Literal :=
  let (pattern, flags) := literalParts source
  match read (flagsOf flags) pattern.toList with
  | .ok regex => .ok ⟨regex, flags.toList.contains 'g'⟩
  | .error .tooLarge => .error (.internal (.overflow (Fault.tooLarge.message [])))
  | .error fault => .error (.action (.invalidRegex source (fault.message pattern.toList)))

end BulletScript.Regex
