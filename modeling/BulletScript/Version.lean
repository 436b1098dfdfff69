import BulletScript.Text.Blank

/-! The version of the program. -/
namespace BulletScript

def releaseVersion : String := "0.1.0"

/-- The version: what the build names it, or else the release. -/
def version (build : Option String) : String :=
  match build.filter (· ≠ "") with
  | some name => Text.trim name
  | none => releaseVersion

end BulletScript
