import BulletScript.Failure
import BulletScript.Text.Blank
import BulletScript.Text.Word

/-! What a command may not refer to, so that it stays below the folder it runs in. -/
namespace BulletScript.Shell

open Text

/-- A character behind which a word of a command may begin. -/
def opensWord (c : Char) : Bool := isBlank c || "=<>|;&('\"\x60\\".toList.contains c

/-- Whether some end of the text, the whole of it included, has a property. -/
def someEnd (holds : List Char → Bool) : List Char → Bool
  | [] => holds []
  | c :: rest => holds (c :: rest) || someEnd holds rest

/-- Whether what follows has a property at the start of the text or behind some character of a
class. -/
def startsBehind (opens : Char → Bool) (starts : List Char → Bool) (cs : List Char) : Bool :=
  starts cs || someEnd (fun
    | [] => false
    | c :: rest => opens c && starts rest) cs

def namesRoot (cs : List Char) : Bool := startsBehind opensWord (['/'].isPrefixOf ·) cs

/-- The variable of the home folder, with nothing behind it that would make its name longer. -/
def isHomeVariable (cs : List Char) : Bool :=
  [['$', 'H', 'O', 'M', 'E'], ['$', '\x7b', 'H', 'O', 'M', 'E']].any fun name =>
    name.isPrefixOf cs && !(cs.drop name.length).head?.any isWord

def namesHome (cs : List Char) : Bool :=
  startsBehind opensWord (['~'].isPrefixOf ·) cs || someEnd isHomeVariable cs

/-- Two dots that are a whole segment of a path. -/
def isParentSegment (cs : List Char) : Bool :=
  ['.', '.'].isPrefixOf cs &&
    (cs.drop 2).head?.all fun c => isBlank c || "/;|&)'\"\x60\\".toList.contains c

def namesParent (cs : List Char) : Bool :=
  startsBehind (fun c => opensWord c || c == '/') isParentSegment cs

/-- A change of folder that names none, which goes home. -/
def isBareChange (cs : List Char) : Bool :=
  let cs := cs.dropWhile isBlank
  let gap := (cs.drop 2).takeWhile isBlank
  ['c', 'd'].isPrefixOf cs &&
    (gap.contains '\n' ||
      ((cs.drop 2).dropWhile isBlank).head?.all fun c => ";&|)".toList.contains c)

def changesHome (cs : List Char) : Bool :=
  startsBehind (fun c => ";&|(\n".toList.contains c) isBareChange cs

/-- What is forbidden, in the order in which it is looked for. -/
def violations : List ((List Char → Bool) × String) :=
  [(namesRoot, "absolute paths"), (namesHome, "home-relative paths"),
    (namesParent, "'..' path segments"), (changesHome, "the home directory")]

def checkSandbox (command : String) : Result Unit :=
  match violations.find? fun (holds, _) => holds command.toList with
  | some (_, what) => .error (.action (.mayNotReference what command))
  | none => .ok ()

end BulletScript.Shell
