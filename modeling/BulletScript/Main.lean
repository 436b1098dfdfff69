import BulletScript.Command.Program
import BulletScript.Version
import Std.Time.Zoned

/-! The program. It reads the files that a call needs, carries the call out, shows what there is to
show, and writes the files that have changed. It reaches no network and starts no commands. -/
namespace BulletScript.Main

open Files Command Engine

def programName : String := "tagscript"

def usage : String :=
  "usage: " ++ programName ++ " [-h] [--version] [--log-level LEVEL] [--log-file FILE] " ++
    "check SCRIPTS | run SCRIPTS --tag TAG --document FILE --line NUMBER [--trigger KIND] " ++
    "[--settings FILE] [--data JSON] | validate-settings FILE"

def replies : Replies where
  laterHttp := .failed (.action (.http "Requests cannot be sent from here"))
  laterShell := ⟨[Bytes.ofText "Commands cannot be run from here"], 127, false⟩
  laterHooks := .refused "Messages cannot be sent from here"

/-- A place as the file system knows it. -/
def entryOf (place : Place) : IO.FS.DirEntry := ⟨"/", Text.join "/" place⟩

/-- Adds what is at a place to a tree, with all that is below it if that is wanted. -/
partial def look (deep : Bool) (tree : Tree) (place : Place) : IO Tree := do
  let entry := entryOf place
  match ← entry.path.readDir.toBaseIO with
  | .ok entries =>
    let tree := tree.addFolder place
    if !deep then return tree
    entries.foldlM (fun tree e => look true tree (place ++ [e.fileName])) tree
  | .error _ =>
    match ← (IO.FS.readBinFile entry.path).toBaseIO with
    | .ok data => return tree.put place (.ofBytes data.toList)
    | .error _ => return tree

def lookAt (deep : Bool) (site : Site) (tree : Tree) (path : String) : IO Tree :=
  match tree.place? site.folder path with
  | some place => look deep tree place
  | none => return tree

/-- The values of the variables that the files of a tree name. -/
def environment (tree : Tree) : IO Settings.Environment := do
  let names := tree.files.flatMap fun (_, content) =>
    let cs := (content.toText.toOption.getD "").toList
    Settings.variableNames cs.length cs
  names.eraseDups.filterMapM fun name => do return (← IO.getEnv name).map (name, ·)

/-- The time, and by how many microseconds the clocks of the place are ahead of universal time. Where
the zone of the place cannot be read they show universal time. -/
def clocks : IO (Calendar.Stamp × Int) := do
  let moment ← Std.Time.Timestamp.now
  let ahead := match ← Std.Time.Database.defaultGetLocalZoneRules.toBaseIO with
    | .ok rules => (rules.timezoneAt moment).toSeconds.val * 1000000
    | .error _ => 0
  return (.ofMicros (moment.toNanosecondsSinceUnixEpoch.val / 1000), ahead)

/-- Writes the files of a tree that differ from those of an older one. -/
def save (old new : Tree) : IO Unit :=
  (Tree.changes old new).forM fun (path, content) => do
    let p := Path.ofText ("/" ++ path)
    match content with
    | some content =>
      IO.FS.createDirAll p.parent.text
      IO.FS.writeBinFile p.text content.toBytes.toByteArray
    | none => IO.FS.removeFile p.text

/-- Shows the records of the log from a level on, and adds all of them to a file. -/
def showLogs (call : Invocation) (logs : List (Script.LogLevel × String)) : IO Unit := do
  let number (name : String) : Int := (Log.levelNumber? (Text.upper name)).getD 0
  for (level, message) in logs do
    let line := Text.upper level.text ++ " " ++ message
    if number call.logLevel ≤ number level.text then IO.eprintln line
    match call.logFile with
    | some file =>
      let h ← IO.FS.Handle.mk file.text .append
      h.putStrLn line
    | none => pure ()

/-- Carries out a call and gives the code that the program ends with. -/
def perform (call : Invocation) : IO UInt32 := do
  let folder := (Path.ofText (toString (← IO.currentDir))).parts
  let own := (← IO.getEnv "HOME").getD ""
  let (now, ahead) ← clocks
  let site : Site := { folder, homes := { own }, environment := [], now, ahead }
  let tree ← (call.task.files.map (·.text)).foldlM (lookAt false site) { root := "/" }
  let site := { site with environment := ← environment tree }
  let tree ← match call.task.settings? site tree with
    | some settings =>
      let paths := settings.documentRoot :: settings.scriptsFile.toList
      paths.foldlM (lookAt call.task.needsDocuments site) tree
    | none => pure tree
  match call.perform site { tree, replies } with
  | .ok ending =>
    ending.console.forM fun shown => shown.lines.forM fun line => IO.println line
    showLogs call ending.world.effects.logs
    save tree ending.world.tree
    return ending.code
  | .error failure =>
    IO.eprintln (failure.name ++ ": " ++ failure.message)
    return 1

/-- What the program does with the words of its command line. -/
def start (words : List String) : IO UInt32 := do
  match Invocation.ofWords words with
  | .ok call => perform call
  | .error .version =>
    IO.println (programName ++ " " ++ version (← IO.getEnv "BUILD_VERSION"))
    return 0
  | .error .help =>
    IO.println usage
    return 0
  | .error .misuse =>
    IO.eprintln usage
    return 2

end BulletScript.Main

def main (words : List String) : IO UInt32 := BulletScript.Main.start words
