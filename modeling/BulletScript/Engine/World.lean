import BulletScript.Files.Tree
import BulletScript.Script.Action
import BulletScript.Value.Basic

/-! What lies outside an engine: files, what others answer, and a record of what was done. -/
namespace BulletScript.Engine

/-- An answer to a request. -/
structure Response where
  status : Int
  headers : List (String × String)
  text : String
  deriving Repr, DecidableEq

inductive HttpReply where
  | response (r : Response)
  | failed (failure : Failure)
  deriving Repr, DecidableEq

/-- What a command puts out, and how it ends, if it ends. -/
structure ShellReply where
  chunks : List (List UInt8) := []
  exitCode : Int := 0
  hangs : Bool := false
  deriving Repr, DecidableEq

/-- What comes back from a post to a target of notifications. -/
inductive HookReply where
  | response (status : Int) (text : String)
  | refused (text : String)
  | crashed (text : String)
  deriving Repr, DecidableEq

structure Request where
  method : String
  url : String
  headers : List (String × String)
  body : Option String
  timeout : Float

structure Note where
  message : String
  durationMs : Int
  context : Record

structure Command where
  command : String
  folder : String
  killed : Bool := false
  deriving Repr, DecidableEq

structure Post where
  method : Value
  url : String
  headers : List (String × String)
  timeout : Float
  json : Option Value := none
  params : Option Record := none

/-- What was done, each kind in its order. -/
structure Effects where
  logs : List (Script.LogLevel × String) := []
  requests : List Request := []
  notes : List Note := []
  delays : List Float := []
  commands : List Command := []
  posts : List Post := []

/-- An answer to a request that no other was foreseen for. -/
def plainReply : HttpReply :=
  .response ⟨200, [("Content-Type", "application/json")], "\x7b\x7d"⟩

/-- The answers that others give, one after the other, and what they answer after these. -/
structure Replies where
  http : List HttpReply := []
  shell : List ShellReply := []
  hooks : List HookReply := []
  laterHttp : HttpReply := plainReply
  laterShell : ShellReply := {}
  laterHooks : HookReply := .response 200 ""

structure World where
  tree : Files.Tree
  replies : Replies := {}
  effects : Effects := {}

namespace World

/-- Records of level debug are not kept. -/
def log (w : World) (level : Script.LogLevel) (message : String) : World :=
  if level = .debug then w
  else { w with effects := { w.effects with logs := w.effects.logs ++ [(level, message)] } }

/-- Sends a request and takes the next answer. -/
def request (w : World) (r : Request) : HttpReply × World :=
  (w.replies.http.headD w.replies.laterHttp,
    { w with
      replies := { w.replies with http := w.replies.http.drop 1 }
      effects := { w.effects with requests := w.effects.requests ++ [r] } })

def note (w : World) (n : Note) : World :=
  { w with effects := { w.effects with notes := w.effects.notes ++ [n] } }

def delay (w : World) (seconds : Float) : World :=
  { w with effects := { w.effects with delays := w.effects.delays ++ [seconds] } }

/-- Starts a command, which is killed if it does not end in time. -/
def command (w : World) (text folder : String) (inTime : Bool) : ShellReply × World :=
  let reply := w.replies.shell.headD w.replies.laterShell
  (reply,
    { w with
      replies := { w.replies with shell := w.replies.shell.drop 1 }
      effects := { w.effects with
        commands := w.effects.commands ++ [⟨text, folder, reply.hangs || !inTime⟩] } })

/-- Sends a post and takes the next answer. -/
def post (w : World) (p : Post) : HookReply × World :=
  (w.replies.hooks.headD w.replies.laterHooks,
    { w with
      replies := { w.replies with hooks := w.replies.hooks.drop 1 }
      effects := { w.effects with posts := w.effects.posts ++ [p] } })

end World

/-- Work on the world that may fail; what was done before a failure stays done. -/
abbrev WorldM (α : Type) := ExceptT Failure (StateM World) α

end BulletScript.Engine
