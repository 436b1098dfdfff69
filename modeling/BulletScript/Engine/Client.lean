import BulletScript.Engine.World
import BulletScript.Number.Layout
import BulletScript.Text.Case

/-! A client of web addresses: how a request leaves it, and what it makes of the outcome. -/
namespace BulletScript.Engine

/-- What becomes of a request under way. -/
inductive Delivery where
  | answered (r : Response)
  | late
  | broken (reason : String)
  deriving Repr, DecidableEq

/-- The values of the headers of a name, whatever its case; several are joined. -/
def Request.header? (r : Request) (name : String) : Option String :=
  match r.headers.filter fun header => Text.lower header.1 = Text.lower name with
  | [] => none
  | found => some (", ".intercalate (found.map (·.2)))

/-- A client, and the name under which it sends. -/
structure Client where
  userAgent : Option String := none

namespace Client

def ownHeaders (client : Client) : List (String × String) :=
  let agent := match client.userAgent.filter (· ≠ "") with
    | some agent => [("User-Agent", agent)]
    | none => []
  [("Accept", "*/*"), ("Accept-Encoding", "gzip, deflate"), ("Connection", "keep-alive")] ++ agent

/-- A request as it leaves: its method in capitals, and the client's own headers unless it brings
others of their names. -/
def outgoing (client : Client) (r : Request) : Request :=
  let own := client.ownHeaders.filter fun header => (r.header? header.1).isNone
  { r with method := Text.upper r.method, headers := own ++ r.headers }

end Client

/-- What the sender of a request gets to see. -/
def Delivery.reply (r : Request) : Delivery → HttpReply
  | .answered response => .response response
  | .late =>
    .failed (.action (.http
      ("Request to " ++ r.url ++ " timed out after " ++ Number.generalText r.timeout ++ "s")))
  | .broken reason =>
    .failed (.action (.http ("Request to " ++ r.url ++ " failed: " ++ reason)))

end BulletScript.Engine
