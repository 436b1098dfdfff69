import BulletScript.Bytes.Utf8
import BulletScript.Text.Blank

/-! The output of a command, of which only a first part is kept. -/
namespace BulletScript.Shell

/-- What is kept of an output, and whether anything was left out. -/
structure Output where
  limit : Nat
  data : List UInt8 := []
  truncated : Bool := false
  deriving Repr, DecidableEq

namespace Output

def room (o : Output) : Nat := o.limit - o.data.length

/-- Takes of a chunk what there is room for. -/
def feed (o : Output) (chunk : List UInt8) : Output :=
  { o with
    data := o.data ++ chunk.take o.room
    truncated := o.truncated || o.room < chunk.length }

def feedAll (o : Output) (chunks : List (List UInt8)) : Output := chunks.foldl feed o

/-- Takes the chunks up to the first empty one, which is the end of an output. -/
def read (o : Output) (chunks : List (List UInt8)) : Output :=
  o.feedAll (chunks.takeWhile (!·.isEmpty))

def truncationNotice : String := " [output truncated]"

/-- The text without the blanks at its end; bytes that are no text are replaced. -/
def text (o : Output) : String :=
  Text.trimRight (Bytes.toTextLossy o.data) ++ (if o.truncated then truncationNotice else "")

end Output

example : (Output.feedAll ⟨3, [], false⟩ [[1, 2], [3], [4]]) = ⟨3, [1, 2, 3], true⟩ := by decide

end BulletScript.Shell
