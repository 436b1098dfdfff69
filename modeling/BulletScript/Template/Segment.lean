import BulletScript.Failure

/-! A template cut into literal text and placeholders. -/
namespace BulletScript.Template

/-- The marks around a placeholder. -/
def openMark : List Char := ['\x7b', '\x7b']
def closeMark : List Char := ['\x7d', '\x7d']

/-- Literal text, or what stands between two marks together with the place of the first. -/
inductive Segment where
  | literal (text : String)
  | placeholder (inner : String) (position : Nat)
  deriving Repr, DecidableEq

/-- A placeholder as it was written. -/
def rawText (inner : String) : String :=
  .ofList (openMark ++ inner.toList ++ closeMark)

def Segment.raw : Segment → String
  | .literal text => text
  | .placeholder inner _ => rawText inner

/-- Literal text as a segment, when there is some. -/
def literalBefore (cs : List Char) (segments : List Segment) : List Segment :=
  if cs = [] then segments else .literal (.ofList cs) :: segments

/-- The segments of a text that starts at `position` of the template. -/
def segmentsFrom (template : String) (position : Nat) (cs : List Char) : Result (List Segment) :=
  match h : Text.cutChars openMark cs with
  | none => .ok (literalBefore cs [])
  | some (before, after) =>
    match h' : Text.cutChars closeMark after with
    | none => .error (.pattern (.unterminatedPlaceholder template (position + before.length)))
    | some (inner, rest) =>
      have : rest.length < cs.length :=
        Nat.lt_trans (Text.cutChars_length_lt (by simp [closeMark]) h')
          (Text.cutChars_length_lt (by simp [openMark]) h)
      let here := position + before.length
      do
        let tail ← segmentsFrom template (here + inner.length + 4) rest
        return literalBefore before (.placeholder (.ofList inner) here :: tail)
  termination_by cs.length

/-- The segments of a template. An opening mark without a later closing mark makes it fail. -/
def segments (template : String) : Result (List Segment) :=
  segmentsFrom template 0 template.toList

end BulletScript.Template
