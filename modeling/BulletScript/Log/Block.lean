import BulletScript.Failure
import BulletScript.Text.Case
import BulletScript.Text.Wrap
import BulletScript.Value.Shown

/-! The log: blocks of labelled lines below a title, and its levels, by name and by number. -/
namespace BulletScript.Log

open Text

structure BlockStyle where
  wrapWidth : Int := 110
  labelWidth : Int := 18
  indent : String := "    "
  padTop : Bool := true

mutual

/-- A value as a block shows it: lists by their entries, texts without blanks around them. -/
def fieldText : Value → String
  | .null => ""
  | .str s => trim s
  | .list items => ", ".intercalate (fieldTexts items)
  | v => v.plain

def fieldTexts : List Value → List String
  | [] => []
  | v :: rest => fieldText v :: fieldTexts rest

end

/-- The lines of a text at some width; an empty line stays. -/
def wrapText (width : Nat) (s : String) : List String :=
  if s = "" then [""]
  else (boundaryLines s).flatMap fun line =>
    let ls := wrap width line
    if ls.isEmpty then [""] else ls

def fieldLines (style : BlockStyle) (labelWidth valueWidth : Nat) (label : String) (v : Value) :
    List String :=
  match wrapText valueWidth (fieldText v) with
  | [] => []
  | first :: rest =>
    (style.indent ++ padRight labelWidth label ++ ": " ++ first) ::
      rest.map fun line => style.indent ++ padRight labelWidth "" ++ "  " ++ line

/-- The title of a block with a rule below it. -/
def heading (style : BlockStyle) (title : String) : List String :=
  (if style.padTop then [""] else []) ++ [title, repeated "-" title.length]

/-- The lines of a block; fields without a value are left out. -/
def blockLines (style : BlockStyle) (title : String) (fields : List (String × Value)) :
    List String :=
  let fields := fields.filter fun (_, v) => !v.isNull && !v.same (.str "")
  let longest : Int := (fields.map fun (label, _) => label.length).foldl max 0
  let labelWidth := max (min longest style.labelWidth) 8
  let valueWidth := max (style.wrapWidth - style.indent.length - labelWidth - 4) 32
  heading style title ++
    fields.flatMap fun (label, v) => fieldLines style labelWidth.toNat valueWidth.toNat label v

def block (style : BlockStyle) (title : String) (fields : List (String × Value)) : String :=
  trimRight (unlines (blockLines style title fields))

def levelNumber? (name : String) : Option Int :=
  [("NOTSET", 0), ("DEBUG", 10), ("INFO", 20), ("WARN", 30), ("WARNING", 30), ("ERROR", 40),
    ("FATAL", 50), ("CRITICAL", 50)].lookup name

/-- The number of the level that a text names in any case. -/
def readLevel (s : String) : Result Int :=
  let name := Text.upper s
  match levelNumber? name with
  | some number => .ok number
  | none => .error (.internal (.badValue ("Unknown log level: Level " ++ name)))

end BulletScript.Log
