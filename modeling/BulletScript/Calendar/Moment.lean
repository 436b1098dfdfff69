import BulletScript.Calendar.Iso
import BulletScript.Failure
import BulletScript.Regex.Matcher
import BulletScript.Regex.Reader
import BulletScript.Script.Action
import BulletScript.Value.Literal

/-! Moments: read from the ways people write them, and written for scripts. -/
namespace BulletScript.Calendar

open Number Text

/-- The number of the first of January 1970. -/
def epochOrdinal : Int := 719163

def microsPerDay : Int := 86400000000

/-- Microseconds from the beginning of 1970 in universal time. -/
def Stamp.micros (s : Stamp) : Int :=
  let t := s.time.getD ⟨0, 0, 0, 0⟩
  let clock : Nat := (3600 * t.hour + 60 * t.minute + t.second) * 1000000 + t.microsecond
  ((s.date.ordinal : Int) - epochOrdinal) * microsPerDay + clock - s.offset.getD 0

/-- The moment so many microseconds from the beginning of 1970, in universal time. -/
def Stamp.ofMicros (micros : Int) : Stamp :=
  let day := micros.fdiv microsPerDay
  let rest := (micros - day * microsPerDay).toNat
  let seconds := rest / 1000000
  ⟨.ofOrdinal (day + epochOrdinal).toNat,
    some ⟨seconds / 3600, seconds / 60 % 60, seconds % 60, rest % 1000000⟩, some 0⟩

/-- The same moment on a clock that is so many microseconds ahead of universal time. -/
def Stamp.onClock (ahead : Int) (s : Stamp) : Stamp :=
  { ofMicros (s.micros + ahead) with offset := some ahead }

/-- Whether a day is one of the years 1 to 9999. -/
def isDay (ordinal : Int) : Bool := 1 ≤ ordinal && ordinal ≤ lastOrdinal

/-- The same moment in universal time. -/
def Stamp.utc (s : Stamp) : Result Stamp :=
  if s.offset = some 0 then .ok s
  else if isDay (s.micros.fdiv microsPerDay + epochOrdinal) then .ok (.ofMicros s.micros)
  else .error (.internal (.overflow "date value out of range"))

/-- The year of any day, before year 1 and after year 9999 too. -/
def yearOf (ordinal : Int) : Int :=
  let cycles := (ordinal - 1).fdiv 146097
  400 * cycles + (Date.ofOrdinal (ordinal - cycles * 146097).toNat).year

/-- The moment at a number of seconds from the beginning of 1970, to the nearest microsecond. -/
def ofSeconds (v : Number.Dyadic) : Result Stamp :=
  let (n, d) := v.ratio
  let fraction := ((nearest? v.negative (n % d * 1000000) d).map Number.Dyadic.round).getD 0
  let micros := v.truncate * 1000000 + fraction
  let seconds := micros.fdiv 1000000
  let ordinal := seconds.fdiv 86400 + epochOrdinal
  let year := yearOf ordinal
  if seconds < -twoTo 63 ∨ twoTo 63 ≤ seconds then
    .error (.internal (.overflow "timestamp out of range for platform time_t"))
  else if year < 1900 - twoTo 31 ∨ 1900 + twoTo 31 ≤ year then
    .error (.internal (.system "[Errno 75] Value too large for defined data type"))
  else if isDay ordinal then .ok (.ofMicros micros)
  else .error (.internal (.badValue ("year " ++ intText year ++ " is out of range")))

/-- A count from which on a number is taken as milliseconds. -/
def millisecondsFrom : Nat := 100000000000

/-- A number of seconds or milliseconds, as seconds. -/
def secondsOf : Number → Result Number.Dyadic
  | .int n =>
    if n.natAbs ≤ millisecondsFrom then .ok ⟨n < 0, n.natAbs, 0⟩
    else match nearest? (n < 0) n.natAbs 1000 with
      | some v => .ok v
      | none => .error (.internal (.number .quotientTooLarge))
  | .float x =>
    match decode x with
    | .finite v =>
      let (n, d) := v.ratio
      if n ≤ millisecondsFrom * d then .ok v
      else .ok ((nearest? v.negative n (1000 * d)).getD v)
    | .infinite _ => .error (.internal (.overflow "timestamp out of range for platform time_t"))
    | .nan => .error (.internal (.badValue "Invalid value NaN (not a number)"))

/-- A part of a date or a time of day in a layout. -/
inductive Part where
  | year | month | day | hour | minute | second
  deriving Repr, DecidableEq

def Part.pattern : Part → String
  | .year => "(\\d\\d\\d\\d)"
  | .month => "(1[0-2]|0[1-9]|[1-9])"
  | .day => "(3[0-1]|[1-2]\\d|0[1-9]|[1-9]| [1-9])"
  | .hour => "(2[0-3]|[0-1]\\d|\\d)"
  | .minute => "([0-5]\\d|\\d)"
  | .second => "(6[0-1]|[0-5]\\d|\\d)"

/-- The parts of a layout, each with the pattern of what stands before it. -/
abbrev Layout := List (String × Part)

def layouts : List Layout :=
  [[("", .year), ("-", .month), ("-", .day)],
    [("", .year), ("/", .month), ("/", .day)],
    [("", .day), ("\\.", .month), ("\\.", .year)],
    [("", .year), ("-", .month), ("-", .day), ("\\s+", .hour), (":", .minute)],
    [("", .year), ("-", .month), ("-", .day), ("\\s+", .hour), (":", .minute), (":", .second)]]

/-- Reads a text in a layout. -/
def Layout.read? (layout : Layout) (s : String) : Option Stamp := do
  let source := layout.flatMap fun (before, part) => (before ++ part.pattern).toList
  let regex ← (Regex.read {} source).toOption
  let chars := s.toList.toArray
  let found ← regex.matchAt chars 0 true
  if found.stop ≠ chars.size then none
  let value (part : Part) : Option Nat := do
    let index ← layout.findIdx? (·.2 = part)
    return (← readInt? (← found.group? chars (index + 1))).toNat
  let date : Date := ⟨(value .year).getD 0, (value .month).getD 0, (value .day).getD 0⟩
  let time : Time := ⟨(value .hour).getD 0, (value .minute).getD 0, (value .second).getD 0, 0⟩
  if date.isValid && time.isValid then some ⟨date, some time, none⟩ else none

/-- A final `Z` as an offset. -/
def spellZone (s : String) : String :=
  if endsWith "Z" s then dropEnd 1 s ++ "+00:00" else s

/-- Reads a moment: a number of seconds or milliseconds, the international notation, or one of the
layouts. Without an offset it is taken as universal time. -/
def parseDate (raw : String) : Result Stamp :=
  let s := trim raw
  if s = "" then .error (.action .emptyDate)
  else match (Value.str s).toNumber? with
    | some n => do ofSeconds (← secondsOf n)
    | none =>
      match (readIso? (spellZone s)).or (layouts.findSome? (·.read? s)) with
      | some stamp => .ok { stamp with offset := some (stamp.offset.getD 0) }
      | none => .error (.action (.unreadableDate raw))

/-- Seconds from the beginning of 1970, as a number of limited precision. -/
def Stamp.seconds (s : Stamp) : Number.Dyadic :=
  (nearest? (s.micros < 0) s.micros.natAbs 1000000).getD ⟨false, 0, 0⟩

/-- The whole milliseconds of a number of seconds. -/
def wholeMilliseconds (v : Number.Dyadic) : Int :=
  let (n, d) := v.ratio
  ((nearest? v.negative (1000 * n) d).map Number.Dyadic.truncate).getD 0

/-- The time of day to milliseconds. -/
def Time.toMilliseconds (t : Time) : String := t.clock ++ "." ++ padded 3 (t.microsecond / 1000)

def formatDate (moment : Stamp) (format : Script.DateFormat) : Result Value := do
  let s ← moment.utc
  match format with
  | .epoch => return .int (wholeMilliseconds s.seconds)
  | .unix => return .int s.seconds.truncate
  | .date =>
    return .str (toString s.date.year ++ "-" ++ padded 2 s.date.month ++ "-" ++ padded 2 s.date.day)
  | .iso =>
    return .str (s.date.text ++ "T" ++ (s.time.getD ⟨0, 0, 0, 0⟩).toMilliseconds ++ "Z")

end BulletScript.Calendar
