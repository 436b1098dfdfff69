import BulletScript.Calendar.Date

/-! Dates and moments in the international notation, with and without separators. -/
namespace BulletScript.Calendar

/-- A number of exactly so many digits, and what follows it. -/
def cutDigits (count : Nat) (cs : List Char) : Option (Nat × List Char) :=
  let ds := cs.take count
  if ds.length = count && ds.all Char.isDigit then
    some (ds.foldl (fun n c => 10 * n + (c.toNat - 48)) 0, cs.drop count)
  else none

/-- The weekday of the first of January; Monday is 0. -/
def firstWeekday (year : Nat) : Nat := (daysBeforeYear year + 1 + 6) % 7

/-- The number of the Monday on which the first week of a year begins. -/
def firstMonday (year : Nat) : Int :=
  let first := firstWeekday year
  (daysBeforeYear year : Int) + 1 - first + (if first > 3 then 7 else 0)

def weekCount (year : Nat) : Nat :=
  let first := firstWeekday year
  if first = 3 ∨ (first = 2 ∧ isLeapYear year) then 53 else 52

/-- The number of the last day of year 9999. -/
def lastOrdinal : Int := 3652059

/-- The day of a week of a year. -/
def weekDate? (year week day : Nat) : Option Date :=
  if year = 0 ∨ week = 0 ∨ weekCount year < week ∨ day = 0 ∨ 7 < day then none
  else
    let n := firstMonday year + 7 * (week - 1 : Nat) + (day - 1 : Nat)
    if n < 1 ∨ lastOrdinal < n then none else some (.ofOrdinal n.toNat)

/-- The length of the date at the start of a text. -/
def dateLength (cs : List Char) : Nat :=
  if cs.length = 7 then 7
  else if cs[4]? = some '-' then
    if cs[5]? = some 'W' then
      if cs[8]? = some '-' then
        if (cs[10]?).any Char.isDigit then 8 else 10
      else 8
    else 10
  else if cs[4]? = some 'W' then
    let last := 7 + ((cs.drop 7).takeWhile Char.isDigit).length
    if last < 9 then last else if last % 2 = 0 then 7 else 8
  else 8

/-- A date of a month and a day, or of a week and a weekday; the hyphens are all there or none. -/
def readDate? (cs : List Char) : Option Date := do
  let (year, rest) ← cutDigits 4 cs
  let hyphens := rest.head? = some '-'
  let rest := if hyphens then rest.drop 1 else rest
  let next (cs : List Char) : Option (List Char) :=
    if hyphens then (if cs.head? = some '-' then some (cs.drop 1) else none) else some cs
  if rest.head? = some 'W' then
    let (week, rest) ← cutDigits 2 (rest.drop 1)
    if rest.isEmpty then weekDate? year week 1
    else
      let (day, rest) ← cutDigits 1 (← next rest)
      if rest.isEmpty then weekDate? year week day else none
  else
    let (month, rest) ← cutDigits 2 rest
    let (day, rest) ← cutDigits 2 (← next rest)
    let date : Date := ⟨year, month, day⟩
    if rest.isEmpty && date.isValid then some date else none

/-- A reading of a clock, and whether nothing was left over after it. -/
structure ClockText where
  time : Time
  complete : Bool

/-- Up to six digits of a fraction; more digits are dropped. -/
def readFraction? (cs : List Char) : Option (Nat × Bool) := do
  let count := min 6 cs.length
  let (n, rest) ← cutDigits count cs
  return (n * Number.tenTo (6 - count), (rest.dropWhile Char.isDigit).isEmpty)

/-- Hours, then minutes and seconds if there are any, then a fraction if there is one. One
character too many at the end is left over. -/
def readClock? (cs : List Char) : Option ClockText := do
  let (hour, rest) ← cutDigits 2 cs
  if rest.length ≤ 1 then return ⟨⟨hour, 0, 0, 0⟩, rest.isEmpty⟩
  let colons := rest.head? = some ':'
  let isPoint (cs : List Char) : Bool := cs.head? = some '.' || cs.head? = some ','
  if !colons && isPoint rest then
    let (micros, complete) ← readFraction? (rest.drop 1)
    return ⟨⟨hour, 0, 0, micros⟩, complete⟩
  let (minute, rest) ← cutDigits 2 (if colons then rest.drop 1 else rest)
  if rest.length ≤ 1 then return ⟨⟨hour, minute, 0, 0⟩, rest.isEmpty⟩
  if isPoint rest then
    let (micros, complete) ← readFraction? (rest.drop 1)
    return ⟨⟨hour, minute, 0, micros⟩, complete⟩
  if colons && rest.head? ≠ some ':' then none
  let (second, rest) ← cutDigits 2 (if colons then rest.drop 1 else rest)
  if rest.length ≤ 1 then return ⟨⟨hour, minute, second, 0⟩, rest.isEmpty⟩
  if colons && !isPoint rest && rest.head? ≠ some ':' then none
  let (micros, complete) ← readFraction? (if colons || isPoint rest then rest.drop 1 else rest)
  return ⟨⟨hour, minute, second, micros⟩, complete⟩

/-- The offset behind a sign, in microseconds; it is less than a day. -/
def readOffset? (negative : Bool) (cs : List Char) : Option Int := do
  let clock ← readClock? cs
  if !clock.complete then none
  let t := clock.time
  let seconds := 3600 * t.hour + 60 * t.minute + t.second
  let micros := if seconds = 0 then 0 else 1000000 * seconds + t.microsecond
  if 86400000000 ≤ micros then none
  return if negative then -(micros : Int) else micros

/-- A time of day with the offset of its clock, if it is given. -/
def readTime? (cs : List Char) : Option (Time × Option Int) := do
  let (clock, zone) := cs.span fun c => c ≠ '+' && c ≠ '-' && c ≠ 'Z'
  let clock ← readClock? clock
  if !clock.time.isValid then none
  match zone with
  | [] => if clock.complete then return (clock.time, none) else none
  | ['Z'] => return (clock.time, some 0)
  | c :: rest => if c = 'Z' then none else return (clock.time, some (← readOffset? (c = '-') rest))

/-- A date, or a date and a time of day behind any one character. -/
def readIso? (s : String) : Option Stamp := do
  let cs := s.toList
  if cs.length < 7 then none
  let length := dateLength cs
  let date ← readDate? (cs.take length)
  match cs.drop length with
  | [] => return ⟨date, some ⟨0, 0, 0, 0⟩, none⟩
  | _ :: rest =>
    let (time, offset) ← readTime? rest
    return ⟨date, some time, offset⟩

end BulletScript.Calendar
