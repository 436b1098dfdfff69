import BulletScript.Number.Layout

/-! Days of the Gregorian calendar, times of day and moments. -/
namespace BulletScript.Calendar

def isLeapYear (year : Nat) : Bool :=
  (year % 4 == 0 && year % 100 != 0) || year % 400 == 0

def monthLength (year month : Nat) : Nat :=
  if month = 2 then if isLeapYear year then 29 else 28
  else if month = 4 ∨ month = 6 ∨ month = 9 ∨ month = 11 then 30
  else 31

structure Date where
  year : Nat
  month : Nat
  day : Nat
  deriving Repr, DecidableEq

/-- Years run from 1 to 9999. -/
def Date.isValid (d : Date) : Bool :=
  1 ≤ d.year && d.year ≤ 9999 && 1 ≤ d.month && d.month ≤ 12 && 1 ≤ d.day &&
    d.day ≤ monthLength d.year d.month

structure Time where
  hour : Nat
  minute : Nat
  second : Nat
  microsecond : Nat
  deriving Repr, DecidableEq

def Time.isValid (t : Time) : Bool :=
  t.hour < 24 && t.minute < 60 && t.second < 60 && t.microsecond < 1000000

/-- The number of days before the first of January of a year. -/
def daysBeforeYear (year : Nat) : Nat :=
  let y := year - 1
  365 * y + y / 4 - y / 100 + y / 400

def daysBeforeMonth (year month : Nat) : Nat :=
  ((List.range (month - 1)).map fun m => monthLength year (m + 1)).foldl (· + ·) 0

/-- The number of a day; the first of January of year 1 is day 1. -/
def Date.ordinal (d : Date) : Nat :=
  daysBeforeYear d.year + daysBeforeMonth d.year d.month + d.day

/-- The month and day of the `n`-th day of a year, counted from zero. -/
def monthDay (year : Nat) (n : Nat) : Nat × Nat :=
  go 11 1 n
where
  go : Nat → Nat → Nat → Nat × Nat
    | 0, month, n => (month, n + 1)
    | fuel + 1, month, n =>
      if n < monthLength year month then (month, n + 1)
      else go fuel (month + 1) (n - monthLength year month)

/-- The day with a number. -/
def Date.ofOrdinal (n : Nat) : Date :=
  let m := n - 1
  let n400 := m / 146097
  let m := m % 146097
  let n100 := m / 36524
  let m4 := m % 36524
  let n4 := m4 / 1461
  let m1 := m4 % 1461
  let n1 := m1 / 365
  let year := 400 * n400 + 100 * n100 + 4 * n4 + n1 + 1
  if n1 = 4 ∨ n100 = 4 then ⟨year - 1, 12, 31⟩
  else
    let (month, day) := monthDay year (m1 % 365)
    ⟨year, month, day⟩

example : (Date.mk 2024 2 29).ordinal = 738945 := by decide
example : Date.ofOrdinal 738945 = ⟨2024, 2, 29⟩ := by decide
example : Date.ofOrdinal 146097 = ⟨400, 12, 31⟩ := by decide

/-- A date, with a time of day when it is a moment, and the offset of its clock from universal time
in microseconds when that is known. -/
structure Stamp where
  date : Date
  time : Option Time
  offset : Option Int
  deriving Repr, DecidableEq

/-- Decimal digits with zeros in front up to a width. -/
def padded (width n : Nat) : String :=
  let ds := Nat.toDigits 10 n
  .ofList (List.replicate (width - ds.length) '0' ++ ds)

def Date.text (d : Date) : String :=
  padded 4 d.year ++ "-" ++ padded 2 d.month ++ "-" ++ padded 2 d.day

def Time.clock (t : Time) : String :=
  padded 2 t.hour ++ ":" ++ padded 2 t.minute ++ ":" ++ padded 2 t.second

/-- Microseconds are written only when there are some. -/
def Time.text (t : Time) : String :=
  t.clock ++ (if t.microsecond = 0 then "" else "." ++ padded 6 t.microsecond)

/-- An offset has hours and minutes, and what is smaller only when there is some. -/
def offsetText (offset : Int) : String :=
  let n := offset.natAbs / 1000000
  let micros := offset.natAbs % 1000000
  (if offset < 0 then "-" else "+") ++ padded 2 (n / 3600) ++ ":" ++ padded 2 (n / 60 % 60) ++
    (if n % 60 = 0 ∧ micros = 0 then "" else ":" ++ padded 2 (n % 60)) ++
    (if micros = 0 then "" else "." ++ padded 6 micros)

/-- The text of a stamp with `sep` between date and time. -/
def Stamp.text (sep : String) (s : Stamp) : String :=
  match s.time with
  | none => s.date.text
  | some t => s.date.text ++ sep ++ t.text ++ (s.offset.map offsetText).getD ""

/-- The way a stamp is shown inside a list or a mapping. -/
def Stamp.shown (s : Stamp) : String :=
  let day := [s.date.year, s.date.month, s.date.day]
  let numbers (ns : List Nat) := ", ".intercalate (ns.map toString)
  match s.time with
  | none => "datetime.date(" ++ numbers day ++ ")"
  | some t =>
    let tail := if t.microsecond ≠ 0 then [t.second, t.microsecond]
      else if t.second ≠ 0 then [t.second] else []
    let zone := match s.offset with
      | none => ""
      | some 0 => ", tzinfo=datetime.timezone.utc"
      | some n =>
        let days := n.fdiv 86400000000
        let rest := n - 86400000000 * days
        let part (name : String) (k : Int) : List String :=
          if k = 0 then [] else [name ++ "=" ++ Number.intText k]
        let delta := ", ".intercalate (part "days" days ++ part "seconds" (rest / 1000000) ++
          part "microseconds" (rest % 1000000))
        ", tzinfo=datetime.timezone(datetime.timedelta(" ++ delta ++ "))"
    "datetime.datetime(" ++ numbers (day ++ [t.hour, t.minute] ++ tail) ++ zone ++ ")"

end BulletScript.Calendar
