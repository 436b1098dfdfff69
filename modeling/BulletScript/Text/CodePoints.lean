/-! Sets and maps of code points, kept as texts of ascending ranges and searched by bisection. -/
namespace BulletScript.Text

/-- The value of a hexadecimal digit; other characters count as zero. -/
def hexValue (c : Char) : Nat :=
  if '0' ≤ c ∧ c ≤ '9' then c.toNat - 48
  else if 'a' ≤ c ∧ c ≤ 'f' then c.toNat - 87
  else if 'A' ≤ c ∧ c ≤ 'F' then c.toNat - 55
  else 0

/-- The number that a run of hexadecimal digits writes. -/
def hexNumber (digits : List Char) : Nat :=
  digits.foldl (fun n c => 16 * n + hexValue c) 0

example : hexNumber ['1', 'f', 'F'] = 511 := by decide

/-- The fields between the separators, empty ones included. -/
def fields (sep : Char) : List Char → List (List Char)
  | [] => [[]]
  | c :: rest =>
    if c = sep then [] :: fields sep rest
    else match fields sep rest with
      | [] => [[c]]
      | field :: more => (c :: field) :: more

example : fields ',' ['a', ',', ',', 'b'] = [['a'], [], ['b']] := by decide

/-- One entry of a table: the numbers that its fields write. -/
abbrev Row := List Nat

/-- The lines of a table hold rows apart by blanks, and a row its numbers apart by commas. -/
def table (lines : List String) : Array Row :=
  (lines.flatMap fun line =>
    let rows := (fields ' ' line.toList).filter (· ≠ [])
    rows.map fun row => (fields ',' row).map hexNumber).toArray

/-- The first and last code point of a row; a row of one number is one code point. -/
def Row.first (row : Row) : Nat := row.headD 0

def Row.last (row : Row) : Nat := (row.drop 1).headD row.first

/-- The row of an ascending table that covers `n`, by bisection of the rows `lo ≤ i < hi`. -/
def coveringBetween (rows : Array Row) (n lo hi : Nat) : Option Row :=
  if lo < hi then
    let mid := (lo + hi) / 2
    match rows[mid]? with
    | none => none
    | some row =>
      if n < row.first then coveringBetween rows n lo mid
      else if row.last < n then coveringBetween rows n (mid + 1) hi
      else some row
  else none
  termination_by hi - lo

def covering (rows : Array Row) (n : Nat) : Option Row :=
  coveringBetween rows n 0 rows.size

def covers (rows : Array Row) (n : Nat) : Bool :=
  (covering rows n).isSome

end BulletScript.Text
