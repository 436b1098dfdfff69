import BulletScript.Number.Arithmetic
import BulletScript.Calendar.Date

/-! The values that scripts compute with: what JSON can write, and the bytes and dates that files
bring in. Mappings keep their entries in the order in which the keys first came. -/
namespace BulletScript

/-- The keys of a mapping. -/
inductive Key where
  | null
  | bool (b : Bool)
  | int (n : Int)
  | float (x : Float)
  | str (s : String)
  | bytes (data : List UInt8)
  | stamp (s : Calendar.Stamp)

inductive Value where
  | null
  | bool (b : Bool)
  | int (n : Int)
  | float (x : Float)
  | str (s : String)
  | bytes (data : List UInt8)
  | stamp (s : Calendar.Stamp)
  | list (items : List Value)
  | map (entries : List (Key × Value))

instance : Inhabited Value := ⟨.null⟩
instance : Coe String Key := ⟨.str⟩

/-- The entries of a mapping. The variables of a script are one. -/
abbrev Record := List (Key × Value)

/-- Truth values count as the numbers zero and one. -/
def boolNumber (b : Bool) : Number := .int (if b then 1 else 0)

namespace Key

def number? : Key → Option Number
  | .bool b => some (boolNumber b)
  | .int n => some (.int n)
  | .float x => some (.float x)
  | _ => none

/-- Keys with one numeric value are one key. -/
def same (a b : Key) : Bool :=
  match a, b with
  | .str s, .str t => s == t
  | .null, .null => true
  | .bytes x, .bytes y => x == y
  | .stamp s, .stamp t => s == t
  | a, b => match a.number?, b.number? with
    | some m, some n => m.same n
    | _, _ => false

def toValue : Key → Value
  | .null => .null
  | .bool b => .bool b
  | .int n => .int n
  | .float x => .float x
  | .str s => .str s
  | .bytes data => .bytes data
  | .stamp s => .stamp s

@[simp] theorem same_str (s t : String) : Key.same (.str s) (.str t) = (s == t) := rfl

end Key

namespace Value

/-- Lists and mappings are no keys. -/
def toKey? : Value → Option Key
  | .null => some .null
  | .bool b => some (.bool b)
  | .int n => some (.int n)
  | .float x => some (.float x)
  | .str s => some (.str s)
  | .bytes data => some (.bytes data)
  | .stamp s => some (.stamp s)
  | .list _ | .map _ => none

end Value

namespace Record

def get? (r : Record) (k : Key) : Option Value :=
  (r.find? fun entry => entry.1.same k).map (·.2)

def has (r : Record) (k : Key) : Bool := r.any fun entry => entry.1.same k

/-- A new key goes to the end; a known one keeps its place and its first spelling. -/
def set (r : Record) (k : Key) (v : Value) : Record :=
  match r with
  | [] => [(k, v)]
  | (k', v') :: rest => if k'.same k then (k', v) :: rest else (k', v') :: set rest k v

def erase (r : Record) (k : Key) : Record := r.filter fun entry => !entry.1.same k

/-- The entries of the second record set one after the other. -/
def update (r other : Record) : Record :=
  other.foldl (fun r entry => r.set entry.1 entry.2) r

def setDefault (r : Record) (k : Key) (v : Value) : Record := if r.has k then r else r.set k v

/-- The record that these entries make when set in order. -/
def ofEntries (entries : List (Key × Value)) : Record := update [] entries

theorem get?_set_str (r : Record) (s t : String) (v : Value) :
    get? (set r (.str s) v) (.str t) = if s == t then some v else get? r (.str t) := by
  induction r with
  | nil => by_cases h : s == t <;> simp [set, get?, h]
  | cons e rest ih =>
    obtain ⟨k', v'⟩ := e
    unfold set
    by_cases hk : k'.same (.str s)
    · have : ∃ u, k' = .str u ∧ u = s := by
        cases k' <;> simp_all [Key.same, Key.number?]
      obtain ⟨u, rfl, rfl⟩ := this
      by_cases h : u == t <;> simp_all [get?]
    · by_cases hk' : k'.same (.str t)
      · have : ∃ u, k' = .str u ∧ u = t := by
          cases k' <;> simp_all [Key.same, Key.number?]
        obtain ⟨u, rfl, rfl⟩ := this
        have : (s == u) = false := by
          simp only [Key.same_str, Bool.not_eq_true, beq_eq_false_iff_ne] at hk ⊢
          exact fun h => hk h.symm
        simp_all [get?]
      · simp_all [get?]

end Record

namespace Value

def number? : Value → Option Number
  | .bool b => some (boolNumber b)
  | .int n => some (.int n)
  | .float x => some (.float x)
  | _ => none

mutual

/-- Equality: numbers and truth values by numeric value, mappings without regard to order. -/
def same : Value → Value → Bool
  | .null, .null => true
  | .str s, .str t => s == t
  | .bytes x, .bytes y => x == y
  | .stamp s, .stamp t => s == t
  | .list xs, .list ys => sameItems xs ys
  | .map r, .map q => r.length == q.length && sameEntries r q
  | .bool a, w => w.number?.any (Number.same (boolNumber a))
  | .int a, w => w.number?.any (Number.same (.int a))
  | .float a, w => w.number?.any (Number.same (.float a))
  | _, _ => false

def sameItems : List Value → List Value → Bool
  | [], [] => true
  | x :: xs, y :: ys => same x y && sameItems xs ys
  | _, _ => false

/-- Whether every entry of the first record has an equal one in the second. -/
def sameEntries : List (Key × Value) → Record → Bool
  | [], _ => true
  | (k, v) :: rest, q => (match q.get? k with
    | some w => same v w
    | none => false) && sameEntries rest q

end

def isList : Value → Bool
  | .list _ => true
  | _ => false

def isMap : Value → Bool
  | .map _ => true
  | _ => false

def isNull : Value → Bool
  | .null => true
  | _ => false

/-- A value that counts as something: not null, zero, false or empty. -/
def isSome : Value → Bool
  | .null => false
  | .bool b => b
  | .int n => n ≠ 0
  | .float x => !(x == 0)
  | .str s => s ≠ ""
  | .bytes data => data ≠ []
  | .stamp _ => true
  | .list items => !items.isEmpty
  | .map entries => !entries.isEmpty

end Value

/-- The value under a key, or a fallback. -/
def Record.getD (r : Record) (k : Key) (fallback : Value) : Value := (r.get? k).getD fallback

end BulletScript
