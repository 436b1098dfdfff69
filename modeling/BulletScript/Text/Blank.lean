/-! Blank characters and the trimming of texts. -/
namespace BulletScript.Text

/-- White space of every script, and the four information separators. -/
def isBlank (c : Char) : Bool :=
  let n := c.toNat
  (9 ≤ n && n ≤ 13) || (28 ≤ n && n ≤ 32) || n == 0x85 || n == 0xA0 || n == 0x1680 ||
    (0x2000 ≤ n && n ≤ 0x200A) || n == 0x2028 || n == 0x2029 || n == 0x202F || n == 0x205F ||
    n == 0x3000

example : isBlank ' ' = true ∧ isBlank '\x0b' = true ∧ isBlank '\u200b' = false := by decide

def trimLeftChars (cs : List Char) : List Char := cs.dropWhile isBlank

def trimRightChars (cs : List Char) : List Char := (cs.reverse.dropWhile isBlank).reverse

def trimChars (cs : List Char) : List Char := trimRightChars (trimLeftChars cs)

/-- The text without the blanks at its start. -/
def trimLeft (s : String) : String := .ofList (trimLeftChars s.toList)

/-- The text without the blanks at its end. -/
def trimRight (s : String) : String := .ofList (trimRightChars s.toList)

/-- The text without the blanks around it. -/
def trim (s : String) : String := .ofList (trimChars s.toList)

/-- A text of blanks only; the empty text is one. -/
def isBlankText (s : String) : Bool := s.toList.all isBlank

/-- The blanks at the start of a line. -/
def leadingBlanks (s : String) : String := .ofList (s.toList.takeWhile isBlank)

example : trimChars [' ', 'a', ' ', 'b', '\n'] = ['a', ' ', 'b'] := by decide

end BulletScript.Text
