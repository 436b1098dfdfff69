import BulletScript.Text.Search

/-! Words quoted for a shell. -/
namespace BulletScript.Shell

open Text

/-- Characters that no shell gives a meaning to. -/
def isPlain (c : Char) : Bool := c.isAlphanum || "_@%+=:,./-".toList.contains c

/-- One word that a shell reads back as the text: a quote in it stands between double quotes. -/
def quote (s : String) : String :=
  if s = "" then "''"
  else if s.toList.all isPlain then s
  else "'" ++ replace "'" "'\"'\"'" s ++ "'"

end BulletScript.Shell
