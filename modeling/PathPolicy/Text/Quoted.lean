import PathPolicy.Text.PrintTable

/-!
# Quoted texts

How messages show a text or a character: between quotes, with an escape for the quote, for the
backslash, and for everything that would not be seen or would change the character before it.
-/

namespace PathPolicy.Text

/-- The quote around a text. -/
def doubleQuote : Char := '\x22'

/-- The quote around a character. -/
def singleQuote : Char := '\x27'

/-- Whether a character stands for itself in a quoted text. -/
def isShown (c : Char) : Bool :=
  if c.toNat < 0x7f then 0x20 ≤ c.toNat
  else !PrintTable.graphemeExtend.has c && !PrintTable.unprintable.has c

def numbered (c : Char) : List Char :=
  ['\\', 'u', '\x7b'] ++ Nat.toDigits 16 c.toNat ++ ['\x7d']

/-- A character between quotes of the given kind. -/
def escaped (quote c : Char) : List Char :=
  if c.toNat = 0 then ['\\', '0']
  else if c = '\t' then ['\\', 't']
  else if c = '\r' then ['\\', 'r']
  else if c = '\n' then ['\\', 'n']
  else if c = '\\' ∨ c = quote then ['\\', c]
  else if isShown c then [c]
  else numbered c

/-- A text in double quotes. -/
def quoted (s : String) : String :=
  String.ofList (doubleQuote :: s.toList.flatMap (escaped doubleQuote) ++ [doubleQuote])

/-- A character in single quotes. -/
def quotedChar (c : Char) : String :=
  String.ofList (singleQuote :: escaped singleQuote c ++ [singleQuote])

end PathPolicy.Text
