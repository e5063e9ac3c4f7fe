/-!
# Blanks

The characters with the Unicode property White_Space, and texts with the blanks at their ends
removed.
-/

namespace PathPolicy.Text

/-- The property White_Space. -/
def isBlank (c : Char) : Bool :=
  let n := c.toNat
  (9 ≤ n && n ≤ 13) || n == 0x20 || n == 0x85 || n == 0xa0 || n == 0x1680 ||
  (0x2000 ≤ n && n ≤ 0x200a) || n == 0x2028 || n == 0x2029 || n == 0x202f || n == 0x205f ||
  n == 0x3000

/-- A list of characters without the blanks at its end. -/
def trimEndChars (cs : List Char) : List Char := (cs.reverse.dropWhile isBlank).reverse

def trimEnd (s : String) : String := String.ofList (trimEndChars s.toList)

/-- A text without the blanks at its ends. -/
def trim (s : String) : String := String.ofList (trimEndChars (s.toList.dropWhile isBlank))

end PathPolicy.Text
