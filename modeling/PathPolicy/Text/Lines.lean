/-!
# Lines of a text

A line ends at a line feed, which a carriage return may precede. The text after the last line feed
is a line unless it is empty.
-/

namespace PathPolicy.Text

/-- Removes one carriage return at the end. -/
def dropReturn (line : List Char) : List Char :=
  if line.getLast? = some '\r' then line.dropLast else line

/-- The lines of a text; `line` holds the characters of the current one, last first. -/
def linesFrom (line : List Char) : List Char → List (List Char)
  | [] => if line.isEmpty then [] else [line.reverse]
  | c :: rest =>
    if c = '\n' then dropReturn line.reverse :: linesFrom [] rest
    else linesFrom (c :: line) rest

def lines (s : String) : List String := (linesFrom [] s.toList).map String.ofList

end PathPolicy.Text
