/-!
# Words of a shell

A text is cut into words at blanks, with the quoting of a shell: single quotes keep everything,
double quotes keep everything but escapes of a few characters, a backslash keeps the next
character, and a hash sign where a word would start opens a comment up to the end of the line.

The reader is a machine with one `step` per character, so it is defined for every text; it fails
only where the text ends in an open quote or in a lone backslash.
-/

namespace PathPolicy.Text.ShellWords

/-- The part of the current word that was read, last character first. -/
abbrev Part := List Char

/-- Where the reader stands. -/
inductive Mode where
  /-- Between words. -/
  | gap
  /-- In a comment. -/
  | comment
  /-- In a word, outside quotes. -/
  | bare (word : Part)
  /-- After a backslash outside quotes. -/
  | escape (word : Part)
  /-- In single quotes. -/
  | single (word : Part)
  /-- In double quotes. -/
  | double (word : Part)
  /-- After a backslash in double quotes. -/
  | doubleEscape (word : Part)
  deriving Repr, DecidableEq

/-- The characters that end a word. -/
def isSeparator (c : Char) : Bool := c == ' ' || c == '\t' || c == '\n'

/-- The characters that a backslash stands before in double quotes. -/
def isEscapable (c : Char) : Bool := c == '$' || c == '\x60' || c == '\x22' || c == '\\'

/-- Reads a character of a word outside quotes. -/
def bare (word : Part) (c : Char) : Mode :=
  if c = '\x22' then .double word
  else if c = '\x27' then .single word
  else if c = '\\' then .escape word
  else .bare (c :: word)

/-- Reads one character: the word that it ends, if any, and where the reader stands after it. -/
def step : Mode → Char → Option Part × Mode
  | .gap, c =>
    (none, if isSeparator c then .gap else if c = '#' then .comment else bare [] c)
  | .comment, c => (none, if c = '\n' then .gap else .comment)
  | .bare word, c => if isSeparator c then (some word, .gap) else (none, bare word c)
  | .escape word, c => (none, .bare (if c = '\n' then word else c :: word))
  | .single word, c => (none, if c = '\x27' then .bare word else .single (c :: word))
  | .double word, c =>
    (none,
      if c = '\x22' then .bare word
      else if c = '\\' then .doubleEscape word
      else .double (c :: word))
  | .doubleEscape word, c =>
    (none,
      if isEscapable c then .double (c :: word)
      else if c = '\n' then .double word
      else .double (c :: '\\' :: word))

/-- What the end of the text does: it may end a word, and it must not leave a quote open. -/
def finish : Mode → Option (Option Part)
  | .gap | .comment => some none
  | .bare word => some (some word)
  | .escape _ | .single _ | .double _ | .doubleEscape _ => none

/-- A word of the characters read. -/
def wordOf (part : Part) : String := String.ofList part.reverse

/-- Reads words from where the reader stands; `done` holds those already read, last first. -/
def scan (done : List String) (mode : Mode) : List Char → Option (List String)
  | [] => (finish mode).map fun last => ((last.map wordOf).toList ++ done).reverse
  | c :: rest =>
    let (ended, mode) := step mode c
    scan ((ended.map wordOf).toList ++ done) mode rest

def split (s : String) : Option (List String) := scan [] .gap s.toList

end PathPolicy.Text.ShellWords
