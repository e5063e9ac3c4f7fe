import PathPolicy.Text.Lines
import PathPolicy.Text.ShellWords

/-!
# Rule lines

A line of a rule file is a list of words. Where it came from is kept for messages. The text of a
list of lines has the words of each line between single blanks; the digest of a policy is taken over
such a text.
-/

namespace PathPolicy.Config

/-- The words of a line, and where it came from. -/
structure Line where
  location : String
  tokens : List String
  deriving Repr, DecidableEq

/-- The words of a line between single blanks. -/
def Line.text (line : Line) : String := " ".intercalate line.tokens

/-- The text of a list of lines, each with a line feed after it. -/
def textOf (lines : List Line) : String :=
  lines.foldl (fun text line => text ++ line.text ++ "\n") ""

/-- What the lines of a text give. -/
structure Reading where
  lines : List Line
  /-- Where a line is that has no words because of an open quote. -/
  broken : List String
  deriving Repr, DecidableEq

/-- Where line number `n` of a source is. -/
def locationOf (source : String) (n : Nat) : String := s!"{source}:{n}"

/-- Reads lines, the first of which has number `n`. Lines without words are left out. -/
def readFrom (source : String) (n : Nat) : List String → Reading
  | [] => ⟨[], []⟩
  | raw :: rest =>
    let later := readFrom source (n + 1) rest
    match Text.ShellWords.split raw with
    | none => { later with broken := locationOf source n :: later.broken }
    | some [] => later
    | some tokens => { later with lines := ⟨locationOf source n, tokens⟩ :: later.lines }

def read (source text : String) : Reading := readFrom source 1 (Text.lines text)

end PathPolicy.Config
