/-!
# Paths of files

A path is a text, so that messages show it as it was given.
-/

namespace PathPolicy.Files

/-- A path as a text. -/
abbrev Path := String

namespace Path

/-- A path below a directory. A path that starts at the root is not below anything. -/
def join (directory : Path) (name : String) : Path :=
  if name.toList.head? = some '/' then name
  else if directory.isEmpty ∨ directory.toList.getLast? = some '/' then directory ++ name
  else directory ++ "/" ++ name

/-- The parts of a text between slashes. -/
def splitSlashes : List Char → List (List Char)
  | [] => [[]]
  | c :: rest =>
    if c = '/' then [] :: splitSlashes rest
    else
      match splitSlashes rest with
      | [] => [[c]]
      | part :: more => (c :: part) :: more

/-- The steps of a path. A step leads to a name in a directory, `..` to the directory above, and `.`
nowhere else; all of them start from a directory. -/
def steps (p : Path) : List String :=
  ((splitSlashes p.toList).map String.ofList).filter fun step => step ≠ ""

/-- The steps without those at their end that lead nowhere else. -/
def dropStays (steps : List String) : List String :=
  (steps.reverse.dropWhile fun step => step = ".").reverse

/-- The steps that lead to what is above. -/
def above (steps : List String) : List String := dropStays (dropStays steps).dropLast

theorem length_dropStays (steps : List String) : (dropStays steps).length ≤ steps.length := by
  have h := (List.dropWhile_sublist (l := steps.reverse) fun step => step = ".").length_le
  simpa [dropStays] using h

/-- There are fewer steps to what is above. -/
theorem length_above {steps : List String} (h : steps ≠ []) :
    (above steps).length < steps.length := by
  have outer := length_dropStays (dropStays steps).dropLast
  have inner := length_dropStays steps
  have : 0 < steps.length := List.length_pos_iff.2 h
  simp only [above, List.length_dropLast] at *
  omega

def isAbsolute (p : Path) : Bool := p.toList.head? == some '/'

/-- Whether a path ends in a slash, so that it can only be that of a directory. -/
def endsInSlash (p : Path) : Bool := p.toList.getLast? == some '/'

/-- Whether a path is longer than a file system allows. -/
def isTooLong (p : Path) : Bool := 4095 < p.utf8ByteSize

/-- Whether the extension of a file name is `conf`. A name that starts with its only dot has no
extension. -/
def hasConfExtension (name : String) : Bool :=
  let back := name.toList.reverse
  back.takeWhile (· ≠ '.') = ['f', 'n', 'o', 'c'] ∧ 5 < back.length

end Path

end PathPolicy.Files
