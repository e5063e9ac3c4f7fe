import PathPolicy.Image.Inspection
import PathPolicy.Pattern
import PathPolicy.Protection.Column

/-!
# Protection rules

A rule gives a protection word to a program, or to every program whose path starts in a certain way.
It is read from a line whose first word is the path, with an asterisk at the end for the beginning
of a path, and whose other words are the protection columns. A word that would break the program of
an exact rule is refused.
-/

namespace PathPolicy.Protection

/-- A path, the protection word for it, and whether the path is the whole of a program's path. -/
structure Rule where
  path : String
  flags : Flags
  exact : Bool
  deriving Repr, DecidableEq

namespace Rule

/-- The longest path, in bytes, that the kernel takes. -/
def pathLimit : Nat := 4096

/-- The paths that a rule is about. -/
def pattern (r : Rule) : Pattern := ⟨Bytes.ofString r.path, r.exact⟩

/-- The path as it is written in a line. -/
def written (r : Rule) : String := if r.exact then r.path else r.path ++ "*"

/-- Whether `a` comes before `b` in the order of their patterns. -/
def isBefore (a b : Rule) : Bool := a.pattern.isBefore b.pattern

end Rule

/-- Refuses a word that would break the program with the given traits. -/
def checkTraits (flags : Flags) (traits : Image.Traits) : Except Fault Unit :=
  if flags.contains Flags.wxorx && !flags.contains Flags.emutramp && traits.execStack then
    .error .executableStack
  else if flags.contains Flags.mmap && !traits.relro then .error .missingRelro
  else if flags.contains Flags.mmap && traits.dynamicLoading then .error .dynamicLoading
  else .ok ()

/-- Whether the image at a path matters for a word: it does not where violations are let pass. -/
def needsImage (flags : Flags) : Bool := !flags.contains Flags.complain

/-- Refuses a word that would break the program at a path. -/
def checkImage (inspector : Image.Inspector) (path : String) (flags : Flags) : Except Fault Unit :=
  if needsImage flags then
    match (inspector path).traits? with
    | some traits => checkTraits flags traits
    | none => .ok ()
  else .ok ()

/-- What the meaning of a line depends on. -/
structure Reader where
  support : Support
  inspector : Image.Inspector
  /-- The first word has to be an absolute path, or stand for all of them. -/
  absolutePaths : Bool

namespace Reader

/-- The path of the first word of a line, and whether it is exact. -/
def splitPattern (word : String) : String × Bool :=
  let cs := word.toList
  if cs.getLast? = some '*' then (String.ofList cs.dropLast, false) else (word, true)

/-- The rule of a line, without regard to the program that it is about. -/
def readText (r : Reader) : List String → Except Fault Rule
  | [] | [_] => .error .notEnoughFields
  | word :: columns => do
    let (path, exact) := splitPattern word
    if Rule.pathLimit < path.utf8ByteSize then throw .pathTooLong
    if r.absolutePaths ∧ path.toList.head? ≠ some '/' ∧ word ≠ "*" then throw .relativePath
    let flags ← Flags.parse columns r.support
    return { path, flags, exact }

/-- The path whose image decides about a line, if there is one. -/
def consulted? (r : Reader) (tokens : List String) : Option String :=
  match r.readText tokens with
  | .ok rule => if rule.exact && needsImage rule.flags then some rule.path else none
  | .error _ => none

def read (r : Reader) (tokens : List String) : Except Fault Rule := do
  let rule ← r.readText tokens
  if rule.exact then checkImage r.inspector rule.path rule.flags
  return rule

end Reader

end PathPolicy.Protection
