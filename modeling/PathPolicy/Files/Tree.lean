import PathPolicy.Bytes
import PathPolicy.Files.Fault
import PathPolicy.Files.Path

/-!
# Trees of files

A tree says what there is at each place; the root is always a directory. A place is the list of
names that lead to it from the root. The operations follow the rules of a file system: names are
followed through directories only, a file can be written where there is a directory to hold it, and
a directory is not read or written as a file.
-/

namespace PathPolicy.Files

/-- The names that lead to something from the root. -/
abbrev Place := List String

/-- What there is at a place. -/
inductive Node where
  | directory
  | file (content : Bytes)
  /-- A file that holds `first` until it has been read once, and `later` from then on. -/
  | changing (first later : Bytes)
  deriving Repr, DecidableEq

/-- What there is at each place. -/
structure Tree where
  entries : List (Place × Node)
  deriving Repr, DecidableEq

namespace Tree

def empty : Tree := ⟨[]⟩

instance : Inhabited Tree := ⟨empty⟩

/-- What there is at a place, if anything. -/
def get? (t : Tree) (p : Place) : Option Node :=
  if p = [] then some .directory else t.entries.lookup p

/-- Removes what there is at a place and below it. -/
def erase (t : Tree) (p : Place) : Tree := ⟨t.entries.filter fun (q, _) => !p.isPrefixOf q⟩

/-- Puts something at a place, instead of what there was. -/
def put (t : Tree) (p : Place) (n : Node) : Tree :=
  ⟨(p, n) :: t.entries.filter fun (q, _) => q ≠ p⟩

def children (t : Tree) (p : Place) : List String :=
  t.entries.filterMap fun (q, _) =>
    if q.dropLast = p then q.getLast? else none

/-- Whether a name is longer than a file system allows. -/
def isTooLong (name : String) : Bool := 255 < name.utf8ByteSize

/-- Follows steps from a directory: the place that they lead to, and what is there. Every step but
the last has to lead to a directory. -/
def follow (t : Tree) (p : Place) : List String → Except Fault (Place × Option Node)
  | [] => .ok (p, t.get? p)
  | step :: rest =>
    if step = "." then t.follow p rest
    else if step = ".." then t.follow p.dropLast rest
    else if isTooLong step then .error .nameTooLong
    else
      let q := p ++ [step]
      match t.get? q with
      | some .directory => t.follow q rest
      | some node => if rest = [] then .ok (q, some node) else .error .notDirectory
      | none => if rest = [] then .ok (q, none) else .error .notFound

/-- Follows steps to a directory. -/
def enter (t : Tree) (p : Place) (steps : List String) : Except Fault Place := do
  match ← t.follow p steps with
  | (q, some .directory) => return q
  | (_, some _) => throw .notDirectory
  | (_, none) => throw .notFound

def origin (workingPlace : Place) (path : Path) : Place :=
  if path.isAbsolute then [] else workingPlace

/-- Checks that a text can be a path at all. -/
def check (path : Path) : Except Fault Unit := do
  if path.toList.contains (Char.ofNat 0) then throw .zeroInName
  if path.isTooLong then throw .nameTooLong

/-- The place of a path, and what is there. Relative paths start at the working place. -/
def resolve (t : Tree) (workingPlace : Place) (path : Path) :
    Except Fault (Place × Option Node) := do
  check path
  if path.isEmpty then throw .notFound
  let (p, node) ← t.follow (origin workingPlace path) path.steps
  match node with
  | some .directory => return (p, node)
  | some _ => if path.endsInSlash then throw .notDirectory else return (p, node)
  | none => return (p, node)

/-- The content of a file, and the tree after it has been read. -/
def read (t : Tree) (workingPlace : Place) (path : Path) : Except Fault (Bytes × Tree) := do
  match ← t.resolve workingPlace path with
  | (_, some .directory) => throw .isDirectory
  | (_, some (.file content)) => return (content, t)
  | (p, some (.changing first later)) => return (first, t.put p (.file later))
  | (_, none) => throw .notFound

/-- The tree after a file has been written, and its place. A path that ends in a slash is that of a
directory, whatever there is. -/
def write (t : Tree) (workingPlace : Place) (path : Path) (content : Bytes) :
    Except Fault (Place × Tree) := do
  check path
  if path.endsInSlash then
    let _ ← t.enter (origin workingPlace path) path.steps.dropLast
    throw .isDirectory
  match ← t.resolve workingPlace path with
  | (_, some .directory) => throw .isDirectory
  | (p, _) => return (p, t.put p (.file content))

/-- Makes the directory that steps lead to. -/
def makeDirectory (t : Tree) (p : Place) (steps : List String) : Except Fault Tree := do
  match ← t.follow p steps with
  | (_, some _) => throw .alreadyExists
  | (q, none) => return t.put q .directory

/-- Makes the directory that steps lead to, unless it is there. -/
def ensureDirectory (t : Tree) (p : Place) (steps : List String) : Except Fault Unit × Tree :=
  match t.makeDirectory p steps with
  | .ok t => (.ok (), t)
  | .error fault => (if (t.enter p steps).isOk then .ok () else .error fault, t)

/-- Makes the directory that steps lead to and those above it, where they are missing. Those that
were made before a fault stay. -/
def makeDirectories (t : Tree) (p : Place) (steps : List String) : Except Fault Unit × Tree :=
  if steps = [] then (.ok (), t)
  else
    match t.ensureDirectory p steps with
    | (.error .notFound, t) =>
      match t.makeDirectories p (Path.above steps) with
      | (.ok (), t) => t.ensureDirectory p steps
      | failed => failed
    | done => done
termination_by steps.length
decreasing_by exact Path.length_above ‹_›

/-- Makes a directory and those above it, where they are missing. -/
def createDirectories (t : Tree) (workingPlace : Place) (path : Path) : Except Fault Unit × Tree :=
  match check path with
  | .ok () => t.makeDirectories (origin workingPlace path) path.steps
  | .error fault => (.error fault, t)

/-- The names in a directory. -/
def list (t : Tree) (workingPlace : Place) (path : Path) : Except Fault (List String) := do
  match ← t.resolve workingPlace path with
  | (p, some .directory) => return t.children p
  | (_, some _) => throw .notDirectory
  | (_, none) => throw .notFound

/-- What a path leads to, if it leads anywhere. -/
def at? (t : Tree) (workingPlace : Place) (path : Path) : Option Node :=
  match t.resolve workingPlace path with
  | .ok (_, node) => node
  | .error _ => none

end Tree

end PathPolicy.Files
