import PathPolicy.Bytes
import PathPolicy.Event
import PathPolicy.Files.Path

/-!
# Programs that use files

A program that uses files is written for any monad that has them. `readText` and the other
operations of `Task` say in a failure what was being done, and with which path.
-/

namespace PathPolicy

/-- A monad with files, and with a place to report events to. -/
class Host (m : Type → Type) where
  readFile : Files.Path → m (Except Files.Fault Bytes)
  writeFile : Files.Path → Bytes → m (Except Files.Fault Unit)
  createDirectories : Files.Path → m (Except Files.Fault Unit)
  listDirectory : Files.Path → m (Except Files.Fault (List String))
  isDirectory : Files.Path → m Bool
  isFile : Files.Path → m Bool
  report : Event → m Unit

/-- A program that may fail. -/
abbrev Task (m : Type → Type) := ExceptT Failure m

namespace Task

variable {m : Type → Type} [Monad m] [Host m]

/-- Runs an access to a file. -/
def access {α : Type} (kind : Access) (path : Files.Path) (action : m (Except Files.Fault α)) :
    Task m α :=
  ExceptT.mk do
    match ← action with
    | .ok a => return .ok a
    | .error fault => return .error (.file kind path fault)

def readBytes (path : Files.Path) : Task m Bytes := access .reading path (Host.readFile path)

/-- The content of a text file, or its fault. -/
def tryReadText (path : Files.Path) : m (Except Files.Fault String) := do
  match ← Host.readFile path with
  | .error fault => return .error fault
  | .ok content =>
    match content.toString? with
    | some text => return .ok text
    | none => return .error .notText

def readText (path : Files.Path) : Task m String := access .reading path (tryReadText path)

def writeBytes (path : Files.Path) (content : Bytes) : Task m Unit :=
  access .writing path (Host.writeFile path content)

def report (e : Event) : Task m Unit := ExceptT.lift (Host.report e)

/-- Reports events in their order. -/
def reportAll (es : List Event) : Task m Unit := es.forM report

/-- The result of a program that must not fail the whole: a failure is reported as an event. -/
def orReport {α : Type} (action : Task m α) : Task m (Option α) :=
  ExceptT.mk do
    match ← action.run with
    | .ok a => return .ok (some a)
    | .error e =>
      Host.report (.failed e)
      return .ok none

/-- The result of a program, if it has one. -/
def attempt {α : Type} (action : Task m α) : Task m (Option α) :=
  ExceptT.mk do
    match ← action.run with
    | .ok a => return .ok (some a)
    | .error _ => return .ok none

/-- A result that may be a failure already. -/
def ofExcept {α : Type} (result : Except Failure α) : Task m α := ExceptT.mk (pure result)

end Task

end PathPolicy
