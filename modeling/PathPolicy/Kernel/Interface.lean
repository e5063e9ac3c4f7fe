import PathPolicy.Files.Host
import PathPolicy.Kernel.Features
import PathPolicy.Text.Blank

/-!
# The files of the kernel

The kernel has one directory for each submodule it has, and `main` for the module as a whole:

    main/enabled  main/locked
    <submodule>/enabled  hash  version  .load  .dump  ...

A flag is a file with a short text, a switch is a flag that is `1` or `0`. A policy is loaded by
writing it to `.load` and read back from `.dump`.
-/

namespace PathPolicy.Kernel

/-- Where the directory of the kernel usually is mounted. -/
def defaultMount : Files.Path := "/sys/kernel/security"

/-- The directory with the switches of the whole. -/
def mainDirectory : String := "main"

/-- The file with the digest of the policy that is loaded. -/
def digestFile : String := "hash"

/-- The file that takes a policy. -/
def loadFile : String := ".load"

/-- The file with the policy that is loaded. -/
def dumpFile : String := ".dump"

/-- The directory of the matcher test. -/
def matcherDirectory : String := "dfa_test"

/-- The file that takes a path for the matcher. -/
def questionFile : String := "test"

/-- The file with the matcher's answer. -/
def answerFile : String := "result"

/-- The directory of the kernel. -/
structure Interface where
  root : Files.Path
  deriving Repr, DecidableEq

namespace Interface

/-- The directory of the kernel below a mount point. -/
def ofMount (mount : Files.Path) : Interface := ⟨Files.Path.join mount "sara"⟩

def directory (k : Interface) (submodule : String) : Files.Path := Files.Path.join k.root submodule

def path (k : Interface) (submodule file : String) : Files.Path :=
  Files.Path.join (k.directory submodule) file

variable {m : Type → Type} [Monad m] [Host m] (k : Interface)

/-- Whether the kernel has the module. -/
def isAvailable : m Bool := Host.isDirectory (k.directory mainDirectory)

/-- Whether the kernel has a submodule. -/
def has (submodule : String) : m Bool := Host.isDirectory (k.directory submodule)

/-- The text of a flag, without the blanks around it. -/
def readFlag (submodule file : String) : Task m String := do
  let text ← Task.readText (k.path submodule file)
  return Text.trim text

def readSwitch (submodule file : String) : Task m Bool := do
  let text ← k.readFlag submodule file
  return text = "1"

def writeFlag (submodule file text : String) : Task m Unit :=
  Task.writeBytes (k.path submodule file) (Bytes.ofString (text ++ "\n"))

def writeSwitch (submodule file : String) (value : Bool) : Task m Unit :=
  k.writeFlag submodule file (if value then "1" else "0")

def load (submodule : String) (blob : Bytes) : Task m Unit :=
  Task.writeBytes (k.path submodule loadFile) blob

def dump (submodule : String) : Task m Bytes := Task.readBytes (k.path submodule dumpFile)

/-- Whether the configuration may not be changed any more. -/
def isLocked : Task m Bool := k.readSwitch mainDirectory "locked"

/-- Makes sure that the configuration is not changed any more. -/
def lock : Task m Unit := k.writeSwitch mainDirectory "locked" true

/-- The values of the given features of a submodule, read from its files. -/
def features (submodule : String) (names : List String) : Task m Features :=
  names.foldlM
    (fun f name => do
      match ← Task.attempt (k.readFlag submodule name) with
      | some value => return f.set submodule name value
      | none => return f)
    Features.empty

end Interface

end PathPolicy.Kernel
