import PathPolicy.Config.Line
import PathPolicy.Config.Options
import PathPolicy.Files.Host

/-!
# The directory of the configuration

    main.toml
    <submodule>.conf
    <submodule>.conf.d/*.conf

Files that are missing count as empty.
-/

namespace PathPolicy.Config

/-- Where the configuration usually is. -/
def defaultDirectory : Files.Path := "/etc/sara"

/-- The file of the main options. -/
def mainFile : String := "main.toml"

variable {m : Type → Type} [Monad m] [Host m]

/-- The main options of a directory. -/
def readOptions (directory : Files.Path) : Task m Options := do
  let path := Files.Path.join directory mainFile
  match ← ExceptT.lift (Task.tryReadText path) with
  | .ok text =>
    match Options.parse text with
    | .ok options => return options
    | .error fault => throw (.options path fault)
  | .error .notFound =>
    Task.report (.defaultOptions path)
    return {}
  | .error fault => throw (.file .reading path fault)

/-- The rule files of a submodule, in the order in which they are read. -/
def ruleFiles (directory : Files.Path) (submodule : String) : Task m (List Files.Path) := do
  let first := Files.Path.join directory (submodule ++ ".conf")
  let others := Files.Path.join directory (submodule ++ ".conf.d")
  match ← ExceptT.lift (Host.listDirectory others) with
  | .ok names =>
    let chosen := (names.filter Files.Path.hasConfExtension).mergeSort fun a b => a ≤ b
    return first :: chosen.map (Files.Path.join others)
  | .error .notFound => return [first]
  | .error fault => throw (.file .listing others fault)

def readRuleFile (path : Files.Path) : Task m (List Line) := do
  match ← ExceptT.lift (Task.tryReadText path) with
  | .ok text =>
    let reading := read path text
    Task.reportAll (reading.broken.map .brokenLine)
    return reading.lines
  | .error .notFound => return []
  | .error fault => throw (.file .reading path fault)

/-- The lines of all rule files of a submodule. -/
def readRuleLines (directory : Files.Path) (submodule : String) : Task m (List Line) := do
  let files ← ruleFiles directory submodule
  let lines ← files.mapM readRuleFile
  return lines.flatten

end PathPolicy.Config
