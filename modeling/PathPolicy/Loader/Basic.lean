import PathPolicy.Config.Directory
import PathPolicy.Kernel.Interface
import PathPolicy.Submodule

/-!
# Loaders

A loader brings the configuration of a directory into the kernel. Here is what its operations have
in common: the checks that they start with, and how lines become a policy.
-/

namespace PathPolicy

/-- Where a loader learns about images. -/
inductive ImageSource where
  /-- From the files themselves. -/
  | files
  /-- From what is known beforehand. -/
  | known (inspector : Image.Inspector)

/-- The directory of the configuration, the files of the kernel, where images are inspected, and
what becomes of lines that are no rules. -/
structure Loader where
  configDirectory : Files.Path
  kernel : Kernel.Interface
  images : ImageSource
  strictness : Strictness

namespace Loader

variable {m : Type → Type} [Monad m] [Host m] (l : Loader)

def options : Task m Options := Config.readOptions l.configDirectory

/-- Fails if the kernel does not have the module. -/
def ensureAvailable : Task m Unit := do
  if !(← ExceptT.lift l.kernel.isAvailable) then throw (.unavailable l.kernel.root)

/-- Fails if the configuration may not be changed. -/
def ensureUnlocked : Task m Unit := do
  l.ensureAvailable
  if ← l.kernel.isLocked then throw .locked

/-- The submodules that the kernel has. -/
def submodules : m (List Submodule) := Submodule.all.filterM fun sm => l.kernel.has sm.name

def inspectFile (path : Files.Path) : m Image.Inspection := do
  if !(← Host.isFile path) then return .unknown
  match ← Host.readFile path with
  | .ok content => return Image.Inspection.ofBytes content
  | .error fault => return .unreadable fault

def inspectFiles (paths : List Files.Path) : m Image.Inspector := do
  let found ← paths.eraseDups.mapM fun path => return (path, ← inspectFile path)
  return fun path => (found.lookup path).getD .unknown

/-- What is known about the images at the given paths. -/
def inspector (paths : List Files.Path) : m Image.Inspector :=
  match l.images with
  | .files => inspectFiles paths
  | .known inspector => return inspector

/-- The features that the meaning of a submodule's policy depends on. A feature that `overrides` has
is not read. -/
def features (sm : Submodule) (overrides : Kernel.Features) : Task m Kernel.Features := do
  let unknown := sm.policyFeatures.filter fun name => (overrides.get? sm.name name).isNone
  return overrides.layer (← l.kernel.features sm.name unknown)

/-- What a policy of the given lines depends on. -/
def context (sm : Submodule) (lines : List (List String)) (options : Options)
    (overrides : Kernel.Features) (strictness : Strictness) : Task m Context := do
  let features ← l.features sm overrides
  let inspector ← ExceptT.lift (l.inspector (lines.flatMap sm.consulted))
  return { options, features, inspector, strictness }

def compileLines (sm : Submodule) (lines : List Config.Line) (options : Options)
    (overrides : Kernel.Features) : Task m Policy := do
  let ctx ← l.context sm (lines.map (·.tokens)) options overrides l.strictness
  let outcome := sm.compile lines ctx
  Task.reportAll outcome.events
  match outcome.result with
  | .ok policy => return policy
  | .error e => throw (.config e)

/-- The policy of a submodule's rule files. -/
def compile (sm : Submodule) (options : Options) (overrides : Kernel.Features) : Task m Policy := do
  let lines ← Config.readRuleLines l.configDirectory sm.name
  l.compileLines sm lines options overrides

/-- The lines of the binary form of a policy. -/
def decompile (sm : Submodule) (binary : Bytes) : Task m (List Config.Line) :=
  match sm.decompile binary with
  | .ok lines => return lines
  | .error e => throw (.binary e)

/-- The policy that the kernel has, as text. -/
def currentConfig (sm : Submodule) : Task m String := do
  let dump ← l.kernel.dump sm.name
  return Config.textOf (← decompile sm dump)

/-- The digest that the kernel reports for a submodule, if it can be read. -/
def loadedDigest? (sm : Submodule) : Task m (Option String) :=
  Task.attempt (l.kernel.readFlag sm.name Kernel.digestFile)

end Loader

end PathPolicy
