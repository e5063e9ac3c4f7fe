import PathPolicy.Loader.Basic

/-!
# Testing what is loaded

What the kernel has loaded is loaded again and read back, and then turned into lines, into a policy
and into lines again. Nothing may be lost on either way.
-/

namespace PathPolicy.Loader

variable {m : Type → Type} [Monad m] [Host m] (l : Loader)

/-- The source that the lines of a policy under test are said to come from. -/
def testSource : String := "custom"

/-- Loads again what was dumped and checks that nothing has changed: what is dumped then. -/
def reload (sm : Submodule) (digest : String) (dump : Bytes) : Task m Bytes := do
  l.kernel.load sm.name dump
  let after ← l.kernel.readFlag sm.name Kernel.digestFile
  if after ≠ digest then throw (.digestChanged sm.name)
  let reloaded ← l.kernel.dump sm.name
  if Digest.ofContent reloaded ≠ Digest.ofContent dump then throw (.policyChanged sm.name)
  return reloaded

/-- Checks that the lines of a policy give the policy. -/
def recompile (options : Options) (sm : Submodule) (binary : Bytes) : Task m Unit := do
  let text := Config.textOf (← decompile sm binary)
  let reading := Config.read testSource text
  Task.reportAll (reading.broken.map .brokenLine)
  let policy ← l.compileLines sm reading.lines options Kernel.Features.empty
  let again := Config.textOf (← decompile sm policy.binary)
  if again ≠ text then throw (.notReproduced sm.name)

def testSubmodule (options : Options) (sm : Submodule) : Task m Unit := do
  let digest ← l.kernel.readFlag sm.name Kernel.digestFile
  let dump ← l.kernel.dump sm.name
  let isLoaded := decide (digest ≠ Digest.notLoaded)
  if isLoaded = dump.isEmpty then throw (.inconsistent sm.name digest dump.length)
  if isLoaded then
    let reloaded ← l.reload sm digest dump
    l.recompile options sm reloaded
    Task.report (.testPassed sm.name)
  else Task.report (.nothingLoaded sm.name)

def selfTest : Task m Unit := do
  l.ensureUnlocked
  let options ← l.options
  let present ← ExceptT.lift l.submodules
  present.forM (l.testSubmodule options)

end PathPolicy.Loader
