import PathPolicy.Loader.Basic

/-!
# Policies as files

The policies of all submodules can be made for another machine: the features that they depend on are
then given, and not read from the kernel.
-/

namespace PathPolicy.Loader

variable {m : Type → Type} [Monad m] [Host m] (l : Loader)

/-- Where policies are written to if nothing else is said. -/
def defaultOutput : Files.Path := "./output"

/-- The policies of all submodules, by name. What `overrides` says replaces what the kernel says. -/
def binaries (overrides : Kernel.Features) : Task m (List (String × Policy)) := do
  let options ← l.options
  let all := Submodule.all.mergeSort fun a b => a.name ≤ b.name
  all.mapM fun sm => return (sm.name, ← l.compile sm options overrides)

/-- Whether the policy of a submodule depends on whether trampolines are emulated. -/
def hasVariants (name : String) : Bool :=
  match Submodule.ofName? name with
  | some sm => sm.featureFiles.contains Protection.emutrampFeature
  | none => false

/-- The features of a kernel that emulates trampolines, or does not. -/
def variantFeatures (available : Bool) : Kernel.Features :=
  (Submodule.all.filter fun sm => hasVariants sm.name).foldl
    (fun f sm => f.set sm.name Protection.emutrampFeature (if available then "1" else "0"))
    Kernel.Features.empty

/-- What the name of the file of a variant ends in. -/
def variantSuffix (available : Bool) : String := if available then "" else "_noemutramp"

/-- Writes the policies of one variant to a directory. A policy that does not depend on the variant
is written for the first one only. -/
def writeVariant (directory : Files.Path) (available : Bool) : Task m (List Files.Path) := do
  let made ← l.binaries (variantFeatures available)
  let chosen := made.filter fun (name, _) => available || hasVariants name
  chosen.mapM fun (name, policy) => do
    let path := Files.Path.join directory (name ++ variantSuffix available)
    Task.writeBytes path policy.binary
    return path

/-- Writes the policies of both variants to a directory. -/
def configToFile (directory : Files.Path) : Task m (List Files.Path) := do
  Task.access .creating directory (Host.createDirectories directory)
  let withTrampolines ← l.writeVariant directory true
  let without ← l.writeVariant directory false
  return withTrampolines ++ without

end PathPolicy.Loader
