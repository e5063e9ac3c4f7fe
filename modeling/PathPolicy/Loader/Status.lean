import PathPolicy.Loader.Basic

/-!
# The state of the kernel
-/

namespace PathPolicy

/-- The state of a submodule. -/
structure SubmoduleStatus where
  name : String
  longName : String
  enabled : Bool
  /-- The digest of the policy that is loaded. -/
  digest : String
  version : Option String
  /-- The value of each feature that the kernel has, in the order of their names. -/
  features : List (String × Option String)
  /-- What files get that no rule is about. -/
  defaultValue : Option String
  /-- The policy that is loaded, as text; only if it was asked for. -/
  config : Option String
  deriving Repr, DecidableEq

def SubmoduleStatus.isLoaded (s : SubmoduleStatus) : Bool := s.digest ≠ Digest.notLoaded

/-- The state of the kernel. -/
structure Status where
  enabled : Bool
  locked : Bool
  submodules : List SubmoduleStatus
  deriving Repr, DecidableEq

namespace Loader

variable {m : Type → Type} [Monad m] [Host m] (l : Loader)

/-- The value of the files that no rule is about, as text. One that makes no sense is reported. -/
def defaultValue (sm : Submodule) : Task m (Option String) := do
  match sm.defaultFile? with
  | none => return none
  | some file =>
    match ← Task.attempt (l.kernel.readFlag sm.name file) with
    | none => return none
    | some text =>
      match Text.Numeral.parse 10 text with
      | .error fault =>
        Task.report (.badDefault sm.name text fault)
        return none
      | .ok value =>
        match sm.renderValue value with
        | .ok rendered => return some rendered
        | .error e =>
          Task.report (.invalidDefault e)
          return none

def submoduleStatus (verbose : Bool) (sm : Submodule) : Task m SubmoduleStatus := do
  let digest := (← l.loadedDigest? sm).getD Digest.notLoaded
  let names := sm.featureFiles.mergeSort fun a b => a ≤ b
  let features ← names.mapM fun file =>
    return (file, ← Task.attempt (l.kernel.readFlag sm.name file))
  let enabled := (← Task.attempt (l.kernel.readSwitch sm.name "enabled")).getD false
  let version ← Task.attempt (l.kernel.readFlag sm.name "version")
  let defaultValue ← l.defaultValue sm
  let status : SubmoduleStatus :=
    { name := sm.name, longName := sm.longName, enabled, digest, version, features, defaultValue,
      config := none }
  if verbose && status.isLoaded then
    return { status with config := some (← l.currentConfig sm) }
  else return status

def status (verbose : Bool) : Task m Status := do
  l.ensureAvailable
  let present ← ExceptT.lift l.submodules
  let submodules ← present.mapM (l.submoduleStatus verbose)
  let enabled ← l.kernel.readSwitch Kernel.mainDirectory "enabled"
  let locked ← l.kernel.isLocked
  return { enabled, locked, submodules }

end Loader

end PathPolicy
