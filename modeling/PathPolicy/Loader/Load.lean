import PathPolicy.Loader.Basic

/-!
# Loading, switching and locking

To load is to make the policy of every submodule first, and only then to write. A submodule whose
policy cannot be made keeps the one that it has. What is to be off is switched off before policies
are loaded, what is to be on is switched on after that, and the configuration is locked last.
-/

namespace PathPolicy

/-- What loading did with the submodules. -/
structure LoadReport where
  loaded : List String
  /-- The kernel had this very policy. -/
  unchanged : List String
  failed : List String
  deriving Repr, DecidableEq

namespace Loader

/-- What loading did with one submodule. -/
inductive Fate where
  | loaded
  | unchanged
  | failed
  deriving Repr, DecidableEq

variable {m : Type → Type} [Monad m] [Host m] (l : Loader)

/-- Sets a switch. If that fails, it is reported and nothing else happens. -/
def trySwitch (submodule file : String) (value : Bool) : Task m Unit := do
  let _ ← Task.orReport (l.kernel.writeSwitch submodule file value)

/-- Sets the switches of a submodule, and switches it off if the options say so. -/
def switchOff (options : Options) (sm : Submodule) : Task m Unit := do
  (sm.switches options).forM fun (file, value) => l.trySwitch sm.name file value
  if !sm.isEnabled options then l.trySwitch sm.name "enabled" false

/-- Switches a submodule on if the options say so. -/
def switchOn (options : Options) (sm : Submodule) : Task m Unit := do
  if sm.isEnabled options then l.trySwitch sm.name "enabled" true

/-- Loads a policy, unless the kernel has it and it need not be loaded again. -/
def install (force : Bool) (sm : Submodule) (policy : Policy) : Task m Fate := do
  let current ← if force then pure none else l.loadedDigest? sm
  if current = some policy.digest.hex then
    Task.report (.upToDate sm.name)
    return .unchanged
  else
    match ← Task.orReport (l.kernel.load sm.name policy.binary) with
    | some () =>
      Task.report (.loaded sm.name policy.digest)
      return .loaded
    | none => return .failed

/-- The names of the submodules with the given fate. -/
def namesOf (fates : List (Submodule × Fate)) (fate : Fate) : List String :=
  (fates.filter (·.2 = fate)).map (·.1.name)

/-- Makes and loads all policies and sets all switches. -/
def load (force : Bool) : Task m LoadReport := do
  l.ensureUnlocked
  let options ← l.options
  let present ← ExceptT.lift l.submodules
  let made ← present.mapM fun sm =>
    return (sm, ← Task.orReport (l.compile sm options Kernel.Features.empty))
  if !options.main.enabled then l.trySwitch Kernel.mainDirectory "enabled" false
  present.forM (l.switchOff options)
  let policies := made.filterMap fun (sm, policy) => policy.map (sm, ·)
  let fates ← policies.mapM fun (sm, policy) => return (sm, ← l.install force sm policy)
  if options.main.enabled then l.trySwitch Kernel.mainDirectory "enabled" true
  present.forM (l.switchOn options)
  if options.main.locked then l.kernel.lock
  return {
    loaded := namesOf fates .loaded
    unchanged := namesOf fates .unchanged
    failed := (made.filter (·.2.isNone)).map (·.1.name) ++ namesOf fates .failed }

/-- The first load after the start of the system: policies are always written. -/
def startup : Task m LoadReport := l.load true

/-- The directory whose switch is meant: that of a submodule, or the main one. -/
def target (submodule : Option String) : Task m String :=
  match submodule with
  | none => return Kernel.mainDirectory
  | some name =>
    if name = Kernel.mainDirectory then return name
    else
      match Submodule.ofName? name with
      | none => throw (.absentSubmodule name)
      | some sm => do
        if ← ExceptT.lift (l.kernel.has sm.name) then return sm.name
        else throw (.absentSubmodule name)

/-- Switches a submodule, or the whole, on or off. -/
def switch (submodule : Option String) (value : Bool) : Task m Unit := do
  l.ensureUnlocked
  l.kernel.writeSwitch (← l.target submodule) "enabled" value

def enable (submodule : Option String) : Task m Unit := l.switch submodule true

def disable (submodule : Option String) : Task m Unit := l.switch submodule false

/-- Makes sure that the configuration is not changed until the system is started again. -/
def lock : Task m Unit := do
  l.ensureAvailable
  l.kernel.lock

def isLocked : Task m Bool := do
  l.ensureAvailable
  l.kernel.isLocked

end Loader

end PathPolicy
