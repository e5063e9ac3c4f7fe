/-!
# Features of the kernel

What the kernel says about itself, by the name of a submodule and of a feature. Fixed answers may be
laid over those of the running kernel.
-/

namespace PathPolicy.Kernel

/-- The value of each feature, if it has one. -/
structure Features where
  get? : String → String → Option String

namespace Features

def empty : Features := ⟨fun _ _ => none⟩

instance : Inhabited Features := ⟨empty⟩

/-- Gives a feature a value, in place of the one it had. -/
def set (f : Features) (submodule name value : String) : Features :=
  ⟨fun s n => if s = submodule ∧ n = name then some value else f.get? s n⟩

/-- The values of a list; of several for one feature the last one counts. -/
def ofList (entries : List (String × String × String)) : Features :=
  entries.foldl (fun f (submodule, name, value) => f.set submodule name value) empty

/-- The values of `overrides`, and of `base` where it has none. -/
def layer (overrides base : Features) : Features :=
  ⟨fun s n => (overrides.get? s n).or (base.get? s n)⟩

/-- Whether a feature is on: it has a value other than zero. -/
def enabled (f : Features) (submodule name : String) : Bool :=
  match f.get? submodule name with
  | none => false
  | some value => value ≠ "0"

end Features

end PathPolicy.Kernel
