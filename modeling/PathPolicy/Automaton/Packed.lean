import PathPolicy.Automaton.Basic

/-!
# Packed tables

The tables that a matcher walks. Every state has a default target. States share the rows of a group:
for each symbol a group names one state that owns the entry, and the target of that state; every
other state of the group takes its default.
-/

namespace PathPolicy

/-- The tables of an automaton. `targets` and `owners` hold one row of 255 entries for each group,
one after the other. -/
structure Packed where
  default : Array (Option StateId)
  base : Array Nat
  targets : Array (Option StateId)
  owners : Array (Option StateId)
  outputs : Array (Option Value)
  deriving DecidableEq

namespace Packed

instance : Inhabited Packed := ⟨⟨#[], #[], #[], #[], #[]⟩⟩

def states (t : Packed) : Nat := t.default.size

def groups (t : Packed) : Nat := t.targets.size / 255

/-- The place of the entry for state `s` and symbol `c`. -/
def index (t : Packed) (s : StateId) (c : Symbol) : Nat := t.base.getD s 0 * 255 + c.val

/-- The target of state `s` on symbol `c`. -/
def step (t : Packed) (s : StateId) (c : Symbol) : Option StateId :=
  if t.owners.getD (t.index s c) none = some s then t.targets.getD (t.index s c) none
  else t.default.getD s none

/-- The state that a path leads to from state `s`. -/
def walk (t : Packed) (s : StateId) : Bytes → Option StateId
  | [] => some s
  | b :: rest =>
    match symbol? b with
    | none => none
    | some c =>
      match t.step s c with
      | none => none
      | some next => t.walk next rest

def lookup (t : Packed) (path : Bytes) : Option Value :=
  match t.walk 0 path with
  | some s => t.outputs.getD s none
  | none => none

/-- Whether an entry is empty or a state. -/
def validTarget (states : Nat) : Option StateId → Bool
  | none => true
  | some s => s < states

/-- Tables that a walk cannot leave: every part has its size and refers to parts that exist. -/
structure WellFormed (t : Packed) : Prop where
  states_pos : 0 < t.states
  states_lt : t.states < 0xffffffff
  groups_pos : 0 < t.groups
  groups_le : t.groups ≤ t.states
  base_size : t.base.size = t.states
  outputs_size : t.outputs.size = t.states
  targets_size : t.targets.size = t.groups * 255
  owners_size : t.owners.size = t.groups * 255
  default_valid : ∀ s ∈ t.default, validTarget t.states s
  targets_valid : ∀ s ∈ t.targets, validTarget t.states s
  owners_valid : ∀ s ∈ t.owners, validTarget t.states s
  base_valid : ∀ g ∈ t.base, g < t.groups
  outputs_valid : ∀ v ∈ t.outputs, v ≠ some reservedValue

end Packed

end PathPolicy
