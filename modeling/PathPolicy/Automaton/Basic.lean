import PathPolicy.Rule.Basic

/-!
# Path automata

A deterministic automaton reads a path byte by byte, starting in state 0. A symbol is a byte other
than zero, and a state has at most one target for each symbol; a path whose walk falls off the
automaton has no value.
-/

namespace PathPolicy

/-- A byte of a path, less one. -/
abbrev Symbol := Fin 255

/-- The symbol of a byte. The zero byte has none. -/
def symbol? (b : UInt8) : Option Symbol :=
  if h : b.toNat = 0 then none
  else some ⟨b.toNat - 1, by have := b.toNat_lt; omega⟩

def symbols : List Symbol := List.finRange 255

/-- The place of a state in its automaton. -/
abbrev StateId := Nat

/-- The target of a state for each symbol, or none. -/
abbrev Row := Vector (Option StateId) 255

namespace Row

/-- The row with one entry for every symbol. -/
def fill (target : Option StateId) : Row := Vector.replicate 255 target

/-- A row has an entry for every symbol. -/
instance instGetElemSymbol : GetElem Row Symbol (Option StateId) fun _ _ => True where
  getElem row c _ := row.get c

@[simp] theorem getElem_eq (row : Row) (c : Symbol) : row[c] = row[c.val] := rfl

/-- The targets of a row, each once, in the order of their first symbols. -/
def targets (row : Row) : List StateId := (row.toList.filterMap id).eraseDups

/-- Whether every symbol leads to `target`. -/
def leadsTo (row : Row) (target : StateId) : Bool := row.all (· == some target)

end Row

/-- A state: where it leads, and the value of the paths that end in it. -/
structure State where
  row : Row
  output : Option Value
  deriving DecidableEq

/-- An automaton is an array of states, the first of which is its start. -/
structure Automaton where
  states : Array State
  deriving DecidableEq

namespace Automaton

instance : Inhabited Automaton := ⟨⟨#[]⟩⟩

def size (a : Automaton) : Nat := a.states.size

/-- The target of state `s` on symbol `c`. -/
def step (a : Automaton) (s : StateId) (c : Symbol) : Option StateId :=
  match a.states[s]? with
  | some state => state.row[c]
  | none => none

/-- The value of the paths that end in state `s`. -/
def output (a : Automaton) (s : StateId) : Option Value :=
  match a.states[s]? with
  | some state => state.output
  | none => none

/-- The state that a path leads to from state `s`. -/
def walk (a : Automaton) (s : StateId) : Bytes → Option StateId
  | [] => some s
  | b :: rest =>
    match symbol? b with
    | none => none
    | some c =>
      match a.step s c with
      | none => none
      | some t => a.walk t rest

def lookup (a : Automaton) (path : Bytes) : Option Value :=
  match a.walk 0 path with
  | some s => a.output s
  | none => none

/-- Every target is a state of the automaton. -/
def WellFormed (a : Automaton) : Prop :=
  ∀ s c t, a.step s c = some t → t < a.size

end Automaton

end PathPolicy
