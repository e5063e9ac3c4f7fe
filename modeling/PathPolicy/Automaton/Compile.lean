import PathPolicy.Automaton.Builder
import PathPolicy.Automaton.Packing
import PathPolicy.Automaton.Reduce

/-!
# From rules to tables

The automaton of a table of rules is built, reduced and packed. A table whose automaton would need
more states than there are numbers for has none.
-/

namespace PathPolicy.RuleTable

/-- An automaton and its tables. -/
structure Compiled where
  automaton : Automaton
  tables : Packed

/-- The automaton of a table before any simplification, unless it has too many states. -/
def raw? (t : RuleTable) : Option Automaton :=
  let a := Automaton.ofTable t
  if a.size ≤ Builder.capacity then some a else none

def compile? (t : RuleTable) : Option Compiled :=
  t.raw?.map fun a =>
    let reduced := a.reduce
    ⟨reduced, reduced.pack⟩

end PathPolicy.RuleTable
