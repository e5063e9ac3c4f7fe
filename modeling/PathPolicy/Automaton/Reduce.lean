import PathPolicy.Automaton.Marks
import Std.Data.HashMap

/-!
# Reducing an automaton

First the states that the start does not reach are dropped. Then states are identified as long as
that changes anything: a catch-all state, which leads to one sink on every symbol and has the sink's
value, with its sink; and states that have the same value and the same row, where leading to oneself
counts as the same. Each class is represented by its first state, so the start stays state 0. Last
the states that are left are numbered densely, in their order.
-/

namespace PathPolicy

/-- States that keep their numbers while others are dropped. -/
structure Sparse where
  slots : Array (Option State)

namespace Sparse

/-- The number of states that are left. -/
def live (p : Sparse) : Nat := p.slots.countP Option.isSome

/-- The state with number `s`, if it is left. -/
def get? (p : Sparse) (s : StateId) : Option State := (p.slots[s]?).join

section Identify

variable {κ : Type} [BEq κ] [Hashable κ]

/-- The key of the state of each number, if it is left and has one. -/
def keys (p : Sparse) (key : StateId → State → Option κ) : Array (Option κ) :=
  p.slots.mapIdx fun i slot => slot.bind (key i)

/-- The first number for each key. -/
def firsts (keys : Array (Option κ)) : Std.HashMap κ StateId :=
  keys.toList.zipIdx.foldl
    (fun found (k, i) =>
      match k with
      | some k => found.insertIfNew k i
      | none => found)
    ∅

/-- For every number, the first one with the same key. A number without a key stands for itself. -/
def representatives (keys : Array (Option κ)) : Array StateId :=
  let found := firsts keys
  keys.mapIdx fun i k => (k.bind (found[·]?)).getD i

/-- Leads every symbol to representatives. A row that leads to nothing else stays as it is. -/
def lead (rep : Array StateId) (row : Row) : Row :=
  if row.all (·.all fun t => rep.getD t t = t) then row
  else row.map (·.map fun t => rep.getD t t)

/-- Drops the states that another one represents, and leads the others to representatives. -/
def redirect (p : Sparse) (rep : Array StateId) : Sparse :=
  ⟨p.slots.mapIdx fun i slot => slot.bind fun s =>
    if rep.getD i i = i then some { s with row := lead rep s.row } else none⟩

/-- Identifies the states with equal keys. -/
def identify (p : Sparse) (key : StateId → State → Option κ) : Sparse :=
  p.redirect (representatives (p.keys key))

end Identify

/-- The sink that state `i` is a catch-all for. A sink is one for itself. -/
def sinkOf (p : Sparse) (_i : StateId) (s : State) : Option StateId :=
  match s.row[(0 : Symbol)] with
  | none => none
  | some t =>
    match p.get? t with
    | none => none
    | some sink =>
      if s.row.leadsTo t && sink.row.leadsTo t && s.output == sink.output then some t else none

/-- The target of a state, which is marked by `none` if it is the state itself. -/
abbrev Arrow := Option (Option StateId)

/-- Target `t` of state `i` as an arrow. -/
def arrow (i : StateId) (t : Option StateId) : Arrow := if t = some i then none else some t

/-- Where a state leads, up to leading to itself, and its value: the arrow of the first symbol, and
those of the symbols that lead elsewhere. -/
structure Shape where
  first : Arrow
  others : List (Symbol × Arrow)
  output : Option Value
  deriving DecidableEq, Hashable

/-- The shape of state `i`. -/
def shapeOf (i : StateId) (s : State) : Shape :=
  let target := s.row[(0 : Symbol)]
  { first := arrow i target
    others := (symbols.filter fun c => s.row[c] != target).map fun c => (c, arrow i s.row[c])
    output := s.output }

/-- Identifies catch-all states with their sinks. -/
def collapse (p : Sparse) : Sparse := p.identify p.sinkOf

def merge (p : Sparse) : Sparse := p.identify fun i s => some (shapeOf i s)

/-- Repeats a step as long as it drops states. -/
def shrink (f : Sparse → Sparse) (p : Sparse) : Sparse :=
  let q := f p
  if q.live < p.live then shrink f q else p
termination_by p.live

/-- Identifies states until neither way of doing so drops one. -/
def normalize (p : Sparse) : Sparse := shrink (fun q => shrink merge (shrink collapse q)) p

/-- For every number, how many states with a smaller one are left. -/
def ranks (p : Sparse) : Array Nat :=
  (p.slots.foldl
    (fun (done, n) slot => (done.push n, if slot.isSome then n + 1 else n))
    ((#[], 0) : Array Nat × Nat)).1

/-- Numbers the states that are left densely. -/
def dense (p : Sparse) : Automaton :=
  let rank := p.ranks
  ⟨p.slots.filterMap fun slot => slot.map fun s =>
    { s with row := s.row.map (·.map fun t => rank.getD t t) }⟩

end Sparse

namespace Automaton

/-- Marks every state that the states on the stack lead to, themselves included. -/
def visit (a : Automaton) (seen : Marks) : List StateId → Marks
  | [] => seen
  | s :: rest =>
    if h : seen.isOpen s then
      have := Marks.openCount_add_lt h
      visit a (seen.add s)
        ((match a.states[s]? with | some state => state.row.targets | none => []) ++ rest)
    else visit a seen rest
termination_by stack => (seen.openCount, stack.length)

/-- The states that the start leads to, marked. -/
def reachable (a : Automaton) : Marks := a.visit (Marks.blank a.size) [0]

/-- The states that the start leads to. -/
def prune (a : Automaton) : Sparse :=
  let seen := a.reachable
  ⟨a.states.mapIdx fun i s => if seen.getD i false then some s else none⟩

/-- The reduced automaton: it gives every path the same value. -/
def reduce (a : Automaton) : Automaton := a.prune.normalize.dense

end Automaton

end PathPolicy
