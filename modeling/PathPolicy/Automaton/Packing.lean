import PathPolicy.Automaton.Marks
import PathPolicy.Automaton.Packed

/-!
# Packing an automaton into tables

The default of a state is its most common target. States fit into one group as long as no two of
them leave their defaults on the same symbol. Groups are grown greedily, each from the first state
that is in none and along the successors of its states, and then folded into each other until no two
of them fit.
-/

namespace PathPolicy

/-- The most common entry of a row; of equally common ones the one that comes first. -/
def Row.commonest (row : Row) : Option StateId :=
  (row.toList.eraseDups.foldl
    (fun (best, most) t => if most < row.count t then (t, row.count t) else (best, most))
    (none, 0)).1

namespace Packing

/-- States of which at most one leaves its default on each symbol; `owner` says which one, and
`owned` lists the symbols that have an owner. -/
structure Group where
  members : List StateId
  owner : Vector (Option StateId) 255
  owned : List Symbol
  mem_owned : ∀ c : Symbol, c ∈ owned ↔ owner[c].isSome

namespace Group

instance : Inhabited Group := ⟨[], Vector.replicate 255 none, [], by simp⟩

/-- The group of state `s` alone. -/
def single (s : StateId) (state : State) : Group :=
  let default := state.row.commonest
  { members := [s]
    owner := state.row.map fun t => if t = default then none else some s
    owned := symbols.filter fun c => state.row[c] ≠ default
    mem_owned := by
      intro c
      have hc : c ∈ symbols := List.mem_finRange c
      by_cases h : state.row[c] = default <;> simp_all }

/-- Whether two groups fit together: no symbol has an owner in both. -/
def fits (g h : Group) : Bool := h.owned.all fun c => g.owner[c].isNone

def append (g h : Group) : Group where
  members := g.members ++ h.members
  owner := g.owner.zipWith Option.or h.owner
  owned := h.owned ++ g.owned
  mem_owned := by
    intro c
    rw [List.mem_append, g.mem_owned, h.mem_owned, Row.getElem_eq, Row.getElem_eq,
      Row.getElem_eq, Vector.getElem_zipWith, Option.isSome_or, Bool.or_eq_true]
    exact Or.comm

/-- Takes another group into this one if they fit together. -/
def add (g h : Group) : Group := if g.fits h then g.append h else g

end Group

/-- What is known about each state while groups are grown: the group of the state alone, and what it
leads to. -/
structure Plan where
  alone : Array Group
  successors : Array (List StateId)

/-- The plan for an automaton. -/
def plan (a : Automaton) : Plan :=
  ⟨a.states.mapIdx Group.single, a.states.map (·.row.targets)⟩

def Plan.single (p : Plan) (s : StateId) : Group := p.alone.getD s default

/-- The states that are not marked and that the given ones lead to, each once, in ascending
order. -/
def Plan.frontier (p : Plan) (seen : Marks) (states : List StateId) : List StateId :=
  let next := states.flatMap fun s => p.successors.getD s []
  ((next.filter seen.isOpen).mergeSort (· ≤ ·)).eraseReps

/-- Grows a group level by level: every state of `level` that fits is taken in, and the next level
is what the states of this one lead to, whether they fitted or not. -/
def Plan.grow (p : Plan) (seen : Marks) (level : List StateId) (g : Group) : Group :=
  if h : level.any seen.isOpen then
    have := Marks.openCount_addAll_lt h
    let marked := seen.addAll level
    p.grow marked (p.frontier marked level) (level.foldl (fun g s => g.add (p.single s)) g)
  else g
termination_by seen.openCount

/-- The group grown from state `s`, where the marked states are in groups already. -/
def Plan.growFrom (p : Plan) (grouped : Marks) (s : StateId) : Group :=
  let seen := grouped.add s
  p.grow seen (p.frontier seen [s]) (p.single s)

/-- Grows a group from each of the given states that is in no group yet. -/
def Plan.growAll (p : Plan) (grouped : Marks) : List StateId → List Group
  | [] => []
  | s :: rest =>
    if grouped.isOpen s then
      let g := p.growFrom grouped s
      g :: p.growAll (grouped.addAll g.members) rest
    else p.growAll grouped rest

/-- Takes every group that fits into `g`, one after the other, and returns those that do not. -/
def absorb (g : Group) : List Group → Group × List Group
  | [] => (g, [])
  | h :: rest =>
    if g.fits h then absorb (g.append h) rest
    else
      let (g, left) := absorb g rest
      (g, h :: left)

theorem length_absorb_le (g : Group) (hs : List Group) :
    (absorb g hs).2.length ≤ hs.length := by
  induction hs generalizing g with
  | nil => simp [absorb]
  | cons h rest ih =>
    unfold absorb
    split
    · exact Nat.le_succ_of_le (ih _)
    · simpa using ih g

/-- Folds groups into each other, the last one first. -/
def fold (gs : List Group) : List Group :=
  match _hgs : gs.reverse with
  | [] => []
  | g :: others =>
    let merged := absorb g others.reverse
    merged.1 :: fold merged.2
termination_by gs.length
decreasing_by
  have hlen := congrArg List.length _hgs
  have := length_absorb_le g others.reverse
  simp only [List.length_reverse, List.length_cons] at hlen this
  omega

/-- Folds groups into each other until no two of them fit. -/
def foldAll (gs : List Group) : List Group :=
  let folded := fold gs
  if folded.length < gs.length then foldAll folded else folded
termination_by gs.length

def groups (a : Automaton) : List Group :=
  foldAll ((plan a).growAll (Marks.blank a.size) (List.range a.size))

/-- The state that stands in a group's row where no state leaves its default: the last one. -/
def Group.last (g : Group) : StateId := g.members.getLastD 0

/-- The owners of a group's row. -/
def Group.ownerRow (g : Group) : List StateId := symbols.map fun c => g.owner[c].getD g.last

/-- The targets of a group's row. -/
def Group.targetRow (a : Automaton) (g : Group) : List (Option StateId) :=
  symbols.map fun c => a.step (g.owner[c].getD g.last) c

/-- For every state, the number of its group. -/
def bases (n : Nat) (gs : List Group) : Array Nat :=
  gs.zipIdx.foldl
    (fun base (g, i) => g.members.foldl (fun base s => base.setIfInBounds s i) base)
    (Array.replicate n 0)

end Packing

/-- The tables of an automaton: they give every path the same value. -/
def Automaton.pack (a : Automaton) : Packed :=
  let gs := Packing.groups a
  { default := a.states.map (·.row.commonest)
    base := Packing.bases a.size gs
    targets := (gs.flatMap (Packing.Group.targetRow a)).toArray
    owners := (gs.flatMap fun g => g.ownerRow.map some).toArray
    outputs := a.states.map (·.output) }

end PathPolicy
