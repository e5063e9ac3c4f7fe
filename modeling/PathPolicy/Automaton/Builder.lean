import PathPolicy.Automaton.Basic
import PathPolicy.Rule.Table

/-!
# Building an automaton rule by rule

The automaton of a set of rules is a tree of their patterns with one sink for each rule about the
beginning of a path: a state that leads to itself on every symbol and has the rule's value. The last
state of such a pattern leads into the sink wherever it led nowhere, or into the sink of a shorter
pattern. A pattern that runs through a sink forks off a fresh state there, which falls back to the
sink on every symbol that the pattern does not take.

A rule overrides the rules inserted before it, so a table is inserted from the least to the most
specific rule.
-/

namespace PathPolicy

/-- A state under construction; `sink` is the sink of a pattern that ends in it. -/
structure Node extends State where
  sink : Option StateId

/-- An automaton under construction. -/
structure Builder where
  nodes : Array Node

namespace Builder

/-- A lone start state. -/
def start : Builder := ⟨#[{ row := Row.fill none, output := none, sink := none }]⟩

instance : Inhabited Builder := ⟨start⟩

def size (b : Builder) : Nat := b.nodes.size

/-- How many states an automaton can have: the number of all ones stands for "no state". -/
def capacity : Nat := 0xffffffff

def automaton (b : Builder) : Automaton := ⟨b.nodes.map Node.toState⟩

/-- The target of state `s` on symbol `c`. -/
def step (b : Builder) (s : StateId) (c : Symbol) : Option StateId :=
  match b.nodes[s]? with
  | some node => node.row[c]
  | none => none

/-- The value of the paths that end in state `s`. -/
def output (b : Builder) (s : StateId) : Option Value :=
  match b.nodes[s]? with
  | some node => node.output
  | none => none

/-- The sink of a pattern that ends in state `s`. -/
def sink? (b : Builder) (s : StateId) : Option StateId :=
  match b.nodes[s]? with
  | some node => node.sink
  | none => none

/-- Whether a state leads to itself on every symbol. -/
def isMatchAll (b : Builder) (s : StateId) : Bool :=
  match b.nodes[s]? with
  | some node => node.row.leadsTo s
  | none => false

/-- Adds a state. Its number is the number of states before. -/
def push (b : Builder) (node : Node) : Builder := ⟨b.nodes.push node⟩

def modify (b : Builder) (s : StateId) (f : Node → Node) : Builder := ⟨b.nodes.modify s f⟩

/-- A walk along a pattern: the state that it has reached, and the sink of the longest pattern
passed on the way, which a fork falls back to. -/
structure Cursor where
  builder : Builder
  state : StateId
  inherited : Option StateId

namespace Cursor

/-- Adds a state that falls back to the inherited sink, and takes the walk there. -/
def fork (k : Cursor) (c : Symbol) : Cursor :=
  let fresh := k.builder.size
  let node : Node :=
    { row := Row.fill k.inherited
      output := k.inherited.bind k.builder.output
      sink := none }
  { k with
    builder := (k.builder.push node).modify k.state fun n =>
      { n with row := n.row.set c (some fresh) c.isLt }
    state := fresh }

/-- Takes the walk along one symbol. -/
def advance (k : Cursor) (c : Symbol) : Cursor :=
  let k := { k with inherited := (k.builder.sink? k.state).or k.inherited }
  match k.builder.step k.state c with
  | none => k.fork c
  | some next => if k.builder.isMatchAll next then k.fork c else { k with state := next }

/-- Gives the last state of a pattern its sink. -/
def close (k : Cursor) (value : Value) : Builder :=
  let sink := k.builder.size
  (k.builder.push { row := Row.fill (some sink), output := some value, sink := none }).modify
    k.state fun n =>
      { n with
        row := n.row.map fun t => if t = none ∨ t = k.inherited then some sink else t
        sink := some sink }

end Cursor

def symbolsOf (bytes : Bytes) : List Symbol := bytes.filterMap symbol?

/-- Inserts a rule. -/
def insert (b : Builder) (r : Rule) : Builder :=
  let k := (symbolsOf r.pattern.bytes).foldl Cursor.advance ⟨b, 0, none⟩
  let closed := if r.pattern.exact then k.builder else k.close r.value
  closed.modify k.state fun n => { n with output := some r.value }

/-- Inserts a rule, unless that takes more states than an automaton can have. -/
def insert? (b : Builder) (r : Rule) : Option Builder :=
  let b := b.insert r
  if b.size ≤ capacity then some b else none

def insertAll (b : Builder) (rules : List Rule) : Builder := rules.foldl insert b

end Builder

/-- The automaton of a table before any simplification. -/
def Automaton.ofTable (t : RuleTable) : Automaton :=
  (Builder.start.insertAll t.sorted.reverse).automaton

end PathPolicy
