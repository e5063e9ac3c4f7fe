import PathPolicy.Digest
import PathPolicy.Rule.Basic

/-!
# Tables of path rules

A table holds at most one rule for each pattern: of several, the first one stays. Its canonical text
has one line per rule, the most specific first, with every pattern escaped.
-/

namespace PathPolicy

/-- Rules with pairwise different patterns, in the order in which they came. -/
structure RuleTable where
  rules : List Rule
  distinct : rules.Pairwise fun a b => a.pattern ≠ b.pattern

namespace RuleTable

def empty : RuleTable := ⟨[], .nil⟩

instance : Inhabited RuleTable := ⟨empty⟩

/-- Whether a table has a rule for a pattern. -/
def has (t : RuleTable) (p : Pattern) : Bool := t.rules.any (·.pattern = p)

/-- Adds a rule unless the table has one for its pattern. -/
def push (t : RuleTable) (r : Rule) : RuleTable :=
  if h : t.has r.pattern then t
  else
    { rules := t.rules ++ [r]
      distinct := by
        refine List.pairwise_append.2 ⟨t.distinct, List.pairwise_singleton .., ?_⟩
        simp only [has, List.any_eq_true, decide_eq_true_eq, not_exists, not_and] at h
        intro a ha b hb
        rw [List.mem_singleton.1 hb]
        exact h a ha }

/-- The table of a list of rules. -/
def ofList (rules : List Rule) : RuleTable := rules.foldl push empty

def size (t : RuleTable) : Nat := t.rules.length

/-- The rules from most to least specific. -/
def sorted (t : RuleTable) : List Rule := t.rules.mergeSort Rule.isBefore

/-- The value for a path: that of the most specific rule that covers it. No rule covers a path with
a zero byte. -/
def lookup (t : RuleTable) (path : Bytes) : Option Value :=
  if path.contains 0 then none else (t.sorted.find? (·.covers path)).map (·.value)

/-- A byte of a pattern as it is written: printing characters stand for themselves, but for the
quotes, the backslash and the asterisk. -/
def escapeByte (b : UInt8) : List Char :=
  if b = 0x09 then ['\\', 't']
  else if b = 0x0d then ['\\', 'r']
  else if b = 0x0a then ['\\', 'n']
  else if b = 0x27 ∨ b = 0x22 ∨ b = 0x5c ∨ b = 0x2a then ['\\', Char.ofNat b.toNat]
  else if 0x20 ≤ b ∧ b ≤ 0x7e then [Char.ofNat b.toNat]
  else ['\\', 'x'] ++ Bytes.Hex.pair b

/-- The characters of a rule's line: the escaped pattern, an asterisk if it is the beginning of a
path, a blank, the value in decimal and a line feed. -/
def lineOf (r : Rule) : List Char :=
  r.pattern.bytes.flatMap escapeByte ++ (if r.pattern.exact then [] else ['*'])
    ++ [' '] ++ Nat.toDigits 10 r.value.toNat ++ ['\n']

/-- The canonical text of a table. -/
def render (t : RuleTable) : String := String.ofList (t.sorted.flatMap lineOf)

def digest (t : RuleTable) : Digest := Digest.ofText t.render

end RuleTable

end PathPolicy
