import PathPolicy.Bytes

/-!
# Path patterns

A pattern covers one path, or every path that starts with its bytes. Patterns are ordered from most
to least specific: longer ones first, of equally long ones the exact ones first, and otherwise in
ascending order of their bytes. Every list of rules is kept in this order, so that the first rule
that covers a path is the most specific one that does.
-/

namespace PathPolicy

/-- The bytes of a path, and whether they are the whole of it or only its beginning. -/
structure Pattern where
  bytes : Bytes
  exact : Bool
  deriving Repr, DecidableEq

namespace Pattern

def covers (p : Pattern) (path : Bytes) : Bool :=
  if p.exact then path == p.bytes else p.bytes.isPrefixOf path

/-- The order of patterns: `lt` when `a` is more specific than `b`. -/
def specificity (a b : Pattern) : Ordering :=
  (compare b.bytes.length a.bytes.length).then <|
    (compare b.exact a.exact).then (compare a.bytes b.bytes)

/-- Whether `a` comes before `b`, or is the same pattern. -/
def isBefore (a b : Pattern) : Bool := (specificity a b).isLE

end Pattern

end PathPolicy
