import PathPolicy.Bytes.Hex
import PathPolicy.Pattern
import PathPolicy.Text.Lossy
import PathPolicy.Text.Quoted

/-!
# Path rules

A rule gives a value to the paths that its pattern covers. Two things are reserved: the zero byte,
which no path holds, and the value of all ones, which stands for "no rule".
-/

namespace PathPolicy

/-- What a rule gives to a path. -/
abbrev Value := UInt32

/-- The value that stands for "no rule". -/
def reservedValue : Value := 0xffffffff

/-- A pattern without zero bytes, and a value that is not reserved. -/
structure Rule where
  pattern : Pattern
  value : Value
  zero_notMem : 0 ∉ pattern.bytes
  value_ne : value ≠ reservedValue
  deriving DecidableEq

namespace Rule

/-- Why something is not a rule. -/
inductive Fault where
  | zeroByte (pattern : Bytes)
  | reserved (value : Value)
  deriving Repr, DecidableEq

def Fault.message : Fault → String
  | .zeroByte pattern => s!"pattern {Text.quoted (Text.lossy pattern)} contains a NUL byte"
  | .reserved value => s!"rule value {Bytes.Hex.numeral value.toNat} is reserved"

def make (pattern : Pattern) (value : Value) : Except Fault Rule :=
  if hp : 0 ∈ pattern.bytes then .error (.zeroByte pattern.bytes)
  else if hv : value = reservedValue then .error (.reserved value)
  else .ok ⟨pattern, value, hp, hv⟩

def covers (r : Rule) (path : Bytes) : Bool := r.pattern.covers path

/-- Whether `a` comes before `b` in the order of their patterns. -/
def isBefore (a b : Rule) : Bool := a.pattern.isBefore b.pattern

end Rule

end PathPolicy
