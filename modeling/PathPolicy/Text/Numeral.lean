/-!
# Unsigned numerals

A numeral is digits of a given base, after at most one plus sign. Reading stops at the first
character that is no digit or takes the value out of 32 bits, whichever comes first.
-/

namespace PathPolicy.Text.Numeral

/-- Why a text is not a numeral. -/
inductive Fault where
  | empty
  | badDigit
  | tooLarge
  deriving Repr, DecidableEq

def Fault.message : Fault → String
  | .empty => "cannot parse integer from empty string"
  | .badDigit => "invalid digit found in string"
  | .tooLarge => "number too large to fit in target type"

/-- The value of a digit in bases up to sixteen. -/
def digitValue? (base : Nat) (c : Char) : Option Nat :=
  let n := c.toNat
  let value? :=
    if 48 ≤ n ∧ n ≤ 57 then some (n - 48)
    else if 97 ≤ n ∧ n ≤ 102 then some (n - 87)
    else if 65 ≤ n ∧ n ≤ 70 then some (n - 55)
    else none
  value?.filter (· < base)

/-- Reads digits after those that make up `value`. -/
def digits (base : Nat) (value : Nat) : List Char → Except Fault Nat
  | [] => .ok value
  | c :: rest =>
    match digitValue? base c with
    | none => .error .badDigit
    | some d =>
      if base * value + d < 0x100000000 then digits base (base * value + d) rest
      else .error .tooLarge

def ofChars (base : Nat) : List Char → Except Fault Nat
  | [] => .error .empty
  | ['+'] => .error .badDigit
  | '+' :: rest => digits base 0 rest
  | cs => digits base 0 cs

/-- Reads a numeral as a word. -/
def parse (base : Nat) (s : String) : Except Fault UInt32 :=
  (ofChars base s.toList).map UInt32.ofNat

end PathPolicy.Text.Numeral
