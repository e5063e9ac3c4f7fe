import PathPolicy.Bytes
import PathPolicy.Text.Quoted

/-!
# Hexadecimal

Two lowercase digits per byte, the high half first. Reading takes digits of either case and knows
beforehand how many bytes it wants; `Fault` lists what it can find wrong, in the order it looks.
-/

namespace PathPolicy.Bytes.Hex

def digit (n : Nat) : Char :=
  if n < 10 then Char.ofNat (48 + n) else Char.ofNat (87 + n)

/-- The number a digit stands for. -/
def value? (b : UInt8) : Option UInt8 :=
  if 48 ≤ b ∧ b ≤ 57 then some (b - 48)
  else if 97 ≤ b ∧ b ≤ 102 then some (b - 87)
  else if 65 ≤ b ∧ b ≤ 70 then some (b - 55)
  else none

def pair (b : UInt8) : List Char := [digit (b.toNat / 16), digit (b.toNat % 16)]

def encode (b : Bytes) : String := String.ofList (b.flatMap pair)

/-- The shortest hexadecimal numeral of a number, after `0x`. -/
def numeral (n : Nat) : String := "0x" ++ String.ofList (Nat.toDigits 16 n)

/-- Why a byte string is not the hexadecimal form of so many bytes. -/
inductive Fault where
  | oddLength
  | wrongLength
  | badDigit (digit : UInt8) (index : Nat)
  deriving Repr, DecidableEq

/-- The wording of a fault. A byte is shown as the character with its number. -/
def Fault.message : Fault → String
  | .oddLength => "Odd number of digits"
  | .wrongLength => "Invalid string length"
  | .badDigit digit index =>
    s!"Invalid character {Text.quotedChar (Char.ofNat digit.toNat)} at position {index}"

/-- Reads pairs of digits, the first of which stands at `index`. -/
def pairs (index : Nat) (done : Bytes) : Bytes → Except Fault Bytes
  | a :: b :: rest =>
    match value? a, value? b with
    | some high, some low => pairs (index + 2) ((high <<< 4 ||| low) :: done) rest
    | none, _ => .error (.badDigit a index)
    | some _, none => .error (.badDigit b (index + 1))
  | _ => .ok done.reverse

/-- Reads the hexadecimal form of `n` bytes. -/
def decode (n : Nat) (text : Bytes) : Except Fault Bytes :=
  if text.length % 2 ≠ 0 then .error .oddLength
  else if text.length / 2 ≠ n then .error .wrongLength
  else pairs 0 [] text

end PathPolicy.Bytes.Hex
