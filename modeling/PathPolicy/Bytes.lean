/-!
# Byte strings

A byte string is a list, so that every reader is a recursion on its input. Words are little-endian
throughout: `Bytes.ofUInt16` and `Bytes.ofUInt32` write them, and the readers `Reader.uint16` and
`Reader.uint32` take them off the front of a byte string.
-/

namespace PathPolicy

abbrev Bytes := List UInt8

namespace Bytes

/-- The bytes of a text in UTF-8. -/
def ofString (s : String) : Bytes := s.toUTF8.toList

/-- The text a byte string holds, if it is UTF-8. -/
def toString? (b : Bytes) : Option String := String.fromUTF8? ⟨b.toArray⟩

/-- A word of two bytes, the low byte first. -/
def ofUInt16 (w : UInt16) : Bytes := [w.toUInt8, (w >>> 8).toUInt8]

/-- A word of four bytes, the low byte first. -/
def ofUInt32 (w : UInt32) : Bytes :=
  [w.toUInt8, (w >>> 8).toUInt8, (w >>> 16).toUInt8, (w >>> 24).toUInt8]

/-- The word whose bytes are `a` and `b`, low byte first. -/
def word16 (a b : UInt8) : UInt16 := a.toUInt16 ||| (b.toUInt16 <<< 8)

/-- The word whose bytes are `a`, `b`, `c` and `d`, low byte first. -/
def word32 (a b c d : UInt8) : UInt32 :=
  a.toUInt32 ||| (b.toUInt32 <<< 8) ||| (c.toUInt32 <<< 16) ||| (d.toUInt32 <<< 24)

/-- A byte string cut into words of four bytes; fewer than four left over are dropped. -/
def words (b : Bytes) : List UInt32 := (go #[] b).toList
where
  /-- `done` holds the words already cut off. -/
  go (done : Array UInt32) : Bytes → Array UInt32
    | a :: b :: c :: d :: rest => go (done.push (word32 a b c d)) rest
    | _ => done

end Bytes

/-- A reader takes a value off the front of a byte string, or finds the byte string too short. -/
abbrev Reader (α : Type) := StateT Bytes Option α

namespace Reader

/-- The next `n` bytes. -/
def bytes (n : Nat) : Reader Bytes := fun b =>
  let front := List.take n b
  if front.length = n then some (front, List.drop n b) else none

def uint8 : Reader UInt8
  | a :: rest => some (a, rest)
  | [] => none

def uint16 : Reader UInt16
  | a :: b :: rest => some (Bytes.word16 a b, rest)
  | _ => none

def uint32 : Reader UInt32
  | a :: b :: c :: d :: rest => some (Bytes.word32 a b c d, rest)
  | _ => none

/-- The next `n` words of four bytes. -/
def words (n : Nat) : Reader (List UInt32) := do
  let front ← bytes (4 * n)
  return front.words

end Reader

end PathPolicy
