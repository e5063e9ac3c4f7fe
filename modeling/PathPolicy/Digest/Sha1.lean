import PathPolicy.Bytes

/-!
# SHA-1

The message is padded with a one bit, zeros and its length in bits to whole blocks of 64 bytes;
each block is folded into a state of five words by eighty rounds over its schedule.
-/

namespace PathPolicy.Sha1

/-- The five words of the running state. -/
structure State where
  a : UInt32
  b : UInt32
  c : UInt32
  d : UInt32
  e : UInt32

/-- The state before the first block. -/
def State.start : State := ⟨0x67452301, 0xefcdab89, 0x98badcfe, 0x10325476, 0xc3d2e1f0⟩

def rotate (n : UInt32) (w : UInt32) : UInt32 := (w <<< n) ||| (w >>> (32 - n))

/-- The word whose bytes are `a` to `d`, high byte first. -/
def word (a b c d : UInt8) : UInt32 := Bytes.word32 d c b a

/-- The bytes of a word, high byte first. -/
def bytes (w : UInt32) : Bytes :=
  [(w >>> 24).toUInt8, (w >>> 16).toUInt8, (w >>> 8).toUInt8, w.toUInt8]

def words : Bytes → List UInt32
  | a :: b :: c :: d :: rest => word a b c d :: words rest
  | _ => []

/-- The mixing function and the constant of round `t`. -/
def mix (t : Nat) (s : State) : UInt32 :=
  if t < 20 then ((s.b &&& s.c) ||| ((s.b ^^^ 0xffffffff) &&& s.d)) + 0x5a827999
  else if t < 40 then (s.b ^^^ s.c ^^^ s.d) + 0x6ed9eba1
  else if t < 60 then ((s.b &&& s.c) ||| (s.b &&& s.d) ||| (s.c &&& s.d)) + 0x8f1bbcdc
  else (s.b ^^^ s.c ^^^ s.d) + 0xca62c1d6

/-- One round with the schedule word `w`. -/
def round (t : Nat) (w : UInt32) (s : State) : State :=
  ⟨rotate 5 s.a + mix t s + s.e + w, s.a, rotate 30 s.b, s.c, s.d⟩

/-- Appends `n` words to a schedule; each is mixed from four of the sixteen before it. -/
def extend (n : Nat) (schedule : Array UInt32) : Array UInt32 :=
  match n with
  | 0 => schedule
  | n + 1 =>
    let back := fun i => schedule.getD (schedule.size - i) 0
    extend n (schedule.push (rotate 1 (back 3 ^^^ back 8 ^^^ back 14 ^^^ back 16)))

/-- Runs the last `left` of eighty rounds. -/
def rounds (schedule : Array UInt32) (left : Nat) (s : State) : State :=
  match left with
  | 0 => s
  | left + 1 =>
    let t := 79 - left
    rounds schedule left (round t (schedule.getD t 0) s)

/-- Folds one block into the state. -/
def State.absorb (s : State) (block : Bytes) : State :=
  let r := rounds (extend 64 (words block).toArray) 80 s
  ⟨s.a + r.a, s.b + r.b, s.c + r.c, s.d + r.d, s.e + r.e⟩

/-- Folds whole blocks into the state. -/
def State.absorbAll (s : State) (blocks : Bytes) : State :=
  if _h : blocks = [] then s
  else (s.absorb (blocks.take 64)).absorbAll (blocks.drop 64)
termination_by blocks.length
decreasing_by
  have := List.length_pos_iff.2 _h
  simp only [List.length_drop]
  omega

/-- What follows a message of `n` bytes to make whole blocks of it. -/
def padding (n : Nat) : Bytes :=
  let bits := (8 * n).toUInt64
  (0x80 : UInt8) :: List.replicate ((119 - n % 64) % 64) (0 : UInt8)
    ++ bytes (bits >>> 32).toUInt32 ++ bytes bits.toUInt32

/-- The final state as twenty bytes. -/
def State.bytes (s : State) : Bytes :=
  Sha1.bytes s.a ++ Sha1.bytes s.b ++ Sha1.bytes s.c ++ Sha1.bytes s.d ++ Sha1.bytes s.e

theorem State.length_bytes (s : State) : s.bytes.length = 20 := rfl

def hash (message : Bytes) : Bytes :=
  (State.start.absorbAll (message ++ padding message.length)).bytes

theorem length_hash (message : Bytes) : (hash message).length = 20 := State.length_bytes _

end PathPolicy.Sha1
