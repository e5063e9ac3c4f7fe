import PathPolicy.Bytes

/-!
# Text from bytes that may not be UTF-8

Every maximal part of a byte string that starts a character but does not complete it is shown as
one replacement character.
-/

namespace PathPolicy.Text

def replacement : Char := Char.ofNat 0xfffd

def within (low high b : UInt8) : Bool := low ≤ b && b ≤ high

/-- Whether a byte continues a character. -/
def isTail (b : UInt8) : Bool := within 0x80 0xbf b

/-- Whether `b` may follow the first byte `a` of a character of three bytes. -/
def follows3 (a b : UInt8) : Bool :=
  if a = 0xe0 then within 0xa0 0xbf b else if a = 0xed then within 0x80 0x9f b else isTail b

/-- Whether `b` may follow the first byte `a` of a character of four bytes. -/
def follows4 (a b : UInt8) : Bool :=
  if a = 0xf0 then within 0x90 0xbf b else if a = 0xf4 then within 0x80 0x8f b else isTail b

/-- The low six bits of a continuing byte. -/
def tailBits (b : UInt8) : Nat := b.toNat % 64

/-- The first character of a byte string that starts with `a`, and the number of bytes of `rest`
that it takes. -/
def firstChar (a : UInt8) (rest : Bytes) : Char × Nat :=
  if a < 0x80 then (Char.ofNat a.toNat, 0)
  else if within 0xc2 0xdf a then
    match rest with
    | b :: _ =>
      if isTail b then (Char.ofNat (a.toNat % 32 * 64 + tailBits b), 1) else (replacement, 0)
    | [] => (replacement, 0)
  else if within 0xe0 0xef a then
    match rest with
    | b :: more =>
      if follows3 a b then
        match more with
        | c :: _ =>
          if isTail c then
            (Char.ofNat ((a.toNat % 16 * 64 + tailBits b) * 64 + tailBits c), 2)
          else (replacement, 1)
        | [] => (replacement, 1)
      else (replacement, 0)
    | [] => (replacement, 0)
  else if within 0xf0 0xf4 a then
    match rest with
    | b :: more =>
      if follows4 a b then
        match more with
        | c :: more =>
          if isTail c then
            match more with
            | d :: _ =>
              if isTail d then
                (Char.ofNat (((a.toNat % 8 * 64 + tailBits b) * 64 + tailBits c) * 64
                  + tailBits d), 3)
              else (replacement, 2)
            | [] => (replacement, 2)
          else (replacement, 1)
        | [] => (replacement, 1)
      else (replacement, 0)
    | [] => (replacement, 0)
  else (replacement, 0)

/-- The characters of a byte string. -/
def lossyChars : Bytes → List Char
  | [] => []
  | a :: rest =>
    let (c, taken) := firstChar a rest
    c :: lossyChars (rest.drop taken)
termination_by b => b.length
decreasing_by simp only [List.length_drop, List.length_cons]; omega

def lossy (b : Bytes) : String := String.ofList (lossyChars b)

end PathPolicy.Text
