import PathPolicy.Digest
import PathPolicy.Protection.Rule

/-!
# The binary form of protection rules

The kernel reads a header and one record for each rule:

    magic  version  count  digest[20]
    count * { length of the path  word  exact  path }

The length and the word take two bytes, `exact` takes one. Records are in order of specificity,
which is the order in which the kernel tries them, and there is one for each pattern.
-/

namespace PathPolicy.Protection.Blob

/-- The bytes that a list of rules starts with. -/
def magic : Bytes := [0x53, 0x41, 0x52, 0x41, 0x57, 0x58, 0x50, 0x52]

def version : UInt32 := 0

/-- Why rules have no binary form, or a byte string is not one. -/
inductive Fault where
  | badMagic
  | badVersion (version : UInt32)
  | truncated
  | invalidFlags (flags : Flags)
  | badPath
  | trailingBytes (count : Nat)
  | pathTooLong (size : Nat)
  deriving Repr, DecidableEq

def Fault.message : Fault → String
  | .badMagic => "wrong magic number"
  | .badVersion _ => "wrong version"
  | .truncated => "wrong size"
  | .invalidFlags _ => "invalid flags"
  | .badPath => "path is not valid UTF-8"
  | .trailingBytes _ => "trailing data after the last record"
  | .pathTooLong size => s!"path of {size} bytes does not fit in a record"

/-- Of rules for one pattern that follow each other, the first one. -/
def dedup : List Rule → List Rule
  | [] => []
  | r :: rest => after r rest
where
  /-- `kept` is the rule before the others. -/
  after (kept : Rule) : List Rule → List Rule
    | [] => [kept]
    | r :: rest => if r.pattern = kept.pattern then after kept rest else kept :: after r rest

/-- The rules that get a record, in the order of the records. -/
def sorted (rules : List Rule) : List Rule := dedup (rules.mergeSort Rule.isBefore)

def record (r : Rule) : Bytes :=
  Bytes.ofUInt16 (UInt16.ofNat r.path.utf8ByteSize) ++ Bytes.ofUInt16 r.flags.bits
    ++ [if r.exact then 1 else 0] ++ Bytes.ofString r.path

/-- The longest path, in bytes, that fits in a record. -/
def pathLimit : Nat := 0xffff

/-- The binary form of rules, under a digest. -/
def encode (rules : List Rule) (d : Digest) : Except Fault Bytes :=
  let rs := sorted rules
  match rs.find? fun r => pathLimit < r.path.utf8ByteSize with
  | some r => .error (.pathTooLong r.path.utf8ByteSize)
  | none =>
    .ok (magic ++ Bytes.ofUInt32 version ++ Bytes.ofUInt32 (UInt32.ofNat rs.length) ++ d.bytes
      ++ rs.flatMap record)

/-- Runs a reader; a byte string that is too short for it is truncated. -/
def read {α : Type} (r : PathPolicy.Reader α) : StateT Bytes (Except Fault) α := fun b =>
  match r b with
  | some x => .ok x
  | none => .error .truncated

def readRecord : StateT Bytes (Except Fault) Rule := do
  let size ← read PathPolicy.Reader.uint16
  let bits ← read PathPolicy.Reader.uint16
  let exact ← read PathPolicy.Reader.uint8
  let raw ← read (PathPolicy.Reader.bytes size.toNat)
  match raw.toString? with
  | none => throw .badPath
  | some path =>
    if Flags.isValid ⟨bits⟩ then return { path, flags := ⟨bits⟩, exact := exact ≠ 0 }
    else throw (.invalidFlags ⟨bits⟩)

/-- Reads `n` records; `done` holds those before them, last first. -/
def readRecords (done : List Rule) : Nat → StateT Bytes (Except Fault) (List Rule)
  | 0 => return done.reverse
  | n + 1 => do
    let r ← readRecord
    readRecords (r :: done) n

/-- Reads the header after its magic: the number of records and the digest. -/
def readHeader : StateT Bytes (Except Fault) (Nat × Digest) := do
  let v ← read PathPolicy.Reader.uint32
  let count ← read PathPolicy.Reader.uint32
  let d ← read PathPolicy.Reader.digest
  if v ≠ version then throw (.badVersion v)
  return (count.toNat, d)

/-- The digest and the rules of a byte string. -/
def decode (b : Bytes) : Except Fault (Digest × List Rule) := do
  if !magic.isPrefixOf b then throw .badMagic
  let ((count, d), rest) ← readHeader (b.drop magic.length)
  let (rules, rest) ← readRecords [] count rest
  if rest.isEmpty then return (d, rules) else throw (.trailingBytes rest.length)

end PathPolicy.Protection.Blob
