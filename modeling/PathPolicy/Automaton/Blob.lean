import PathPolicy.Automaton.Packed
import PathPolicy.Digest

/-!
# The binary form of an automaton

The kernel reads little-endian words, where all ones stand for "none":

    magic  version  states  groups  digest
    default[states]  base[states]  targets[255 * groups]  owners[255 * groups]  outputs[states]

Reading checks everything that a walk relies on, so that the tables of a byte string that is
accepted are well-formed.
-/

namespace PathPolicy.Packed

/-- The bytes that an automaton starts with. -/
def magic : Bytes := [0x53, 0x41, 0x52, 0x41, 0x44, 0x46, 0x41, 0x54]

def version : UInt32 := 2

def headerSize : Nat := 40

/-- The word that stands for "none". -/
def noneWord : UInt32 := 0xffffffff

def ofTarget : Option StateId → UInt32
  | none => noneWord
  | some s => UInt32.ofNat s

def toTarget (w : UInt32) : Option StateId := if w = noneWord then none else some w.toNat

def ofOutput (v : Option Value) : UInt32 := v.getD noneWord

def toOutput (w : UInt32) : Option Value := if w = noneWord then none else some w

/-- The words of the tables, in their order. -/
def tableWords (t : Packed) : List UInt32 :=
  t.default.toList.map ofTarget ++ t.base.toList.map UInt32.ofNat
    ++ t.targets.toList.map ofTarget ++ t.owners.toList.map ofTarget
    ++ t.outputs.toList.map ofOutput

/-- The binary form of tables, under a digest. -/
def encode (t : Packed) (d : Digest) : Bytes :=
  magic ++ Bytes.ofUInt32 version ++ Bytes.ofUInt32 (UInt32.ofNat t.states)
    ++ Bytes.ofUInt32 (UInt32.ofNat t.groups) ++ d.bytes ++ t.tableWords.flatMap Bytes.ofUInt32

/-- The parts of the tables whose entries are checked. -/
inductive Part where
  | default
  | base
  | targets
  | owners
  deriving Repr, DecidableEq

def Part.name : Part → String
  | .default => "default"
  | .base => "base"
  | .targets => "next"
  | .owners => "check"

/-- Why a byte string is not the binary form of tables. -/
inductive Fault where
  | tooShort (size : Nat)
  | badMagic
  | unsupportedVersion (version : UInt32)
  | digestMismatch (expected found : Digest)
  | badCounts (states groups : UInt32)
  | sizeMismatch (expected actual : Nat)
  | outOfRange (part : Part) (index : Nat) (value : UInt32)
  deriving DecidableEq

def Fault.message : Fault → String
  | .tooShort size => s!"automaton blob too short ({size} bytes)"
  | .badMagic => "bad automaton magic"
  | .unsupportedVersion version => s!"unsupported automaton version {version}"
  | .digestMismatch expected found =>
    s!"automaton hash mismatch: expected {expected.hex}, found {found.hex}"
  | .badCounts states groups => s!"automaton has {states} states and {groups} groups"
  | .sizeMismatch expected actual =>
    s!"automaton blob is {actual} bytes, header implies {expected}"
  | .outOfRange part index value =>
    s!"{part.name}[{index}] = {Bytes.Hex.numeral value.toNat} is out of range"

/-- The size of the binary form of tables with so many states and groups. -/
def encodedSize (states groups : Nat) : Nat := headerSize + 4 * (3 * states + 2 * groups * 255)

/-- Whether tables with so many states and groups exist. -/
def validCounts (states groups : Nat) : Bool :=
  0 < states && 0 < groups && groups ≤ states && states < 0xffffffff

/-- Whether a word is empty or a state. -/
def isTargetWord (states : UInt32) (w : UInt32) : Bool := w == noneWord || w < states

/-- Finds the first word that is not valid. -/
def check (part : Part) (valid : UInt32 → Bool) (ws : List UInt32) : Except Fault Unit :=
  match ws.zipIdx.find? fun (w, _) => !valid w with
  | some (w, i) => .error (.outOfRange part i w)
  | none => .ok ()

/-- What the header says. -/
structure Header where
  states : UInt32
  groups : UInt32
  digest : Digest

/-- Runs a reader on a byte string that has `size` bytes as a whole. -/
def read {α : Type} (size : Nat) (r : Reader α) : StateT Bytes (Except Fault) α := fun b =>
  match r b with
  | some x => .ok x
  | none => .error (.tooShort size)

/-- Reads the header of a byte string of the given size. -/
def readHeader (size : Nat) : StateT Bytes (Except Fault) Header := do
  let found ← read size (Reader.bytes magic.length)
  if found ≠ magic then throw .badMagic
  let v ← read size Reader.uint32
  if v ≠ version then throw (.unsupportedVersion v)
  let states ← read size Reader.uint32
  let groups ← read size Reader.uint32
  let digest ← read size Reader.digest
  return { states, groups, digest }

/-- Reads the tables that a header announces. -/
def readTables (size : Nat) (h : Header) : StateT Bytes (Except Fault) Packed := do
  let states := h.states.toNat
  let groups := h.groups.toNat
  let default ← read size (Reader.words states)
  let base ← read size (Reader.words states)
  let targets ← read size (Reader.words (groups * 255))
  let owners ← read size (Reader.words (groups * 255))
  let outputs ← read size (Reader.words states)
  check .default (isTargetWord h.states) default
  check .base (fun w => w < h.groups) base
  check .targets (isTargetWord h.states) targets
  check .owners (isTargetWord h.states) owners
  return {
    default := (default.map toTarget).toArray
    base := (base.map UInt32.toNat).toArray
    targets := (targets.map toTarget).toArray
    owners := (owners.map toTarget).toArray
    outputs := (outputs.map toOutput).toArray }

/-- Compares the digest that was found with the one that is expected, if any. -/
def expect (expected : Option Digest) (found : Digest) : Except Fault Unit :=
  match expected with
  | none => .ok ()
  | some d => if d = found then .ok () else .error (.digestMismatch d found)

/-- The tables of a byte string. -/
def decode (b : Bytes) (expected : Option Digest) : Except Fault Packed := do
  let size := b.length
  let (h, rest) ← readHeader size b
  expect expected h.digest
  let implied := encodedSize h.states.toNat h.groups.toNat
  if implied ≠ size then throw (.sizeMismatch implied size)
  if !validCounts h.states.toNat h.groups.toNat then throw (.badCounts h.states h.groups)
  let (t, _) ← readTables size h rest
  return t

end PathPolicy.Packed
