/-!
# Protection words

A protection word is sixteen bits, one for each way in which the memory of a program is restricted
or its misuse reported. The kernel accepts the words that satisfy every `Requirement`.
-/

namespace PathPolicy.Protection

/-- A protection word. -/
structure Flags where
  bits : UInt16
  deriving Repr, DecidableEq

namespace Flags

def none : Flags := ⟨0⟩

/-- No executable heap. -/
def heap : Flags := ⟨0x0001⟩

/-- No executable stack. -/
def stack : Flags := ⟨0x0002⟩

/-- No other executable memory. -/
def other : Flags := ⟨0x0004⟩

/-- No memory that is writable and executable. -/
def wxorx : Flags := ⟨0x0008⟩

/-- Violations are reported and let pass. -/
def complain : Flags := ⟨0x0010⟩

/-- Violations are reported. -/
def verbose : Flags := ⟨0x0020⟩

/-- No change of relocated sections. -/
def mmap : Flags := ⟨0x0040⟩

/-- Trampolines are emulated. -/
def emutramp : Flags := ⟨0x0100⟩

/-- The word is passed on to the programs that are started. -/
def transfer : Flags := ⟨0x0200⟩

/-- The bits of either word. -/
def union (f g : Flags) : Flags := ⟨f.bits ||| g.bits⟩

instance : Union Flags := ⟨union⟩

/-- The bits of `f` that are not in `g`. -/
def without (f g : Flags) : Flags := ⟨f.bits &&& ~~~g.bits⟩

/-- Whether `f` has every bit of `g`. -/
def contains (f g : Flags) : Bool := f.bits &&& g.bits == g.bits

/-- Whether `f` has a bit of `g`. -/
def meets (f g : Flags) : Bool := f.bits &&& g.bits != 0

/-- Every memory restriction. -/
def mprotect : Flags := heap ∪ stack ∪ other

def full : Flags := mprotect ∪ wxorx ∪ mmap

/-- Every bit that has a meaning. -/
def known : Flags := full ∪ emutramp ∪ complain ∪ verbose ∪ transfer

/-- What a word has to satisfy, without regard to `transfer`. -/
inductive Requirement where
  | knownBits
  | restrictionsNeedWxorx
  | reportsNeedRestriction
  | mmapNeedsOther
  | emutrampNeedsMprotect
  deriving Repr, DecidableEq

namespace Requirement

/-- The requirements in the order in which they are checked. -/
def all : List Requirement :=
  [.knownBits, .restrictionsNeedWxorx, .reportsNeedRestriction, .mmapNeedsOther,
    .emutrampNeedsMprotect]

def name : Requirement → String
  | .knownBits => "known bits only"
  | .restrictionsNeedWxorx => "memory restrictions require WXORX"
  | .reportsNeedRestriction => "reporting requires an enforced restriction"
  | .mmapNeedsOther => "MMAP requires OTHER"
  | .emutrampNeedsMprotect => "EMUTRAMP requires full MPROTECT"

/-- Whether a word satisfies a requirement. -/
def holds (f : Flags) : Requirement → Bool
  | .knownBits => known.contains f
  | .restrictionsNeedWxorx => !f.meets mprotect || f.contains wxorx
  | .reportsNeedRestriction =>
    !f.meets (complain ∪ verbose) || f.meets (mprotect ∪ wxorx ∪ mmap)
  | .mmapNeedsOther => !f.contains mmap || f.contains other
  | .emutrampNeedsMprotect => !f.contains emutramp || f.contains mprotect

end Requirement

/-- The first requirement that a word breaks. -/
def violated? (f : Flags) : Option Requirement :=
  Requirement.all.find? fun r => !r.holds (f.without transfer)

/-- Whether the kernel accepts a word. -/
def isValid (f : Flags) : Bool := f.violated?.isNone

end Flags

end PathPolicy.Protection
