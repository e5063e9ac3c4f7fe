import PathPolicy.Protection.Flags

/-!
# The words of a protection column
-/

namespace PathPolicy.Protection

/-- A word that may stand in the protection columns of a rule. -/
inductive Token where
  | full
  | verbose
  | wxorx
  | stack
  | heap
  | complain
  | other
  | mprotect
  | emutramp
  | emutrampOrMprotect
  | emutrampOrNone
  | transfer
  | mmap
  | none
  deriving Repr, DecidableEq

namespace Token

/-- All words, in their order. -/
def all : List Token :=
  [.full, .verbose, .wxorx, .stack, .heap, .complain, .other, .mprotect, .emutramp,
    .emutrampOrMprotect, .emutrampOrNone, .transfer, .mmap, .none]

def name : Token → String
  | .full => "FULL"
  | .verbose => "VERBOSE"
  | .wxorx => "WXORX"
  | .stack => "STACK"
  | .heap => "HEAP"
  | .complain => "COMPLAIN"
  | .other => "OTHER"
  | .mprotect => "MPROTECT"
  | .emutramp => "EMUTRAMP"
  | .emutrampOrMprotect => "EMUTRAMP_OR_MPROTECT"
  | .emutrampOrNone => "EMUTRAMP_OR_NONE"
  | .transfer => "TRANSFER"
  | .mmap => "MMAP"
  | .none => "NONE"

/-- The word that is written so. -/
def ofName? (name : String) : Option Token := all.find? (·.name = name)

/-- The bits that a word sets: memory restrictions bring `wxorx` along, and `mmap` brings
`other`. -/
def bits : Token → Flags
  | .full => Flags.full
  | .verbose => Flags.verbose
  | .wxorx => Flags.wxorx
  | .stack => Flags.stack ∪ Flags.wxorx
  | .heap => Flags.heap ∪ Flags.wxorx
  | .complain => Flags.complain
  | .other => Flags.other ∪ Flags.wxorx
  | .mprotect => Flags.mprotect ∪ Flags.wxorx
  | .emutramp | .emutrampOrMprotect | .emutrampOrNone => Flags.emutramp
  | .transfer => Flags.transfer
  | .mmap => Flags.mmap ∪ Flags.other ∪ Flags.wxorx
  | .none => Flags.none

/-- Whether a word asks for the emulation of trampolines. -/
def isEmutramp : Token → Bool
  | .emutramp | .emutrampOrMprotect | .emutrampOrNone => true
  | _ => false

end Token

end PathPolicy.Protection
