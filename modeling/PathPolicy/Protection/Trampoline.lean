import PathPolicy.Text.Blank
import PathPolicy.Text.Case

/-!
# Kernels without emulated trampolines

A rule may ask for emulated trampolines. What becomes of it where the kernel cannot emulate them is
said by the rule or, if it says nothing, by the options.
-/

namespace PathPolicy.Protection

/-- What a rule that asks for emulated trampolines turns into on a kernel without them. -/
inductive Fallback where
  /-- It keeps its restrictions. -/
  | mprotect
  /-- It restricts nothing. -/
  | none
  deriving Repr, DecidableEq

namespace Fallback

instance : Inhabited Fallback := ⟨.mprotect⟩

def name : Fallback → String
  | .mprotect => "MPROTECT"
  | .none => "NONE"

/-- The fallback that is written so, in either case and with blanks around it. -/
def ofText? (text : String) : Option Fallback :=
  let name := Text.upper (Text.trim text)
  if name = "MPROTECT" then some .mprotect
  else if name = "NONE" then some .none
  else Option.none

/-- What is said of a text that is no fallback. -/
def complaint : String := "wrong value for \"wxprot_emutramp_missing_default\""

end Fallback

/-- What the meaning of a rule depends on. -/
structure Support where
  /-- The kernel emulates trampolines. -/
  available : Bool
  fallback : Fallback
  deriving Repr, DecidableEq

end PathPolicy.Protection
