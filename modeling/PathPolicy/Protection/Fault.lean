/-!
# Faults of a protection rule
-/

namespace PathPolicy.Protection

/-- Why a line is not a protection rule, or must not be one. -/
inductive Fault where
  | notEnoughFields
  | invalidFlag
  | invalidFlags
  | pathTooLong
  | relativePath
  | conflictingEmutramp
  | executableStack
  | missingRelro
  | dynamicLoading
  deriving Repr, DecidableEq

def Fault.message : Fault → String
  | .notEnoughFields => "not enough fields"
  | .invalidFlag => "invalid flag"
  | .invalidFlags => "invalid flags"
  | .pathTooLong => "path too long"
  | .relativePath => "path must be absolute"
  | .conflictingEmutramp => "can't use more than one version of the EMUTRAMP flag"
  | .executableStack =>
    "WXORX protection is incompatible with GNU executable stack marking. Did you forget EMUTRAMP?"
  | .missingRelro => "MMAP restriction is incompatible with binaries missing a RELRO section"
  | .dynamicLoading => "MMAP restriction is incompatible with binaries using dlopen(3)"

end PathPolicy.Protection
