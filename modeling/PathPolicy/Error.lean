import PathPolicy.Protection.Blob

/-!
# Errors of a submodule

A line that is not a rule, and a byte string that is not a policy. Both say which submodule they are
about.
-/

namespace PathPolicy

/-- What can be wrong with the rules of a submodule. -/
inductive RuleFault where
  | line (fault : Protection.Fault)
  | records (fault : Protection.Blob.Fault)
  deriving Repr, DecidableEq

def RuleFault.message : RuleFault → String
  | .line fault => fault.message
  | .records fault => fault.message

/-- Lines that do not give a policy. -/
structure ConfigError where
  longName : String
  location : String
  cause : RuleFault
  deriving Repr, DecidableEq

def ConfigError.message (e : ConfigError) : String :=
  s!"{e.longName} configuration error at line '{e.location}': {e.cause.message}."

/-- A byte string that is not a policy, or a number that is not a value. -/
structure BinaryError where
  longName : String
  cause : RuleFault
  deriving Repr, DecidableEq

def BinaryError.message (e : BinaryError) : String :=
  s!"{e.longName} binary error: {e.cause.message}."

end PathPolicy
