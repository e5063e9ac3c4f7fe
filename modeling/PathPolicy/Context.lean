import PathPolicy.Config.Options
import PathPolicy.Digest
import PathPolicy.Image.Inspection
import PathPolicy.Kernel.Features

/-!
# What a policy depends on besides its lines
-/

namespace PathPolicy

/-- What becomes of a line that is no rule. -/
inductive Strictness where
  /-- There is no policy. -/
  | strict
  /-- The policy is made without the line. -/
  | lenient
  deriving Repr, DecidableEq

/-- The options, the features of the kernel, what is known about images, and what becomes of lines
that are no rules. -/
structure Context where
  options : Options
  features : Kernel.Features
  inspector : Image.Inspector
  strictness : Strictness

/-- A policy as the kernel takes it. -/
structure Policy where
  binary : Bytes
  /-- The digest of the text, which is stored in the binary form too. -/
  digest : Digest
  /-- The text of the lines that the policy was made of. -/
  text : String
  deriving DecidableEq

end PathPolicy
