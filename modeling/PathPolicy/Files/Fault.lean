/-!
# Faults of file access
-/

namespace PathPolicy.Files

/-- Why a file or a directory cannot be read or written. -/
inductive Fault where
  | notFound
  | notDirectory
  | isDirectory
  | alreadyExists
  | nameTooLong
  | zeroInName
  | notText
  | other (message : String)
  deriving Repr, DecidableEq

def Fault.message : Fault → String
  | .notFound => "No such file or directory (os error 2)"
  | .notDirectory => "Not a directory (os error 20)"
  | .isDirectory => "Is a directory (os error 21)"
  | .alreadyExists => "File exists (os error 17)"
  | .nameTooLong => "File name too long (os error 36)"
  | .zeroInName => "file name contained an unexpected NUL byte"
  | .notText => "stream did not contain valid UTF-8"
  | .other message => message

end PathPolicy.Files
