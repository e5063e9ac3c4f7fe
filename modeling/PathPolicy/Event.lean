import PathPolicy.Failure

/-!
# Events

What happens besides the result of an operation is reported as events, each of which has a level and
a wording.
-/

namespace PathPolicy

/-- How much an event matters. -/
inductive Level where
  | error
  | warn
  | info
  | debug
  deriving Repr, DecidableEq

/-- The levels by number; the most important one is zero. -/
def Level.rank : Level → Nat
  | .error => 0
  | .warn => 1
  | .info => 2
  | .debug => 3

def Level.name : Level → String
  | .error => "error"
  | .warn => "warn"
  | .info => "info"
  | .debug => "debug"

/-- Something that happened. -/
inductive Event where
  /-- A run of the command line failed. -/
  | aborted (failure : Failure)
  /-- A part of an operation failed, and the operation went on without it. -/
  | failed (failure : Failure)
  /-- A line that is no rule was left out. -/
  | skippedLine (error : ConfigError)
  /-- There were several rules for one path. -/
  | simplified (longName : String)
  /-- A line with an open quote was left out. -/
  | brokenLine (location : String)
  /-- The default value of the kernel is no number. -/
  | badDefault (name text : String) (fault : Text.Numeral.Fault)
  /-- The default value of the kernel is no value. -/
  | invalidDefault (error : BinaryError)
  /-- The kernel has the policy already. -/
  | upToDate (name : String)
  /-- A policy was loaded. -/
  | loaded (name : String) (digest : Digest)
  /-- There is no policy to test. -/
  | nothingLoaded (name : String)
  /-- A policy passed its test. -/
  | testPassed (name : String)
  /-- There is no file of main options. -/
  | defaultOptions (path : String)
  /-- A policy was made. -/
  | compiled (name : String) (rules size : Nat) (digest : Digest)
  /-- An image could not be read. -/
  | unreadableImage (path : String) (fault : Files.Fault)
  /-- An image breaks the rules of its format. -/
  | malformedImage (path : String) (fault : Image.Elf.Fault)
  /-- A table of path rules was compiled. -/
  | packed (rules states groups : Nat)
  /-- A set of the matcher test passed. -/
  | setPassed (index : Nat)

namespace Event

def level : Event → Level
  | .aborted _ => .error
  | .failed _ | .skippedLine _ | .simplified _ | .brokenLine _ | .badDefault ..
  | .invalidDefault _ => .warn
  | .upToDate _ | .loaded .. | .nothingLoaded _ | .testPassed _ => .info
  | .defaultOptions _ | .compiled .. | .unreadableImage .. | .malformedImage .. | .packed ..
  | .setPassed _ => .debug

def message : Event → String
  | .aborted failure | .failed failure => failure.message
  | .skippedLine error => error.message
  | .simplified longName => s!"{longName} config has been simplified"
  | .brokenLine location => s!"syntax error at {location}"
  | .badDefault name text fault =>
    s!"{name}: bad default value {Text.quoted text}: {fault.message}"
  | .invalidDefault error => error.message
  | .upToDate name => s!"{name}: configuration is up to date"
  | .loaded name digest => s!"{name}: loaded configuration {digest.hex}"
  | .nothingLoaded name => s!"{name}: no configuration loaded, skipping"
  | .testPassed name => s!"{name}: configuration test passed"
  | .defaultOptions path => s!"{path} not found, using defaults"
  | .compiled name rules size digest =>
    s!"{name}: {rules} rules, {size} bytes, hash {digest.hex}"
  | .unreadableImage path fault => s!"can't read {path}: {fault.message}"
  | .malformedImage path fault => s!"can't parse {path}: {fault.message}"
  | .packed rules states groups =>
    s!"compiled {rules} rules into {states} states in {groups} groups"
  | .setPassed index => s!"DFA test set {index} passed"

/-- The event of an inspection that did not work, if it did not. -/
def ofInspection? (path : String) : Image.Inspection → Option Event
  | .unknown | .image _ => none
  | .unreadable fault => some (.unreadableImage path fault)
  | .malformed fault => some (.malformedImage path fault)

end Event

end PathPolicy
