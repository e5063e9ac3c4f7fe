import PathPolicy.Config.Options
import PathPolicy.Error
import PathPolicy.Rule.Basic
import PathPolicy.Text.Numeral

/-!
# Why an operation fails

Every way in which loading, reading back or testing a policy can fail, and its wording.
-/

namespace PathPolicy

/-- What was being done with a file. -/
inductive Access where
  | reading
  | writing
  | listing
  | creating
  deriving Repr, DecidableEq

def Access.name : Access → String
  | .reading => "reading"
  | .writing => "writing"
  | .listing => "listing"
  | .creating => "creating"

/-- Why an operation fails. -/
inductive Failure where
  /-- A file or a directory cannot be used. -/
  | file (access : Access) (path : String) (fault : Files.Fault)
  /-- The file of the main options gives none. -/
  | options (path : String) (fault : Options.Fault)
  /-- The kernel does not have the module. -/
  | unavailable (root : String)
  /-- The configuration may not be changed any more. -/
  | locked
  /-- The kernel does not have the submodule. -/
  | absentSubmodule (name : String)
  /-- Rules do not give a policy. -/
  | config (error : ConfigError)
  /-- A byte string is not a policy. -/
  | binary (error : BinaryError)
  /-- There is no submodule of this name. -/
  | unknownSubmodule (name : String)
  /-- The submodule has no extended attribute. -/
  | noAttribute (longName : String)
  /-- There is no extended attribute of this name. -/
  | unknownAttribute (name : String)
  /-- A text cannot be cut into words. -/
  | openQuote (text : String)
  /-- A text is not the value of an extended attribute. -/
  | badAttribute (text : String) (fault : Text.Numeral.Fault)
  /-- The kernel reports a digest without a policy, or a policy without a digest. -/
  | inconsistent (name hash : String) (size : Nat)
  /-- The digest is another one after the policy was loaded again. -/
  | digestChanged (name : String)
  /-- The policy is another one after it was loaded again. -/
  | policyChanged (name : String)
  /-- The text of the policy does not give the policy. -/
  | notReproduced (name : String)
  /-- The kernel does not have the matcher test. -/
  | noMatcherTest (directory : String)
  /-- An automaton of the matcher test cannot be loaded. -/
  | loadingSet (index : Nat) (cause : Failure)
  /-- The matcher answers something that is no number. -/
  | badResult (text : String) (fault : Text.Numeral.Fault)
  /-- The matcher finds another value. -/
  | wrongResult (index : Nat) (path : Bytes) (found expected : Value)
  /-- The matcher takes a byte string that is no automaton. -/
  | acceptedMalformed (index : Nat)
  /-- A rule of the matcher test is none. -/
  | rule (fault : Rule.Fault)
  /-- An automaton has more states than there are numbers for. -/
  | tooManyStates

/-- The wording of a failure: from the outermost to the innermost cause. -/
def Failure.message : Failure → String
  | .file access path fault => s!"{access.name} {path}: {fault.message}"
  | .options path fault => s!"parsing {path}: {fault.message}"
  | .unavailable root => s!"S.A.R.A. is not available at \"{root}\""
  | .locked => "configuration is locked"
  | .absentSubmodule name => s!"submodule {name} is not available"
  | .config error => error.message
  | .binary error => error.message
  | .unknownSubmodule name => s!"unknown submodule {name}"
  | .noAttribute longName => s!"{longName} has no extended attribute"
  | .unknownAttribute name => s!"unknown extended attribute {name}"
  | .openQuote text => s!"syntax error in {Text.quoted text}"
  | .badAttribute text fault => s!"malformed xattr value {Text.quoted text}: {fault.message}"
  | .inconsistent name hash size =>
    s!"{name}: kernel reports hash {hash} with a {size} byte configuration"
  | .digestChanged name => s!"{name}: hash changed after reloading the same configuration"
  | .policyChanged name => s!"{name}: configuration changed after reloading it"
  | .notReproduced name => s!"{name}: decompiled configuration does not compile back to itself"
  | .noMatcherTest directory =>
    s!"{directory} is not available (kernel built without the DFA self-test?)"
  | .loadingSet index cause => s!"loading DFA test set {index}: {cause.message}"
  | .badResult text fault => s!"bad DFA test result {Text.quoted text}: {fault.message}"
  | .wrongResult index path found expected =>
    let input := Text.quoted (Text.lossy path)
    let foundText := Bytes.Hex.numeral found.toNat
    let expectedText := Bytes.Hex.numeral expected.toNat
    s!"DFA test {index}: {input} gave {foundText}, expected {expectedText}"
  | .acceptedMalformed index => s!"DFA malformed test {index}: kernel accepted the blob"
  | .rule fault => fault.message
  | .tooManyStates => "automaton state space exhausted"

end PathPolicy
