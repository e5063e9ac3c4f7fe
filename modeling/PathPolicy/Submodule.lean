import PathPolicy.Protection.Policy

/-!
# Submodules

The parts of the kernel module that have policies of their own. Each has a name, which is also the
name of its directory and of its rule files, and may have an extended attribute by which a file
carries a value of its own.
-/

namespace PathPolicy

/-- A submodule. -/
inductive Submodule where
  /-- Protection of the memory of programs. -/
  | protection
  deriving Repr, DecidableEq

namespace Submodule

def all : List Submodule := [.protection]

def name : Submodule → String
  | .protection => Protection.name

def longName : Submodule → String
  | .protection => Protection.longName

/-- The last part of the name of the extended attribute, if there is one. -/
def attribute? : Submodule → Option String
  | .protection => some "wxp"

/-- The file with the value of the files that no rule is about. -/
def defaultFile? : Submodule → Option String
  | .protection => some "default_flags"

/-- The files that say what the kernel can do. -/
def featureFiles : Submodule → List String
  | .protection => [Protection.emutrampFeature, "xattr_enabled", "xattr_user_allowed"]

/-- The features that the meaning of a policy depends on. -/
def policyFeatures : Submodule → List String
  | .protection => [Protection.emutrampFeature]

/-- The submodule with the given name, if there is one. -/
def ofName? (name : String) : Option Submodule := all.find? (·.name = name)

/-- The submodule with the given extended attribute, if there is one. -/
def ofAttribute? (xattr : String) : Option Submodule :=
  all.find? (·.attribute? = some xattr)

/-- Whether the options switch a submodule on. -/
def isEnabled (o : Options) : Submodule → Bool
  | .protection => o.protection.enabled

/-- The switches of a submodule that the options set, other than `enabled`. -/
def switches (o : Options) : Submodule → List (String × Bool)
  | .protection =>
    [("xattr_enabled", o.protection.xattrEnabled),
      ("xattr_user_allowed", o.protection.xattrUserAllowed)]

def compile (lines : List Config.Line) (ctx : Context) : Submodule → Protection.Outcome
  | .protection => Protection.compile lines ctx

def decompile (binary : Bytes) : Submodule → Except BinaryError (List Config.Line)
  | .protection => Protection.decompile binary

/-- The paths whose images decide about lines. -/
def consulted (tokens : List String) : Submodule → List String
  | .protection => ((tokens.head?.map Protection.Reader.splitPattern).filter (·.2)).toList.map (·.1)

/-- The value of the extended attribute that a line gives. -/
def encodeValue (tokens : List String) (ctx : Context) :
    Submodule → Except ConfigError UInt32 × List Event
  | .protection => Protection.encodeValue tokens ctx

def isValue (value : UInt32) : Submodule → Bool
  | .protection => Protection.isValue value

def renderValue (value : UInt32) : Submodule → Except BinaryError String
  | .protection => Protection.renderValue value

end Submodule

/-- Whether the options switch the submodule with the given name on. What they do not know is on. -/
def Options.isEnabled (o : Options) (name : String) : Bool :=
  match Submodule.ofName? name with
  | some sm => sm.isEnabled o
  | none => true

end PathPolicy
