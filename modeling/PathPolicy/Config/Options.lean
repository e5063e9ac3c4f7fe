import PathPolicy.Protection.Trampoline
import PathPolicy.Toml.Document

/-!
# The main options

The main options are two sections of a TOML document. Every option has a default, and nothing but
the options may be given. A section may also be an array with the options in their order.
-/

namespace PathPolicy

/-- The options of the module as a whole. -/
structure MainOptions where
  enabled : Bool := false
  locked : Bool := false
  deriving Repr, DecidableEq

/-- The options of memory protection. -/
structure ProtectionOptions where
  enabled : Bool := true
  xattrEnabled : Bool := false
  xattrUserAllowed : Bool := false
  emutrampMissingDefault : Protection.Fallback := .mprotect
  deriving Repr, DecidableEq

/-- All options. -/
structure Options where
  main : MainOptions := {}
  protection : ProtectionOptions := {}
  deriving Repr, DecidableEq

namespace Options

/-- Why a text does not give options. -/
inductive Fault where
  /-- It is not a document, or says something that is no option. -/
  | malformed
  /-- It gives a fallback that does not exist. -/
  | badFallback
  deriving Repr, DecidableEq

def Fault.message : Fault → String
  | .malformed => "TOML parse error"
  | .badFallback => "TOML parse error: " ++ Protection.Fallback.complaint

def boolean : Toml.Node → Except Fault Bool
  | .boolean value => .ok value
  | _ => .error .malformed

def fallback : Toml.Node → Except Fault Protection.Fallback
  | .string text =>
    match Protection.Fallback.ofText? text with
    | some value => .ok value
    | none => .error .badFallback
  | _ => .error .malformed

/-- The options of a section, set one by one, by their keys or in the order of `keys`. What an array
holds beyond the keys is ignored. -/
def readSection {α : Type} (keys : List String) (set : α → String → Toml.Node → Except Fault α)
    (start : α) : Toml.Node → Except Fault α
  | .table _ entries => entries.foldlM (fun o (key, v) => set o key v) start
  | .array items => (keys.zip items).foldlM (fun o (key, v) => set o key v) start
  | .tables rows =>
    (keys.zip (rows.reverse.map (Toml.Node.table .header))).foldlM
      (fun o (key, v) => set o key v) start
  | _ => .error .malformed

def mainKeys : List String := ["enabled", "locked"]

/-- Sets one of the main options. -/
def setMain (o : MainOptions) (key : String) (v : Toml.Node) : Except Fault MainOptions :=
  match key with
  | "enabled" => return { o with enabled := ← boolean v }
  | "locked" => return { o with locked := ← boolean v }
  | _ => .error .malformed

/-- The keys of the section on memory protection. -/
def protectionKeys : List String :=
  ["enabled", "xattr_enabled", "xattr_user_allowed", "emutramp_missing_default"]

/-- Sets one of the options of memory protection. -/
def setProtection (o : ProtectionOptions) (key : String) (v : Toml.Node) :
    Except Fault ProtectionOptions :=
  match key with
  | "enabled" => return { o with enabled := ← boolean v }
  | "xattr_enabled" => return { o with xattrEnabled := ← boolean v }
  | "xattr_user_allowed" => return { o with xattrUserAllowed := ← boolean v }
  | "emutramp_missing_default" => return { o with emutrampMissingDefault := ← fallback v }
  | _ => .error .malformed

/-- Sets the options of one section. -/
def setSection (o : Options) (key : String) (v : Toml.Node) : Except Fault Options :=
  match key with
  | "sara" => return { o with main := ← readSection mainKeys setMain {} v }
  | "wxprot" => return { o with protection := ← readSection protectionKeys setProtection {} v }
  | _ => .error .malformed

/-- The options that a text gives. Of several faults the first one counts, but every fault of the
document itself comes before those of its options. -/
def parse (text : String) : Except Fault Options :=
  match Toml.parse? text with
  | none => .error .malformed
  | some entries => entries.foldlM (fun o (key, v) => setSection o key v) {}

end Options

end PathPolicy
