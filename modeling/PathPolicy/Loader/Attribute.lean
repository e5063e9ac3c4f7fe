import PathPolicy.Loader.Basic
import PathPolicy.Text.Case

/-!
# Values of extended attributes

A file may carry a value of its own instead of being named by a rule. The value is a number: it is
made of protection columns and turned into text again here.
-/

namespace PathPolicy

/-- Reads the value of an extended attribute: in hexadecimal after `0x`, in octal after `0`,
otherwise in decimal. The letters may have either case. -/
def Attribute.parse (text : String) : Except Text.Numeral.Fault UInt32 :=
  match text.toList with
  | '0' :: 'x' :: digits => (Text.Numeral.ofChars 16 digits).map UInt32.ofNat
  | '0' :: d :: digits => (Text.Numeral.ofChars 8 (d :: digits)).map UInt32.ofNat
  | digits => (Text.Numeral.ofChars 10 digits).map UInt32.ofNat

namespace Loader

variable {m : Type → Type} [Monad m] [Host m] (l : Loader)

/-- The value of an extended attribute for the given columns. If a file is given, they are checked
as an exact rule for it would be. -/
def encodeAttribute (submodule : String) (columns : List String) (file : Option Files.Path) :
    Task m UInt32 := do
  let some sm := Submodule.ofName? submodule | throw (.unknownSubmodule submodule)
  if sm.attribute?.isNone then throw (.noAttribute sm.longName)
  let options ← l.options
  let text := " ".intercalate columns
  let some words := Text.ShellWords.split text | throw (.openQuote text)
  let tokens := file.getD "xattr" :: words
  let ctx ← l.context sm [tokens] options Kernel.Features.empty .strict
  let (result, events) := sm.encodeValue tokens ctx
  Task.reportAll events
  match result with
  | .ok value => return value
  | .error e => throw (.config e)

def decodeAttribute (attributeName value : String) : Except Failure String :=
  match Submodule.ofAttribute? attributeName with
  | none => .error (.unknownAttribute attributeName)
  | some sm =>
    let text := Text.lower (Text.trim value)
    match Attribute.parse text with
    | .error fault => .error (.badAttribute text fault)
    | .ok number =>
      match sm.renderValue number with
      | .ok rendered => .ok rendered
      | .error e => .error (.binary e)

end Loader

end PathPolicy
