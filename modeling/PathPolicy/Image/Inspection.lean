import PathPolicy.Files.Fault
import PathPolicy.Image.Elf

/-!
# Inspecting images

An inspector says what is known about the image at a path.
-/

namespace PathPolicy.Image

/-- What an inspection of a path finds. -/
inductive Inspection where
  /-- Nothing: there is no file, or its format is not known. -/
  | unknown
  /-- A file that cannot be read. -/
  | unreadable (fault : Files.Fault)
  /-- A file of a known format that breaks its rules. -/
  | malformed (fault : Elf.Fault)
  /-- An image. -/
  | image (traits : Traits)
  deriving Repr, DecidableEq

/-- The traits that an inspection finds. -/
def Inspection.traits? : Inspection → Option Traits
  | .image traits => some traits
  | _ => none

/-- What is known about the image at each path. -/
abbrev Inspector := String → Inspection

/-- Knows nothing about any path. -/
def Inspector.blind : Inspector := fun _ => .unknown

/-- What the bytes of a file show. -/
def Inspection.ofBytes (data : Bytes) : Inspection :=
  match Elf.traits? data with
  | none => .unknown
  | some (.ok traits) => .image traits
  | some (.error fault) => .malformed fault

end PathPolicy.Image
