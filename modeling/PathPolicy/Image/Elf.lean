import PathPolicy.Bytes

/-!
# Executable images

An image in the ELF format, of either word size and either byte order, has two tables: segments,
which say how it is loaded, and sections, one of which may list the libraries that it needs. What is
read here are the three traits that decide whether a program survives the protection of its memory.

Every table has to lie in the image and to start at a multiple of its word size. An image that
breaks a rule has no traits; `Fault` says which one it broke.
-/

namespace PathPolicy.Image

/-- What matters about an image when its memory is to be protected. -/
structure Traits where
  /-- It asks for an executable stack. -/
  execStack : Bool
  /-- It has a part that is read-only after relocation. -/
  relro : Bool
  /-- It needs the library that loads libraries. -/
  dynamicLoading : Bool
  deriving Repr, DecidableEq

namespace Elf

/-- Why an image cannot be read. -/
inductive Fault where
  | header
  | unsupported
  | sectionEntrySize
  | firstSection
  | missingFirstSection
  | segmentEntrySize
  | segments
  | sections
  | missingNames
  | nameIndex
  | nameSize
  | dynamicSection
  | sectionIndex
  | stringType
  | stringSize
  | stringOffset
  deriving Repr, DecidableEq

def Fault.message : Fault → String
  | .header => "Invalid ELF header size or alignment"
  | .unsupported => "Unsupported ELF header"
  | .sectionEntrySize => "Invalid ELF section header entry size"
  | .firstSection => "Invalid ELF section header offset or size"
  | .missingFirstSection => "Missing ELF section headers for e_phnum overflow"
  | .segmentEntrySize => "Invalid ELF program header entry size"
  | .segments => "Invalid ELF program header size or alignment"
  | .sections => "Invalid ELF section header offset/size/alignment"
  | .missingNames => "Missing ELF e_shstrndx"
  | .nameIndex => "Invalid ELF e_shstrndx"
  | .nameSize => "Invalid ELF shstrtab size"
  | .dynamicSection => "Invalid ELF dynamic section offset or size"
  | .sectionIndex => "Invalid ELF section index"
  | .stringType => "Invalid ELF string section type"
  | .stringSize => "Invalid ELF string section offset or size"
  | .stringOffset => "Invalid ELF dyn string"

/-- The bytes of an image, and how its words are laid out. -/
structure Source where
  data : Array UInt8
  /-- Words of eight bytes instead of four. -/
  wide : Bool
  /-- The high byte of a word comes first. -/
  bigEndian : Bool

namespace Source

/-- The number of the `n` bytes from `offset`. Bytes beyond the end count as zero. -/
def number (s : Source) (offset n : Nat) : Nat :=
  let bytes := (List.range n).map fun i => (s.data.getD (offset + i) 0).toNat
  (if s.bigEndian then bytes else bytes.reverse).foldl (fun value b => value * 256 + b) 0

/-- A number of two bytes. -/
def half (s : Source) (offset : Nat) : Nat := s.number offset 2

/-- A number of four bytes. -/
def word (s : Source) (offset : Nat) : Nat := s.number offset 4

/-- An address, offset or size: a number as wide as the image's words. -/
def wideWord (s : Source) (offset : Nat) : Nat := s.number offset (if s.wide then 8 else 4)

/-- The one of two layouts that applies: of narrow or of wide words. -/
def layout (s : Source) (narrow wide : Nat) : Nat := if s.wide then wide else narrow

/-- Whether `count` entries of `size` bytes from `offset` lie in the image and are aligned. -/
def hasTable (s : Source) (offset count size : Nat) : Bool :=
  offset % s.layout 4 8 == 0 && offset + count * size ≤ s.data.size

def headerSize (s : Source) : Nat := s.layout 52 64

/-- The number of bytes of a segment's entry. -/
def segmentSize (s : Source) : Nat := s.layout 32 56

/-- The number of bytes of a section's entry. -/
def sectionSize (s : Source) : Nat := s.layout 40 64

def segmentsOffset (s : Source) : Nat := s.wideWord (s.layout 28 32)

def sectionsOffset (s : Source) : Nat := s.wideWord (s.layout 32 40)

end Source

/-- What an entry of the section table says. -/
structure Section where
  kind : Nat
  offset : Nat
  size : Nat
  link : Nat
  info : Nat

/-- The entry of the section table at `offset`. -/
def Section.read (s : Source) (offset : Nat) : Section where
  kind := s.word (offset + 4)
  offset := s.wideWord (offset + s.layout 16 24)
  size := s.wideWord (offset + s.layout 20 32)
  link := s.word (offset + s.layout 24 40)
  info := s.word (offset + s.layout 28 44)

/-- The kind of a section that lists what the image needs. -/
def dynamicKind : Nat := 6

/-- The kind of a section that holds strings. -/
def stringKind : Nat := 3

/-- The kind of a section that takes no place in the image. -/
def emptyKind : Nat := 8

/-- The first section, which holds the numbers that do not fit into the header. -/
def firstSection? (s : Source) : Except Fault (Option Section) :=
  let offset := s.sectionsOffset
  if offset = 0 then .ok none
  else if s.half (s.layout 46 58) ≠ s.sectionSize then .error .sectionEntrySize
  else if !s.hasTable offset 1 s.sectionSize then .error .firstSection
  else .ok (some (Section.read s offset))

def segmentCount (s : Source) : Except Fault Nat := do
  let n := s.half (s.layout 44 56)
  if n < 0xffff then return n
  match ← firstSection? s with
  | some first => return first.info
  | none => throw .missingFirstSection

def sectionCount (s : Source) : Except Fault Nat := do
  let n := s.half (s.layout 48 60)
  if 0 < n then return n
  match ← firstSection? s with
  | some first => return first.size
  | none => return 0

/-- The index of the section with the names of the sections. -/
def nameIndex (s : Source) : Except Fault Nat := do
  let n := s.half (s.layout 50 62)
  if n ≠ 0xffff then return n
  match ← firstSection? s with
  | some first => return first.link
  | none => throw .missingFirstSection

/-- The offsets of the entries of the segment table. -/
def segments (s : Source) : Except Fault (List Nat) := do
  let offset := s.segmentsOffset
  if offset = 0 then return []
  let n ← segmentCount s
  if n = 0 then return []
  if s.half (s.layout 42 54) ≠ s.segmentSize then throw .segmentEntrySize
  if !s.hasTable offset n s.segmentSize then throw .segments
  return (List.range n).map fun i => offset + i * s.segmentSize

def sections (s : Source) : Except Fault (Array Section) := do
  let offset := s.sectionsOffset
  if offset = 0 then return #[]
  let n ← sectionCount s
  if n = 0 then return #[]
  if s.half (s.layout 46 58) ≠ s.sectionSize then throw .sectionEntrySize
  if !s.hasTable offset n s.sectionSize then throw .sections
  return ((List.range n).map fun i => Section.read s (offset + i * s.sectionSize)).toArray

/-- The names of sections are not used, but an image with sections has to have them. -/
def checkNames (s : Source) (all : Array Section) : Except Fault Unit := do
  if all.isEmpty then return
  let index ← nameIndex s
  if index = 0 then throw .missingNames
  match all[index]? with
  | none => throw .nameIndex
  | some names =>
    if names.kind ≠ emptyKind ∧ 0x10000000000000000 ≤ names.offset + names.size then throw .nameSize

/-- What a segment asks of the stack, if it is about the stack. -/
def execStack? (s : Source) (offset : Nat) : Option Bool :=
  if s.word offset = 0x6474e551 then
    some (s.word (offset + s.layout 24 4) % 8 == 7)
  else none

/-- Whether a segment is read-only after relocation. -/
def isRelro (s : Source) (offset : Nat) : Bool := s.word offset == 0x6474e552

/-- Where strings are: from `first` on. Each of them has a zero byte at its end, the last one the
byte before `last`. -/
structure Strings where
  first : Nat
  last : Nat

/-- The place after the last zero byte among the first `n` bytes, or zero. -/
def afterZero (s : Source) : Nat → Nat
  | 0 => 0
  | n + 1 => if s.data.getD n 0 = 0 then n + 1 else afterZero s n

/-- The strings that the section with the given index holds. A section that does not lie in the
image holds none. -/
def strings (s : Source) (all : Array Section) (index : Nat) : Except Fault Strings := do
  if index = 0 then return ⟨0, 0⟩
  match all[index]? with
  | none => throw .sectionIndex
  | some found =>
    if found.kind ≠ stringKind then throw .stringType
    let last := found.offset + found.size
    if 0x10000000000000000 ≤ last then throw .stringSize
    return ⟨found.offset, if last ≤ s.data.size then afterZero s last else 0⟩

/-- Whether the string at `offset` starts with the given bytes, none of which is zero. -/
def startsWith (s : Source) (t : Strings) (offset : Nat) (front : Bytes) : Except Fault Bool :=
  let place := t.first + offset
  if offset < 0x100000000 ∧ place < t.last then
    .ok ((s.data.extract place (place + front.length)).toList == front)
  else .error .stringOffset

/-- The beginning of the name of the library that loads libraries. -/
def loaderLibrary : Bytes := Bytes.ofString "libdl.so"

/-- Whether one of the entries at the given offsets needs the library that loads libraries. -/
def needsLoader (s : Source) (t : Strings) (offsets : List Nat) : Except Fault Bool :=
  offsets.foldlM
    (fun found offset => do
      if s.wideWord offset = 1 then
        return (← startsWith s t (s.wideWord (offset + s.layout 4 8)) loaderLibrary) || found
      else return found)
    false

/-- Whether the image needs the library that loads libraries. The section that lists what it needs
holds whole entries only. -/
def dynamicLoading (s : Source) (all : Array Section) : Except Fault Bool := do
  match all.find? (·.kind = dynamicKind) with
  | none => return false
  | some found =>
    let size := s.layout 8 16
    if !s.hasTable found.offset 1 found.size || found.size % size ≠ 0 then throw .dynamicSection
    let t ← strings s all found.link
    needsLoader s t ((List.range (found.size / size)).map fun i => found.offset + i * size)

/-- The traits of an image whose layout is known. -/
def Source.traits (s : Source) : Except Fault Traits := do
  if s.data.size < s.headerSize then throw .header
  if s.data.getD 6 0 ≠ 1 then throw .unsupported
  let segments ← segments s
  let all ← sections s
  checkNames s all
  let dynamicLoading ← dynamicLoading s all
  return {
    execStack := (segments.filterMap (execStack? s)).getLastD false
    relro := segments.any (isRelro s)
    dynamicLoading }

/-- The four bytes that an image starts with. -/
def magic : List UInt8 := [0x7f, 0x45, 0x4c, 0x46]

/-- The traits of an image, or none if it is not in this format at all. -/
def traits? (data : Bytes) : Option (Except Fault Traits) :=
  let bytes := data.toArray
  if bytes.size < 16 ∨ data.take 4 ≠ magic then none
  else
    let ofClass := fun (wide : Bool) =>
      match bytes.getD 5 0 with
      | 1 => Source.traits ⟨bytes, wide, false⟩
      | 2 => Source.traits ⟨bytes, wide, true⟩
      | _ => if bytes.size < (if wide then 64 else 52) then .error .header
        else .error .unsupported
    match bytes.getD 4 0 with
    | 1 => some (ofClass false)
    | 2 => some (ofClass true)
    | _ => none

end Elf

end PathPolicy.Image
