import PathPolicy.Bytes.Hex
import PathPolicy.Digest.Sha1
import PathPolicy.Text.Blank

/-!
# Content digests

The SHA-1 of the canonical text of a policy is stored in every binary policy and reported back by
the kernel, which is how a policy that is already loaded is recognised.
-/

namespace PathPolicy

/-- Twenty bytes that stand for a content. -/
structure Digest where
  bytes : Bytes
  length_bytes : bytes.length = 20
  deriving DecidableEq

namespace Digest

def size : Nat := 20

/-- The digest with the given bytes, if there are twenty. -/
def ofBytes? (b : Bytes) : Option Digest := if h : b.length = 20 then some ⟨b, h⟩ else none

/-- The digest made of one byte, repeated. -/
def replicate (b : UInt8) : Digest := ⟨List.replicate 20 b, List.length_replicate⟩

instance : Inhabited Digest := ⟨replicate 0⟩

def ofContent (content : Bytes) : Digest := ⟨Sha1.hash content, Sha1.length_hash content⟩

def ofText (text : String) : Digest := ofContent (Bytes.ofString text)

/-- Forty lowercase hexadecimal digits. -/
def hex (d : Digest) : String := Bytes.Hex.encode d.bytes

/-- What the kernel reports as long as nothing is loaded: the zero digest. -/
def notLoaded : String := (replicate 0).hex

/-- Reads forty hexadecimal digits, with blanks around them. -/
def ofHex (text : String) : Except Bytes.Hex.Fault Digest :=
  match Bytes.Hex.decode size (Bytes.ofString (Text.trim text)) with
  | .error fault => .error fault
  | .ok b => if h : b.length = 20 then .ok ⟨b, h⟩ else .error .wrongLength

end Digest

/-- The next twenty bytes as a digest. -/
def Reader.digest : Reader Digest := do
  let b ← Reader.bytes Digest.size
  Digest.ofBytes? b

end PathPolicy
