import PathPolicy.Automaton.Blob
import PathPolicy.Rule.Table

/-!
# Fixtures of the matcher test

Sets of rules with paths that have to resolve to them, or must not, and byte strings that are no
automata. Every matcher is held to them.
-/

namespace PathPolicy.MatcherTest

/-- A path, and whether its value is that of the rule it is listed with. -/
structure Probe where
  path : Bytes
  hits : Bool

/-- A rule, and the paths that it is tested with. -/
structure FixtureRule where
  pattern : Pattern
  value : Value
  probes : List Probe

/-- Rules that are tested together. -/
abbrev FixtureSet := List FixtureRule

def table (set : FixtureSet) : Except Rule.Fault RuleTable := do
  let rules ← set.mapM fun r => Rule.make r.pattern r.value
  return RuleTable.ofList rules

/-- A path that has the value of its rule. -/
def hit (path : String) : Probe := ⟨Bytes.ofString path, true⟩

/-- A path that no rule covers. -/
def miss (path : String) : Probe := ⟨Bytes.ofString path, false⟩

/-- A rule about one path. -/
def exactly (path : String) (value : Value) (probes : List Probe) : FixtureRule :=
  ⟨⟨Bytes.ofString path, true⟩, value, probes⟩

/-- A rule about all paths with the given beginning. -/
def below (path : String) (value : Value) (probes : List Probe) : FixtureRule :=
  ⟨⟨Bytes.ofString path, false⟩, value, probes⟩

/-- Rules inside and beside each other. -/
def nestedSet : FixtureSet := [
  exactly "/qwlz/" 1 [miss "/qw", hit "/qwlz/", miss "/qwlz", miss "/sigo/"],
  below "/pep" 2 [miss "/pe", hit "/pep", hit "/pepe", hit "/pepe/dgfh", miss "/sigo/"],
  below "/pedp/dg" 3 [hit "/pedp/dg", miss "/p/usg", miss "/dijfsg", hit "/pedp/dgdokfsg",
    miss "/sigo/", hit "/pedp/dg/qwlzh", hit "/pedp/dg/qwl"],
  exactly "/pedp/dg/qwlz" 4 [hit "/pedp/dg/qwlz", miss "/sigo/"],
  exactly "/zio/dg/" 5 [hit "/zio/dg/", miss "/sigo/"],
  below "/zio/" 6 [hit "/zio/dg/34", hit "/zio/dg/dg/", miss "/sigo/"],
  exactly "/zio/" 7 [hit "/zio/"]]

/-- An exact rule between two rules about beginnings, the longer one first. -/
def longFirstSet : FixtureSet := [
  below "/aa/f" 1 [miss "/aa"],
  below "/aa/" 3 [miss "/aa"],
  exactly "/aa/" 2 [hit "/aa/"]]

/-- An exact rule between two rules about beginnings, the shorter one first. -/
def shortFirstSet : FixtureSet := [
  below "/aa/" 3 [miss "/aa"],
  exactly "/aa/" 2 [hit "/aa/"],
  below "/aa/f" 1 [miss "/aa"]]

/-- One rule about every path. -/
def everythingSet : FixtureSet := [below "" 1 [hit "/", hit "", hit "asuhfdf"]]

/-- A rule inside one about every path. -/
def insideEverythingSet : FixtureSet := [
  below "" 1 [hit "/", hit ""],
  below "asu" 2 [hit "asuhfdf"]]

/-- Rules four deep, and one with bytes beyond ASCII. -/
def deepSet : FixtureSet := [
  below "/jgokd/" 1 [hit "/jgokd/", miss "/jgok", hit "/jgokd/dfh", hit "/jgokd/pksfg",
    hit "/jgokd/pksfgz", hit "/jgokd/pksfgh/dijk", hit "/jgokd/pksfgh/dijk/usg",
    hit "/jgokd/pksfgh/"],
  exactly "/jgokd/pksfgh" 2 [hit "/jgokd/pksfgh"],
  below "/jgokd/pksfgh/dijg" 3 [hit "/jgokd/pksfgh/dijg", hit "/jgokd/pksfgh/dijg/ijsg",
    hit "/jgokd/pksfgh/dijg/", hit "/jgokd/pksfgh/dijg//", hit "/jgokd/pksfgh/dijg/usg",
    hit "/jgokd/pksfgh/dijg/ufhok", hit "/jgokd/pksfgh/dijg/ufhokk",
    hit "/jgokd/pksfgh/dijg/ufhokd/ijsdg"],
  below "/jgokd/pksfgh/dijg/ufhokh" 4 [hit "/jgokd/pksfgh/dijg/ufhokh",
    hit "/jgokd/pksfgh/dijg/ufhokh/ijsdg", hit "/jgokd/pksfgh/dijg/ufhokhf",
    hit "/jgokd/pksfgh/dijg/ufhokh/f"],
  below "/jg\u00f2kd/pksfgh/dijg/ufhokh" 5 [hit "/jg\u00f2kd/pksfgh/dijg/ufhokh",
    hit "/jg\u00f2kd/pksfgh/dijg/ufhokh/ijsdg", hit "/jg\u00f2kd/pksfgh/dijg/ufhokhf",
    hit "/jg\u00f2kd/pksfgh/dijg/ufhokh/f"]]

def sets : List FixtureSet :=
  [nestedSet, longFirstSet, shortFirstSet, everythingSet, insideEverythingSet, deepSet]

/-- The digest that the automata of the sets carry. -/
def setDigest : Digest := Digest.replicate 0xaa

/-- The parts of an automaton of one state, each of which can be spoilt by itself. -/
structure RawBlob where
  magic : Bytes
  version : UInt32
  states : UInt32
  groups : UInt32
  default : Bytes
  base : Bytes
  /-- The byte that the targets consist of, and their number of bytes. -/
  targets : UInt8 × Nat
  /-- The byte that the owners consist of, and their number of bytes. -/
  owners : UInt8 × Nat

/-- Parts that fit together. -/
def wellFormed : RawBlob where
  magic := Packed.magic
  version := Packed.version
  states := 1
  groups := 1
  default := [0xff, 0xff, 0xff, 0xff]
  base := [0, 0, 0, 0]
  targets := (0xff, 1020)
  owners := (0, 1020)

/-- The digest in spoilt automata. -/
def spoiltDigest : Bytes :=
  [0xfe, 0x03, 0x5e, 0xed, 0xf9, 0xa1, 0xea, 0x97, 0x77, 0x78, 0x5f, 0x25, 0x3b, 0x5b, 0x5a, 0x4e,
    0xc3, 0x84, 0xec, 0xe7]

/-- The bytes of the parts. The one state has the value 15. -/
def RawBlob.encode (b : RawBlob) : Bytes :=
  b.magic ++ Bytes.ofUInt32 b.version ++ Bytes.ofUInt32 b.states ++ Bytes.ofUInt32 b.groups
    ++ spoiltDigest ++ b.default ++ b.base ++ List.replicate b.targets.2 b.targets.1
    ++ List.replicate b.owners.2 b.owners.1 ++ Bytes.ofUInt32 15

/-- A magic that differs from the right one in one letter. -/
def otherMagic : Bytes := Bytes.ofString "SARZDFAT"

/-- Automata with a part that is wrong. -/
def spoilt : List RawBlob := [
  { wellFormed with version := 1 },
  { wellFormed with magic := otherMagic },
  { wellFormed with states := 0 },
  { wellFormed with groups := 0 },
  { wellFormed with states := 2 },
  { wellFormed with states := 2, groups := 2 },
  { wellFormed with states := 0, groups := 0 },
  { wellFormed with targets := (0xff, 1019) },
  { wellFormed with owners := (0, 1019) },
  { wellFormed with targets := (0xff, 1019), owners := (0, 1019) },
  { wellFormed with owners := (0, 1021) },
  { wellFormed with targets := (0xff, 1021), owners := (0, 1021) },
  { wellFormed with targets := (0xff, 1021) },
  { wellFormed with owners := (0x0f, 1020) },
  { wellFormed with targets := (0x0f, 1020) },
  { wellFormed with base := [0, 0xf0, 0, 0] },
  { wellFormed with default := [0x0f, 0xff, 0xff, 0xff] },
  { wellFormed with magic := otherMagic, base := [0, 0, 0, 0xf0] },
  { wellFormed with magic := otherMagic, default := [0xff, 0xff, 0xff, 0x0f] }]

/-- Byte strings that are no automata. -/
def malformed : List Bytes := Bytes.ofString "idjsdg" :: spoilt.map RawBlob.encode

end PathPolicy.MatcherTest
