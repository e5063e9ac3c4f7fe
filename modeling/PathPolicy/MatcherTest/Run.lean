import PathPolicy.Automaton.Compile
import PathPolicy.Kernel.Interface
import PathPolicy.MatcherTest.Fixture

/-!
# Testing the kernel's matcher

The kernel has a directory for tests of its matcher: an automaton is written to `.load`, a path to
`test`, and `result` then holds the value of the path in decimal, all ones if there is none. Every
path of every set has to give what the set says, and everything that is no automaton has to be
refused.
-/

namespace PathPolicy.MatcherTest

variable {m : Type → Type} [Monad m] [Host m] (k : Kernel.Interface)

/-- Tests one path: set number `index` says that its value is `expected`. -/
def runProbe (index : Nat) (path : Bytes) (expected : Value) : Task m Unit := do
  Task.writeBytes (k.path Kernel.matcherDirectory Kernel.questionFile) path
  let text ← k.readFlag Kernel.matcherDirectory Kernel.answerFile
  match Text.Numeral.parse 10 text with
  | .error fault => throw (.badResult text fault)
  | .ok found => if found ≠ expected then throw (.wrongResult index path found expected)

def loadSet (index : Nat) (blob : Bytes) : Task m Unit :=
  ExceptT.mk do
    match ← (k.load Kernel.matcherDirectory blob : Task m Unit).run with
    | .ok () => return .ok ()
    | .error e => return .error (.loadingSet index e)

/-- Tests all paths of a set. -/
def runSet (index : Nat) (set : FixtureSet) : Task m Unit := do
  match table set with
  | .error fault => throw (.rule fault)
  | .ok t =>
    match t.compile? with
    | none => throw .tooManyStates
    | some compiled =>
      Task.report (.packed t.size compiled.tables.states compiled.tables.groups)
      loadSet k index (compiled.tables.encode setDigest)
      set.forM fun r => r.probes.forM fun p =>
        runProbe k index p.path (if p.hits then r.value else reservedValue)
      Task.report (.setPassed index)

/-- Checks that something that is no automaton is refused. -/
def runMalformed (index : Nat) (blob : Bytes) : Task m Unit := do
  match ← Task.attempt (k.load Kernel.matcherDirectory blob) with
  | some () => throw (.acceptedMalformed index)
  | none => return

def run : Task m Unit := do
  if !(← ExceptT.lift (k.has Kernel.matcherDirectory)) then
    throw (.noMatcherTest (k.directory Kernel.matcherDirectory))
  sets.zipIdx.forM fun (set, index) => runSet k index set
  malformed.zipIdx.forM fun (blob, index) => runMalformed k index blob

end PathPolicy.MatcherTest
