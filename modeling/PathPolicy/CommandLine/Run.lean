import PathPolicy.CommandLine.Arguments
import PathPolicy.CommandLine.Plain
import PathPolicy.CommandLine.Report
import PathPolicy.Loader.Attribute
import PathPolicy.Loader.RoundTrip
import PathPolicy.MatcherTest.Run

/-!
# Running commands

A command prints lines when it is done, and says whether everything went well. What happens on the
way is reported as events; `Settings.level` says which of them are shown.
-/

namespace PathPolicy.CommandLine

/-- What a command leaves behind. -/
structure Result where
  /-- Whether everything went well. -/
  success : Bool
  /-- The lines that it prints. -/
  lines : List String
  deriving Repr, DecidableEq

namespace Settings

/-- The least important events that are shown. -/
def level (s : Settings) : Level :=
  if s.quiet then .error
  else if s.verbosity = 0 then .warn
  else if s.verbosity = 1 then .info
  else .debug

/-- Whether an event is shown. -/
def shows (s : Settings) (e : Event) : Bool := e.level.rank ≤ s.level.rank

def loader (s : Settings) : Loader where
  configDirectory := s.configDirectory
  kernel := Kernel.Interface.ofMount s.mount
  images := .files
  strictness :=
    match s.command with
    | .load _ true => .lenient
    | _ => .strict

variable {m : Type → Type} [Monad m] [Host m] (s : Settings)

/-- Does what the command says. -/
def perform : Task m Result := do
  let l := s.loader
  match s.command with
  | .load force _ =>
    let report ← l.load force
    return ⟨report.failed.isEmpty, report.lines⟩
  | .startup =>
    let report ← l.startup
    return ⟨report.failed.isEmpty, report.lines⟩
  | .enable submodule =>
    l.enable submodule
    return ⟨true, []⟩
  | .disable submodule =>
    l.disable submodule
    return ⟨true, []⟩
  | .status json =>
    let status ← l.status (0 < s.verbosity)
    return ⟨true, if json then [status.json.render 0] else status.lines⟩
  | .lock =>
    l.lock
    return ⟨true, []⟩
  | .configToFile output =>
    let paths ← l.configToFile output
    return ⟨true, paths⟩
  | .test matcher =>
    l.selfTest
    if matcher then MatcherTest.run l.kernel
    return ⟨true, ["all tests passed"]⟩
  | .encodeAttribute submodule columns file =>
    let value ← l.encodeAttribute submodule columns file
    return ⟨true, [toString value.toNat]⟩
  | .decodeAttribute attributeName value =>
    let text ← Task.ofExcept (Loader.decodeAttribute attributeName value)
    return ⟨true, [text]⟩

/-- Runs the command. A failure is reported as an event. -/
def run : m Result := do
  match ← (s.perform : Task m Result).run with
  | .ok result => return result
  | .error e =>
    Host.report (.aborted e)
    return ⟨false, []⟩

end Settings

/-- How an event is shown. -/
def eventLine (e : Event) : String := plain (programName ++ ": " ++ e.message ++ "\n")

/-- The output of lines. -/
def output (lines : List String) : String := String.join (lines.map (· ++ "\n"))

end PathPolicy.CommandLine
