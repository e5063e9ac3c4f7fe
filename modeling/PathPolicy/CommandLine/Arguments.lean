import PathPolicy.CommandLine.Help

/-!
# Arguments

The arguments are options, a command, and options and operands of the command. Some options may
stand before the command or after it. `Grammar` says what is known before and after the command, and
`scan` cuts arguments into options and operands by it. Arguments are read from left to right: the
first one that asks for help or that is wrong decides. But a value in an argument of its own is
looked at only when another option or an operand follows; the name of a command is neither, so what
is wrong after it comes first.
-/

namespace PathPolicy.CommandLine

/-- What operands may stand at some point. -/
inductive Operands where
  /-- The name of a command: it ends the level. -/
  | command
  /-- Any; there may be a bound on their number. -/
  | upTo (bound : Option Nat)
  deriving Repr, DecidableEq

/-- What arguments may stand at some point. -/
structure Grammar where
  options : List OptionSpec
  operands : Operands
  /-- The lines that give help at this point. -/
  help : List String

/-- What was read. -/
structure Found where
  /-- The options with what they were given, last first. -/
  options : List (String × String)
  /-- The operands, last first. -/
  operands : List String
  deriving Repr, DecidableEq

/-- Why reading stopped. -/
inductive Stop where
  /-- Help was asked for: the lines that give it. -/
  | help (lines : List String)
  /-- The version was asked for. -/
  | version
  /-- The arguments make no sense. -/
  | misuse
  deriving Repr, DecidableEq

namespace Found

def empty : Found := ⟨[], []⟩

def has (f : Found) (long : String) : Bool := f.options.any (·.1 = long)

def count (f : Found) (long : String) : Nat := f.options.countP (·.1 = long)

/-- What an option was given. -/
def value? (f : Found) (long : String) : Option String := f.options.lookup long

/-- Takes an option that was given `value`. -/
def add (f : Found) (o : OptionSpec) (value : String) : Except Stop Found :=
  if o.kind ≠ .count ∧ f.has o.long then .error .misuse
  else if o.kind = .path ∧ value.isEmpty then .error .misuse
  else .ok { f with options := (o.long, value) :: f.options }

end Found

/-- What is still to be done about the last option. -/
inductive Pending where
  | nothing
  /-- Its value is the next argument. -/
  | awaited (option : OptionSpec)
  /-- Its value has come, and has not been looked at. -/
  | given (option : OptionSpec) (value : String)
  deriving Repr, DecidableEq

/-- What the arguments give so far. -/
structure Progress where
  found : Found
  pending : Pending

namespace Progress

/-- Nothing was read. -/
def start : Progress := ⟨Found.empty, .nothing⟩

/-- Does what is still to be done. -/
def settle (p : Progress) : Except Stop Found :=
  match p.pending with
  | .nothing => .ok p.found
  | .awaited _ => .error .misuse
  | .given o value => p.found.add o value

end Progress

namespace Grammar

/-- The option with the given long name. -/
def long? (g : Grammar) (name : String) : Option OptionSpec := g.options.find? (·.long = name)

/-- The option with the given letter. -/
def short? (g : Grammar) (letter : Char) : Option OptionSpec :=
  g.options.find? (·.short = some letter)

/-- Takes an option that takes nothing. -/
def flag (g : Grammar) (f : Found) (o : OptionSpec) : Except Stop Found :=
  match o.kind with
  | .help => .error (.help g.help)
  | .version => .error .version
  | _ => f.add o ""

/-- Reads an argument that starts with two dashes: a name, and maybe a value after an equals
sign. -/
def readLong (g : Grammar) (f : Found) (text : List Char) : Except Stop Progress := do
  let name := text.takeWhile (· ≠ '=')
  let value := text.drop name.length
  let some o := g.long? (String.ofList name) | throw .misuse
  match o.kind, value with
  | .path, [] => return ⟨f, .awaited o⟩
  | .path, _ :: value => return ⟨← f.add o (String.ofList value), .nothing⟩
  | _, [] => return ⟨← g.flag f o, .nothing⟩
  | _, _ :: _ => throw .misuse

/-- Reads the letters after one dash. The value of an option may follow its letter at once. -/
def readShort (g : Grammar) (f : Found) : List Char → Except Stop Progress
  | [] => .ok ⟨f, .nothing⟩
  | letter :: rest => do
    let some o := g.short? letter | throw .misuse
    if o.kind = .path then
      match rest with
      | [] => return ⟨f, .awaited o⟩
      | '=' :: value => return ⟨← f.add o (String.ofList value), .nothing⟩
      | value => return ⟨← f.add o (String.ofList value), .nothing⟩
    else readShort g (← g.flag f o) rest

/-- Whether another operand may follow. -/
def admits (g : Grammar) (f : Found) : Bool :=
  match g.operands with
  | .command | .upTo none => true
  | .upTo (some bound) => f.operands.length < bound

/-- Reads arguments up to the command, or all of them: what they give, and what is left. -/
def scan (g : Grammar) (p : Progress) (onlyOperands : Bool) :
    List String → Except Stop (Progress × List String)
  | [] => .ok (p, [])
  | arg :: rest => do
    let operand : Except Stop (Progress × List String) :=
      if g.operands = .command then
        if onlyOperands then .error .misuse else .ok (p, arg :: rest)
      else do
        let f ← p.settle
        if g.admits f then
          scan g ⟨{ f with operands := arg :: f.operands }, .nothing⟩ onlyOperands rest
        else .error .misuse
    if onlyOperands then operand
    else
      match p.pending, arg.toList with
      | .awaited _, '-' :: _ :: _ => throw .misuse
      | .awaited o, _ => scan g { p with pending := .given o arg } false rest
      | _, ['-', '-'] => scan g p true rest
      | _, '-' :: '-' :: text => scan g (← g.readLong (← p.settle) text) false rest
      | _, '-' :: c :: cs => scan g (← g.readShort (← p.settle) (c :: cs)) false rest
      | _, _ => operand

end Grammar

/-- What is to be done. -/
inductive Command where
  | load (force lenient : Bool)
  | startup
  | enable (submodule : Option String)
  | disable (submodule : Option String)
  | status (json : Bool)
  | lock
  | configToFile (output : Files.Path)
  | test (matcher : Bool)
  | encodeAttribute (submodule : String) (columns : List String) (file : Option Files.Path)
  | decodeAttribute (attributeName value : String)
  deriving Repr, DecidableEq

/-- A command, and what holds for all commands. -/
structure Settings where
  /-- How much more is to be reported. -/
  verbosity : Nat
  /-- Only errors are to be reported. -/
  quiet : Bool
  configDirectory : Files.Path
  mount : Files.Path
  command : Command
  deriving Repr, DecidableEq

/-- The command of a name, with its options and operands. -/
def commandOf? (name : String) (f : Found) : Option Command :=
  match name, f.operands.reverse with
  | "load", [] => some (.load (f.has "force") (f.has "lenient"))
  | "startup", [] => some .startup
  | "enable", [] => some (.enable none)
  | "enable", [submodule] => some (.enable (some submodule))
  | "disable", [] => some (.disable none)
  | "disable", [submodule] => some (.disable (some submodule))
  | "status", [] => some (.status (f.has "json"))
  | "lock", [] => some .lock
  | "config-to-file", [] => some (.configToFile ((f.value? "output").getD Loader.defaultOutput))
  | "test", [] => some (.test (f.has "dfa"))
  | "xattr-encode", submodule :: column :: columns =>
    some (.encodeAttribute submodule (column :: columns) (f.value? "file"))
  | "xattr-decode", [attributeName, value] => some (.decodeAttribute attributeName value)
  | _, _ => none

/-- The settings that options before and after a command give. What stands after it counts. -/
def settingsOf (before after : Found) (command : Command) : Settings where
  verbosity := if after.has "verbose" then after.count "verbose" else before.count "verbose"
  quiet := before.has "quiet" || after.has "quiet"
  configDirectory :=
    ((after.value? "config-dir").or (before.value? "config-dir")).getD Config.defaultDirectory
  mount := ((after.value? "securityfs").or (before.value? "securityfs")).getD Kernel.defaultMount
  command := command

/-- Options that contradict each other at one place. -/
def contradicts (f : Found) : Bool := f.has "quiet" && f.has "verbose"

/-- What may stand before the name of a command. -/
def programGrammar : Grammar := ⟨programOptions, .command, programHelp⟩

/-- What may stand after the name of a command. -/
def CommandSpec.grammar (c : CommandSpec) : Grammar := ⟨c.options, .upTo c.bound, c.help⟩

def commandSpec? (name : String) : Option CommandSpec := commands.find? (·.name = name)

/-- The help about what the given names lead to. Only the program has commands. -/
def helpAbout : List String → Except Stop (List String)
  | [] => .ok programHelp
  | [name] =>
    if name = helpCommand.name then .ok helpCommand.help
    else
      match commandSpec? name with
      | some c => .ok c.help
      | none => .error .misuse
  | _ => .error .misuse

/-- The settings that arguments give. -/
def parse (args : List String) : Except Stop Settings := do
  let (before, rest) ← programGrammar.scan Progress.start false args
  match rest with
  | [] => throw .misuse
  | name :: rest =>
    if name = helpCommand.name then throw (.help (← helpAbout rest))
    let some spec := commandSpec? name | throw .misuse
    let (after, _) ← spec.grammar.scan Progress.start false rest
    let after ← after.settle
    let before ← before.settle
    let some command := commandOf? name after | throw .misuse
    if contradicts after || contradicts before then throw .misuse
    return settingsOf before after command

end PathPolicy.CommandLine
