import PathPolicy.Config.Directory
import PathPolicy.Loader.Artifact

/-!
# Options, operands and commands

What may stand on the command line. Both the reader of arguments and the help go by these tables.
-/

namespace PathPolicy.CommandLine

/-- What an option takes. -/
inductive Kind where
  /-- Nothing; it is given once at most. -/
  | once
  /-- Nothing; it may be given again. -/
  | count
  /-- A path, which is not empty; it is given once at most. -/
  | path
  /-- Nothing; it asks for help. -/
  | help
  /-- Nothing; it asks for the version. -/
  | version
  deriving Repr, DecidableEq

/-- An option. -/
structure OptionSpec where
  long : String
  short : Option Char
  kind : Kind
  about : String
  /-- What it is if it is not given. -/
  default : Option String
  /-- Its place in the help. -/
  rank : Nat
  deriving Repr, DecidableEq

/-- An operand. -/
structure OperandSpec where
  name : String
  required : Bool
  /-- It may be given again. -/
  repeated : Bool
  about : String
  deriving Repr, DecidableEq

/-- A command. -/
structure CommandSpec where
  name : String
  about : String
  operands : List OperandSpec
  options : List OptionSpec
  deriving Repr, DecidableEq

def helpOption : OptionSpec := ⟨"help", some 'h', .help, "Print help", none, 4⟩

def versionOption : OptionSpec := ⟨"version", some 'V', .version, "Print version", none, 5⟩

/-- The options that may stand before and after the name of a command. -/
def commonOptions : List OptionSpec :=
  [⟨"verbose", some 'v', .count, "More output (repeat for debug logs)", none, 0⟩,
    ⟨"quiet", some 'q', .once, "Only print errors", none, 1⟩,
    ⟨"config-dir", some 'c', .path, "Directory holding main.toml and the rule files",
      some Config.defaultDirectory, 2⟩,
    ⟨"securityfs", some 'S', .path, "Where securityfs is mounted", some Kernel.defaultMount, 3⟩,
    helpOption]

/-- The options that may stand before the name of a command. -/
def programOptions : List OptionSpec := commonOptions ++ [versionOption]

/-- An operand that is given once. -/
def operand (name : String) : OperandSpec := ⟨name, true, false, ""⟩

/-- The operand that may name a submodule. -/
def submoduleOperand : OperandSpec := ⟨"SUBMODULE", false, false, ""⟩

/-- A command with options of its own. -/
def command (name about : String) (operands : List OperandSpec) (own : List OptionSpec) :
    CommandSpec :=
  ⟨name, about, operands, own ++ commonOptions⟩

def commands : List CommandSpec :=
  [command "load" "Compile the configuration and load it into the kernel" []
      [⟨"force", some 'f', .once, "Load even if the kernel reports the same configuration hash",
          none, 0⟩,
        ⟨"lenient", none, .once, "Skip invalid rules instead of failing the submodule", none, 1⟩],
    command "startup" "Load the configuration at boot" [] [],
    command "enable" "Enable S.A.R.A. or one of its submodules" [submoduleOperand] [],
    command "disable" "Disable S.A.R.A. or one of its submodules" [submoduleOperand] [],
    command "status" "Show what the kernel has loaded" []
      [⟨"json", none, .once, "Output the status as JSON", none, 0⟩],
    command "lock" "Lock the configuration until the next reboot" [] [],
    command "config-to-file" "Write the compiled configuration to files" []
      [⟨"output", some 'o', .path, "", some Loader.defaultOutput, 0⟩],
    command "test" "Reload what the kernel has and check it round-trips" []
      [⟨"dfa", none, .once, "Also run the kernel's DFA matcher against the built-in fixtures",
          none, 0⟩],
    command "xattr-encode" "Encode flags as the value of a submodule's extended attribute"
      [operand "SUBMODULE", ⟨"FLAGS", true, true, ""⟩]
      [⟨"file", none, .path, "Check the flags against this executable", none, 0⟩],
    command "xattr-decode" "Render the value of an extended attribute"
      [operand "XATTR", operand "VALUE"] []]

/-- The command that prints help. It takes names only. -/
def helpCommand : CommandSpec :=
  ⟨"help", "Print this message or the help of the given subcommand(s)",
    [⟨"COMMAND", false, true, "Print help for the subcommand(s)"⟩], []⟩

/-- The most operands that a command takes, if there is a bound. -/
def CommandSpec.bound (c : CommandSpec) : Option Nat :=
  if c.operands.any (·.repeated) then none else some c.operands.length

end PathPolicy.CommandLine
