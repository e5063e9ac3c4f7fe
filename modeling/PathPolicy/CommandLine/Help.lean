import PathPolicy.CommandLine.Grammar

/-!
# Help

What the program says about its use, and about that of a command.
-/

namespace PathPolicy.CommandLine

def programName : String := "saractl"

/-- What the program says about its version. -/
def versionLine : String := programName ++ " 0.1.0"

namespace OptionSpec

/-- How the value of an option is named. -/
def valueName (o : OptionSpec) : String :=
  String.ofList (o.long.toList.map fun c => if c = '-' then '_' else c.toUpper)

/-- An option by its long name, with what it takes. -/
def usage (o : OptionSpec) : String :=
  "--" ++ o.long ++
    match o.kind with
    | .path => " <" ++ o.valueName ++ ">"
    | .count => "..."
    | _ => ""

/-- An option by all its names. -/
def head (o : OptionSpec) : String :=
  (match o.short with
    | some letter => "-" ++ String.singleton letter ++ ", "
    | none => "    ") ++ o.usage

def description (o : OptionSpec) : String :=
  let default := (o.default.map fun value => "[default: " ++ value ++ "]").getD ""
  o.about ++ (if o.about.isEmpty ∨ default.isEmpty then "" else " ") ++ default

/-- What decides between options of one rank: the letter, a small one first, or else the name. -/
def key (o : OptionSpec) : List Char :=
  match o.short with
  | some letter => [letter.toLower, if letter.isLower then '0' else '1']
  | none => o.long.toList

/-- Whether an option stands before another. -/
def precedes (a b : OptionSpec) : Bool :=
  a.rank < b.rank || (a.rank == b.rank && !decide (b.key < a.key))

end OptionSpec

/-- How an operand is written. -/
def OperandSpec.head (o : OperandSpec) : String :=
  (if o.required then "<" ++ o.name ++ ">" else "[" ++ o.name ++ "]")
    ++ (if o.repeated then "..." else "")

/-- Lines of a table with two columns. -/
def table (rows : List (String × String)) : List String :=
  let width := (rows.map fun row => row.1.length).foldl max 0
  rows.map fun (head, text) => "  " ++ head.pushn ' ' (width - head.length) ++ "  " ++ text

/-- The part of the help with the given title. -/
def part (title : String) (rows : List (String × String)) : List String :=
  if rows.isEmpty then [] else ["", title ++ ":"] ++ table rows

/-- The part about options. -/
def optionsPart (options : List OptionSpec) : List String :=
  part "Options"
    ((options.mergeSort OptionSpec.precedes).map fun o => (o.head, o.description))

/-- The lines about a command. -/
def CommandSpec.help (c : CommandSpec) : List String :=
  let usage := ["Usage:", programName, c.name]
    ++ (if c.options.isEmpty then [] else ["[OPTIONS]"]) ++ c.operands.map OperandSpec.head
  [c.about, "", " ".intercalate usage]
    ++ part "Arguments" (c.operands.map fun o => (o.head, o.about))
    ++ optionsPart c.options

/-- The lines about the program. -/
def programHelp : List String :=
  ["Configure the S.A.R.A. LSM", "", "Usage: " ++ programName ++ " [OPTIONS] <COMMAND>"]
    ++ part "Commands" ((commands ++ [helpCommand]).map fun c => (c.name, c.about))
    ++ optionsPart programOptions

end PathPolicy.CommandLine
