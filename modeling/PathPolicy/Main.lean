import PathPolicy.CommandLine.Run

/-!
# The program

Runs a command on the files of the system. The exit code is 0 if everything went well, 1 if not, and
2 if the arguments make no sense. What a command prints goes to the standard output, and events go
to the standard error.
-/

namespace PathPolicy.Console

/-- The number of an error. Some accesses give it with its sign changed. -/
def errorNumber (code : UInt32) : Nat :=
  if code.toNat < 0x80000000 then code.toNat else 0x100000000 - code.toNat

/-- The fault of an access with the number that the system gives it. -/
def faultOfCode (code : UInt32) (details : String) : Files.Fault :=
  match errorNumber code with
  | 2 => .notFound
  | 17 => .alreadyExists
  | 20 => .notDirectory
  | 21 => .isDirectory
  | 36 => .nameTooLong
  | n => .other s!"{details} (os error {n})"

def faultOf : IO.Error → Files.Fault
  | .alreadyExists _ code details | .interrupted _ code details
  | .noFileOrDirectory _ code details | .invalidArgument _ code details
  | .permissionDenied _ code details | .resourceExhausted _ code details
  | .inappropriateType _ code details | .noSuchThing _ code details
  | .otherError code details | .resourceBusy code details | .resourceVanished code details
  | .unsupportedOperation code details | .hardwareFault code details
  | .unsatisfiedConstraints code details | .illegalOperation code details
  | .protocolError code details | .timeExpired code details => faultOfCode code details
  | .unexpectedEof => .other "unexpected end of file"
  | .userError message => .other message

def access {α : Type} (action : IO α) : IO (Except Files.Fault α) := do
  match ← action.toBaseIO with
  | .ok a => return .ok a
  | .error e => return .error (faultOf e)

/-- What a path leads to, if it leads anywhere. -/
def kindOf (path : Files.Path) : IO (Option IO.FS.FileType) := do
  let action := do return (← (← IO.FS.realPath path).metadata).type
  return (← access action).toOption

/-- Programs on the files of the system, for given settings. -/
abbrev Program := ReaderT CommandLine.Settings IO

instance : Host Program where
  readFile path := access do return (← IO.FS.readBinFile path).toList
  writeFile path content := access (IO.FS.writeBinFile path (ByteArray.mk content.toArray))
  createDirectories path := access (IO.FS.createDirAll path)
  listDirectory path := access do
    return (← (← IO.FS.realPath path).readDir).toList.map (·.fileName)
  isDirectory path := do return (← kindOf path) == some .dir
  isFile path := do return (← kindOf path) == some .file
  report event := do
    if (← read).shows event then IO.eprint (CommandLine.eventLine event)

def print (lines : List String) : IO Unit := IO.print (CommandLine.output lines)

def run (arguments : List String) : IO UInt32 := do
  match CommandLine.parse arguments with
  | .error .misuse =>
    IO.eprint (CommandLine.output CommandLine.programHelp)
    return 2
  | .error .version =>
    print [CommandLine.versionLine]
    return 0
  | .error (.help lines) =>
    print lines
    return 0
  | .ok settings =>
    let result ← (settings.run : Program CommandLine.Result).run settings
    print result.lines
    return if result.success then 0 else 1

end PathPolicy.Console

/-- Runs the program with its arguments. -/
def main (arguments : List String) : IO UInt32 := PathPolicy.Console.run arguments
