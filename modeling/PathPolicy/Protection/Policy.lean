import PathPolicy.Config.Line
import PathPolicy.Context
import PathPolicy.Event

/-!
# Policies of protection rules

A policy is made of lines in their order. A line whose first word was the first word of an earlier
rule is accepted without a look at the rest of it; every other line has to be a rule. The text of
the policy has every accepted line, its binary form one record for each rule.

Reading the binary form back gives one line for each record.
-/

namespace PathPolicy.Protection

/-- The name of the submodule, also of its directory. -/
def name : String := "wxprot"

/-- The name of the submodule in messages. -/
def longName : String := "WX protection"

/-- The feature that says whether the kernel emulates trampolines. -/
def emutrampFeature : String := "emutramp_available"

/-- The reader of rule lines. -/
def Reader.ofContext (ctx : Context) : Reader where
  support :=
    { available := ctx.features.enabled name emutrampFeature
      fallback := ctx.options.protection.emutrampMissingDefault }
  inspector := ctx.inspector
  absolutePaths := true

/-- What was made of the lines so far; every list has its last element first. -/
structure Draft where
  accepted : List Config.Line
  rules : List Rule
  /-- The first words of the lines of the rules. -/
  seen : List String
  events : List Event

namespace Draft

def empty : Draft := ⟨[], [], [], []⟩

/-- Whether a line has the first word of a rule. -/
def repeats (d : Draft) (line : Config.Line) : Bool :=
  match line.tokens.head? with
  | some word => d.seen.contains word
  | none => false

/-- Reports a look at an image that did not work. -/
def look (d : Draft) (r : Reader) (line : Config.Line) : Draft :=
  match r.consulted? line.tokens with
  | some path =>
    { d with events := (Event.ofInspection? path (r.inspector path)).toList ++ d.events }
  | none => d

def accept (d : Draft) (line : Config.Line) : Draft := { d with accepted := line :: d.accepted }

/-- Accepts a line that is a rule. -/
def acceptRule (d : Draft) (line : Config.Line) (rule : Rule) : Draft :=
  { d.accept line with
    rules := rule :: d.rules
    seen := line.tokens.head?.toList ++ d.seen }

/-- Leaves out a line that is no rule. -/
def skip (d : Draft) (e : ConfigError) : Draft :=
  { d with events := .skippedLine e :: d.events }

end Draft

/-- The error of a line that is no rule. -/
def lineError (location : String) (fault : Fault) : ConfigError :=
  { longName, location, cause := .line fault }

/-- Takes lines into a draft: the draft, and the error of the line that ended it, if one did. -/
def collect (r : Reader) (strictness : Strictness) (d : Draft) :
    List Config.Line → Draft × Option ConfigError
  | [] => (d, none)
  | line :: rest =>
    if d.repeats line then collect r strictness (d.accept line) rest
    else
      let d := d.look r line
      match r.read line.tokens with
      | .ok rule => collect r strictness (d.acceptRule line rule) rest
      | .error fault =>
        let e := lineError line.location fault
        match strictness with
        | .strict => (d, some e)
        | .lenient => collect r strictness (d.skip e) rest

/-- A policy or the reason why there is none, and what happened on the way. -/
structure Outcome where
  result : Except ConfigError Policy
  events : List Event

/-- The policy of a draft. -/
def Draft.finish (d : Draft) : Outcome :=
  let events := d.events.reverse
    ++ (if d.rules.length < d.accepted.length then [.simplified longName] else [])
  let text := Config.textOf d.accepted.reverse
  let digest := Digest.ofText text
  match Blob.encode d.rules.reverse digest with
  | .error fault => ⟨.error { longName, location := "", cause := .records fault }, events⟩
  | .ok binary =>
    ⟨.ok { binary, digest, text },
      events ++ [.compiled name d.rules.length binary.length digest]⟩

def compile (lines : List Config.Line) (ctx : Context) : Outcome :=
  match collect (Reader.ofContext ctx) ctx.strictness Draft.empty lines with
  | (d, none) => d.finish
  | (d, some e) => ⟨.error e, d.events.reverse⟩

def lineOf (r : Rule) : Except BinaryError Config.Line :=
  match r.flags.render with
  | .ok column => .ok ⟨"", [r.written, column]⟩
  | .error _ => .error { longName, cause := .records (.invalidFlags r.flags) }

/-- The lines of the binary form of a policy. -/
def decompile (binary : Bytes) : Except BinaryError (List Config.Line) :=
  match Blob.decode binary with
  | .ok (_, rules) => rules.mapM lineOf
  | .error fault => .error { longName, cause := .records fault }

/-- A value of the extended attribute, and what happened on the way. The first word of the line
stands for the program. -/
def encodeValue (tokens : List String) (ctx : Context) :
    Except ConfigError UInt32 × List Event :=
  let r := { Reader.ofContext ctx with absolutePaths := false }
  let events := (Draft.empty.look r ⟨"", tokens⟩).events
  match r.read tokens with
  | .ok rule => (.ok rule.flags.bits.toUInt32, events)
  | .error fault => (.error (lineError (tokens.headD "xattr") fault), events)

/-- The protection word of a number, if it is one. -/
def wordOfValue? (value : UInt32) : Option Flags :=
  if value.toNat < 0x10000 then some ⟨value.toUInt16⟩ else none

/-- Whether a number is a value of the extended attribute. -/
def isValue (value : UInt32) : Bool := (wordOfValue? value).any Flags.isValid

def renderValue (value : UInt32) : Except BinaryError String :=
  match wordOfValue? value with
  | none => .error { longName, cause := .line .invalidFlags }
  | some flags =>
    match flags.render with
    | .ok text => .ok text
    | .error fault => .error { longName, cause := .line fault }

end PathPolicy.Protection
