import PathPolicy.Protection.Fault
import PathPolicy.Protection.Token
import PathPolicy.Protection.Trampoline

/-!
# The protection columns of a rule

The columns of a rule are one list of words between commas. Blanks and the case of letters do not
matter, and neither does the number of commas between two words. `parse` gives the protection word
of the columns and `render` the columns of a protection word; what `render` writes, `parse` reads
back.
-/

namespace PathPolicy.Protection

namespace Column

/-- The columns as one text, without blanks and in upper case. -/
def normalize (columns : List String) : List Char :=
  ((columns.flatMap String.toList).filter fun c => !Text.isBlank c).flatMap Text.upperChar

/-- Commas that follow each other become one. -/
def collapse : List Char → List Char
  | [] => []
  | [c] => [c]
  | c :: d :: rest => if c = ',' ∧ d = ',' then collapse (d :: rest) else c :: collapse (d :: rest)

/-- The parts between commas. -/
def parts : List Char → List (List Char)
  | [] => [[]]
  | c :: rest =>
    if c = ',' then [] :: parts rest
    else
      match parts rest with
      | [] => [[c]]
      | part :: more => (c :: part) :: more

/-- A list of words as a set, in the order of all words. -/
def setOf (tokens : List Token) : List Token := Token.all.filter (tokens.contains ·)

/-- The set of words in the columns. -/
def tokenize (columns : List String) : Except Fault (List Token) :=
  let names := (parts (collapse (normalize columns))).map String.ofList
  match names.mapM Token.ofName? with
  | some tokens => .ok (setOf tokens)
  | none => .error .invalidFlag

/-- `none` stands alone or next to `transfer`. -/
def noneAllowed (tokens : List Token) : Bool :=
  !tokens.contains .none || tokens.length == 1
    || (tokens.length == 2 && tokens.contains .transfer)

/-- What a set of words that asks for emulated trampolines by `variant`, and holds the words `rest`
besides, means where there are none. -/
def degrade (fallback : Fallback) (variant : Token) (rest : List Token) : List Token :=
  let kept := rest.filter fun t => t == .transfer || t == .none
  match variant with
  | .emutrampOrNone => kept
  | .emutrampOrMprotect => .mprotect :: rest
  | _ => if fallback = .none then kept else rest

/-- Replaces a word that asks for emulated trampolines by what the kernel has. -/
def resolve (support : Support) (tokens : List Token) : Except Fault (List Token) :=
  match tokens.filter Token.isEmutramp with
  | [] => .ok tokens
  | [variant] =>
    let rest := tokens.filter (· ≠ variant)
    if support.available then .ok (.emutramp :: rest)
    else .ok (degrade support.fallback variant rest)
  | _ => .error .conflictingEmutramp

/-- The bits of all words. -/
def wordOf (tokens : List Token) : Flags := tokens.foldl (fun f t => f ∪ t.bits) Flags.none

end Column

namespace Flags

/-- The protection word of the columns of a rule. -/
def parse (columns : List String) (support : Support) : Except Fault Flags := do
  let tokens ← Column.tokenize columns
  if !Column.noneAllowed tokens then throw .invalidFlags
  let resolved ← Column.resolve support tokens
  let flags := Column.wordOf resolved
  if flags.isValid then return flags else throw .invalidFlags

/-- The words among `tokens` whose bit is set. -/
def present (f : Flags) (tokens : List (Flags × Token)) : List Token :=
  tokens.filterMap fun (bit, token) => if f.contains bit then some token else Option.none

/-- The words that restrict memory. -/
def restrictionTokens (f : Flags) : List Token :=
  if f.contains full then [.full]
  else
    (if f.contains mprotect then [.mprotect]
      else f.present [(heap, .heap), (stack, .stack), (other, .other)])
    ++ f.present [(wxorx, .wxorx), (mmap, .mmap)]

def tokens (f : Flags) : List Token :=
  if f = none then [.none]
  else if f = transfer then [.none, .transfer]
  else
    f.restrictionTokens
      ++ f.present [(emutramp, .emutramp), (transfer, .transfer), (verbose, .verbose),
        (complain, .complain)]

def render (f : Flags) : Except Fault String :=
  if f.isValid then .ok (", ".intercalate (f.tokens.map Token.name)) else .error .invalidFlags

end Flags

end PathPolicy.Protection
