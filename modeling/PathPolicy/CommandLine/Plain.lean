/-!
# Text without control sequences

Messages may hold text that somebody else chose. Before they are shown, everything that a terminal
would take for a command is left out: control sequences, titles, strings for devices, and control
characters other than white space. Characters beyond ASCII are shown wherever they are not part of a
sequence.
-/

namespace PathPolicy.CommandLine

/-- What a terminal is in the middle of. -/
inductive Mode where
  /-- Plain text. -/
  | ground
  /-- A sequence, after the escape character. -/
  | escape
  /-- A sequence of which only the last character is missing. -/
  | escapeMarks
  /-- A control sequence. -/
  | control
  /-- A string for a device: its first character, its numbers, its marks. -/
  | device | deviceNumbers | deviceMarks
  /-- The text of a string that is not shown. -/
  | hidden
  /-- The text of a title or the like. -/
  | title
  deriving Repr, DecidableEq

namespace Mode

/-- What a terminal is in the middle of after an ASCII character with the code `b`. -/
def next (m : Mode) (b : Nat) : Mode :=
  if b = 0x18 ∨ b = 0x1a then .ground
  else if b = 0x1b then .escape
  else
    let isMark := 0x20 ≤ b ∧ b ≤ 0x2f
    let isNumber := 0x30 ≤ b ∧ b ≤ 0x3b
    let isPrivate := 0x3c ≤ b ∧ b ≤ 0x3f
    let isFinal := 0x40 ≤ b ∧ b ≤ 0x7e
    match m with
    | .ground => .ground
    | .escape =>
      if isMark then .escapeMarks
      else if b = 0x5b then .control
      else if b = 0x5d then .title
      else if b = 0x50 then .device
      else if b = 0x58 ∨ b = 0x5e ∨ b = 0x5f then .hidden
      else if isNumber ∨ isPrivate ∨ isFinal then .ground
      else .escape
    | .escapeMarks => if isNumber ∨ isPrivate ∨ isFinal then .ground else .escapeMarks
    | .control => if isFinal then .ground else .control
    | .device =>
      if isMark then .deviceMarks
      else if isNumber ∨ isPrivate then .deviceNumbers
      else if isFinal then .hidden
      else .device
    | .deviceNumbers =>
      if isMark then .deviceMarks
      else if isPrivate ∨ isFinal then .hidden
      else .deviceNumbers
    | .deviceMarks => if isNumber ∨ isPrivate ∨ isFinal then .hidden else .deviceMarks
    | .hidden => .hidden
    | .title => if b = 0x07 then .ground else .title

/-- Whether an ASCII character is shown: printing characters in plain text, and white space there
and within sequences that are not strings. -/
def shows (m : Mode) (b : Nat) : Bool :=
  let isSpace := b = 0x09 ∨ b = 0x0a ∨ b = 0x0c ∨ b = 0x0d
  match m with
  | .ground => (0x20 ≤ b ∧ b < 0x7f) ∨ isSpace
  | .escape | .escapeMarks | .control => isSpace
  | _ => false

/-- What a terminal is in the middle of after a character beyond ASCII, which is not shown. One of
its bytes may be the terminator of a string. -/
def nextWide (m : Mode) (c : Char) : Mode :=
  if m = .hidden ∧ (String.singleton c).toUTF8.toList.contains 0x9c then .ground else m

end Mode

/-- Where the reader of a text is. -/
structure Stripper where
  /-- What a terminal was in the middle of when the last character was left out. -/
  mode : Mode
  /-- Whether the last character was shown. While characters are shown, they are plain text. -/
  passing : Bool

/-- Reads a character, and says whether it is shown. -/
def Stripper.step (s : Stripper) (c : Char) : Stripper × Bool :=
  let b := c.toNat
  if 0x80 ≤ b then
    if s.passing ∨ s.mode = .ground then (⟨.ground, true⟩, true)
    else (⟨s.mode.nextWide c, false⟩, false)
  else if s.passing then
    if Mode.shows .ground b then (s, true)
    else
      let interrupted := if Mode.next .ground b = .ground then s.mode else Mode.next .ground b
      (⟨interrupted.next b, false⟩, false)
  else if s.mode.shows b then (⟨s.mode, true⟩, true)
  else (⟨s.mode.next b, false⟩, false)

/-- The characters that are shown. -/
def Stripper.run (s : Stripper) : List Char → List Char
  | [] => []
  | c :: rest =>
    let (s, shown) := s.step c
    if shown then c :: s.run rest else s.run rest

/-- A text without control sequences. -/
def plain (text : String) : String := String.ofList (Stripper.run ⟨.ground, false⟩ text.toList)

end PathPolicy.CommandLine
