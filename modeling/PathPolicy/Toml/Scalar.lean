/-!
# Scalars of TOML

Readers for strings, numbers and dates. A reader takes what it reads off the front of the text, in
which every line ends in a line feed alone, or fails.
-/

namespace PathPolicy.Toml

/-- A reader of a text. -/
abbrev Scan (α : Type) := StateT (List Char) Option α

namespace Scan

/-- Reads the given characters. -/
def literal (expected : List Char) : Scan Unit := fun cs =>
  if expected.isPrefixOf cs then some ((), cs.drop expected.length) else none

/-- Reads one character of a class. -/
def one (ok : Char → Bool) : Scan Char
  | c :: rest => if ok c then some (c, rest) else none
  | [] => none

/-- Reads as many characters of a class as there are. -/
def span (ok : Char → Bool) : Scan (List Char) := fun cs => some (List.span ok cs)

/-- The next character is left in place. -/
def peek : Scan (Option Char) := fun cs => some (cs.head?, cs)

/-- Whether the text starts with the given characters, which are left in place. -/
def ahead (expected : List Char) : Scan Bool := fun cs => some (expected.isPrefixOf cs, cs)

end Scan

/-- A blank within a line. -/
def isSpace (c : Char) : Bool := c == ' ' || c == '\t'

/-- A character that may stand in a comment. -/
def isCommentChar (c : Char) : Bool := c == '\t' || (0x20 ≤ c.toNat && c.toNat ≠ 0x7f)

/-- The quote of a basic string. -/
def basicQuote : Char := '\x22'

/-- The quote of a literal string. -/
def literalQuote : Char := '\x27'

/-- A character that stands for itself in a basic string. -/
def isBasicChar (c : Char) : Bool := isCommentChar c && c ≠ basicQuote && c ≠ '\\'

/-- A character that may stand in a literal string. -/
def isLiteralChar (c : Char) : Bool := isCommentChar c && c ≠ literalQuote

def hexValue? (c : Char) : Option Nat :=
  if c.isDigit then some (c.toNat - 48)
  else if 'a' ≤ c ∧ c ≤ 'f' then some (c.toNat - 87)
  else if 'A' ≤ c ∧ c ≤ 'F' then some (c.toNat - 55)
  else none

/-- The character with a number, if there is one. -/
def charOf? (n : Nat) : Option Char := if n.isValidChar then some (Char.ofNat n) else none

/-- The character whose number is written with the given digits. -/
def charOfHex? (digits : List Char) : Option Char := do
  let values ← digits.mapM hexValue?
  charOf? (values.foldl (fun n v => 16 * n + v) 0)

/-- Reads a character whose number is written with `n` digits. -/
def numbered (n : Nat) : Scan Char := fun cs =>
  let digits := cs.take n
  if digits.length = n then (charOfHex? digits).map (·, cs.drop n) else none

/-- Reads what follows a backslash: the character it stands for, and the rest. -/
def escape : Scan Char
  | 'b' :: rest => some (Char.ofNat 8, rest)
  | 't' :: rest => some ('\t', rest)
  | 'n' :: rest => some ('\n', rest)
  | 'f' :: rest => some (Char.ofNat 12, rest)
  | 'r' :: rest => some ('\r', rest)
  | '\x22' :: rest => some (basicQuote, rest)
  | '\\' :: rest => some ('\\', rest)
  | 'u' :: rest => numbered 4 rest
  | 'U' :: rest => numbered 8 rest
  | _ => none

theorem length_numbered_le {n : Nat} {c : Char} {cs rest : List Char}
    (h : numbered n cs = some (c, rest)) : rest.length ≤ cs.length := by
  simp only [numbered] at h
  split at h
  · simp only [Option.map_eq_some_iff, Prod.mk.injEq] at h
    obtain ⟨_, _, _, rfl⟩ := h
    simp
  · simp at h

theorem length_escape_lt {c : Char} {cs rest : List Char} (h : escape cs = some (c, rest)) :
    rest.length < cs.length := by
  unfold escape at h
  split at h
  case h_8 => exact Nat.lt_succ_of_le (length_numbered_le h)
  case h_9 => exact Nat.lt_succ_of_le (length_numbered_le h)
  case h_10 => simp at h
  all_goals
    simp only [Option.some.injEq, Prod.mk.injEq] at h
    obtain ⟨_, rfl⟩ := h
    simp

/-- The rest of a basic string of one line; `done` holds its characters so far, last first. -/
def basicBody (done : List Char) (cs : List Char) : Option (List Char × List Char) :=
  match cs with
  | [] => none
  | c :: rest =>
    if c = basicQuote then some (done.reverse, rest)
    else if c = '\\' then
      match _h : escape rest with
      | some (e, more) => basicBody (e :: done) more
      | none => none
    else if isBasicChar c then basicBody (c :: done) rest
    else none
termination_by cs.length
decreasing_by
  · have := length_escape_lt _h
    simp only [List.length_cons]
    omega
  · simp

/-- Drops blanks and line ends. -/
def dropBlankLines (cs : List Char) : List Char := cs.dropWhile fun c => isSpace c || c == '\n'

theorem length_dropBlankLines_le (cs : List Char) : (dropBlankLines cs).length ≤ cs.length :=
  (List.dropWhile_suffix _).length_le

/-- What follows a backslash at the end of a line: blanks, the end of the line, and all blanks and
line ends after it are dropped. -/
def afterLineEnd? (cs : List Char) : Option (List Char) :=
  if (cs.dropWhile isSpace).head? = some '\n' then some (dropBlankLines cs) else none

theorem length_afterLineEnd_le {cs rest : List Char} (h : afterLineEnd? cs = some rest) :
    rest.length ≤ cs.length := by
  unfold afterLineEnd? at h
  split at h
  · rw [← Option.some.inj h]
    exact length_dropBlankLines_le cs
  · simp at h

/-- How many quotes of a run at the front end a string of several lines, if they do: three of them
close it, and at most two before those belong to it. Gives the number that belongs to the string. -/
def closing? (quote : Char) (cs : List Char) : Option Nat :=
  let run := (cs.takeWhile (· = quote)).length
  if 3 ≤ run then some (min run 5 - 3) else none

/-- The rest of a basic string of several lines. -/
def multilineBasicBody (done : List Char) (cs : List Char) : Option (List Char × List Char) :=
  match cs with
  | [] => none
  | c :: rest =>
    match closing? basicQuote (c :: rest) with
    | some n => some ((List.replicate n basicQuote ++ done).reverse, (c :: rest).drop (n + 3))
    | none =>
      if c = basicQuote ∨ c = '\n' ∨ isBasicChar c = true then multilineBasicBody (c :: done) rest
      else if c = '\\' then
        match _h : afterLineEnd? rest with
        | some more => multilineBasicBody done more
        | none =>
          match _h : escape rest with
          | some (e, more) => multilineBasicBody (e :: done) more
          | none => none
      else none
termination_by cs.length
decreasing_by
  · simp
  · have := length_afterLineEnd_le _h
    simp only [List.length_cons]
    omega
  · have := length_escape_lt _h
    simp only [List.length_cons]
    omega

/-- The rest of a literal string of several lines. -/
def multilineLiteralBody (done : List Char) : List Char → Option (List Char × List Char)
  | [] => none
  | c :: rest =>
    match closing? literalQuote (c :: rest) with
    | some n => some ((List.replicate n literalQuote ++ done).reverse, (c :: rest).drop (n + 3))
    | none =>
      if c = literalQuote ∨ c = '\n' ∨ isLiteralChar c = true then
        multilineLiteralBody (c :: done) rest
      else none

/-- Drops one line end at the front. -/
def dropLineEnd : List Char → List Char
  | '\n' :: rest => rest
  | cs => cs

def basicString : Scan String := do
  Scan.literal [basicQuote]
  String.ofList <$> (basicBody [] : Scan (List Char))

def literalString : Scan String := do
  Scan.literal [literalQuote]
  let body ← Scan.span isLiteralChar
  Scan.literal [literalQuote]
  return String.ofList body

/-- Reads a string in any of its four forms. -/
def string : Scan String := do
  if ← Scan.ahead [basicQuote, basicQuote, basicQuote] then
    Scan.literal [basicQuote, basicQuote, basicQuote]
    modify dropLineEnd
    String.ofList <$> (multilineBasicBody [] : Scan (List Char))
  else if ← Scan.ahead [literalQuote, literalQuote, literalQuote] then
    Scan.literal [literalQuote, literalQuote, literalQuote]
    modify dropLineEnd
    String.ofList <$> (multilineLiteralBody [] : Scan (List Char))
  else basicString <|> literalString

/-- The digits at the front; one underscore may stand between two of them. -/
def moreDigits (ok : Char → Bool) : List Char → List Char × List Char
  | '_' :: d :: rest =>
    if ok d then
      let (ds, rest) := moreDigits ok rest
      (d :: ds, rest)
    else ([], '_' :: d :: rest)
  | d :: rest =>
    if ok d then
      let (ds, rest) := moreDigits ok rest
      (d :: ds, rest)
    else ([], d :: rest)
  | [] => ([], [])

/-- Reads one or more digits of a class. -/
def digits (ok : Char → Bool) : Scan (List Char) := do
  let d ← Scan.one ok
  let ds ← (fun cs => some (moreDigits ok cs) : Scan (List Char))
  return d :: ds

/-- Reads a sign, if there is one: whether it is a minus. -/
def sign : Scan Bool
  | '+' :: rest => some (false, rest)
  | '-' :: rest => some (true, rest)
  | cs => some (false, cs)

/-- Reads decimal digits that do not start with a zero, or a lone zero. -/
def wholeDigits : Scan (List Char) := do
  match ← Scan.peek with
  | some '0' => return [← Scan.one (· = '0')]
  | _ => digits Char.isDigit

/-- The number that digits stand for. -/
def natOf (base : Nat) (ds : List Char) : Nat :=
  ds.foldl (fun n d => base * n + (hexValue? d).getD 0) 0

/-- The number that digits stand for, if it is below `bound`. Reading ends where it no longer is. -/
def natBelow? (bound base : Nat) (ds : List Char) : Option Nat :=
  ds.foldlM
    (fun n d =>
      let n := base * n + (hexValue? d).getD 0
      if n < bound then some n else none)
    0

/-- The least number that no signed integer of 64 bits holds. -/
def signedBound : Nat := 0x8000000000000000

/-- Reads an integer after the mark of its base. -/
def basedInteger (mark : Char) (base : Nat) : Scan Unit := do
  Scan.literal ['0', mark]
  let ds ← digits fun c => (hexValue? c).any (· < base)
  if (natBelow? signedBound base ds).isNone then failure

def decimalInteger : Scan Unit := do
  let negative ← sign
  let ds ← wholeDigits
  if (natBelow? (if negative then signedBound + 1 else signedBound) 10 ds).isNone then failure

def integer : Scan Unit := do
  if ← Scan.ahead ['0', 'x'] then basedInteger 'x' 16
  else if ← Scan.ahead ['0', 'o'] then basedInteger 'o' 8
  else if ← Scan.ahead ['0', 'b'] then basedInteger 'b' 2
  else decimalInteger

/-- What a float is made of: its digits before and after the point, and its power of ten. -/
structure FloatText where
  whole : List Char
  fraction : List Char
  negativePower : Bool
  power : List Char

/-- Reads the power of ten of a float: whether it is negative, and its digits. -/
def exponent : Scan (Bool × List Char) := do
  let _ ← Scan.one fun c => c == 'e' || c == 'E'
  let negative ← sign
  return (negative, ← digits Char.isDigit)

/-- The least number that is rounded to infinity instead of a double. -/
def infinityBound : Nat := (1 <<< 1024) - (1 <<< 970)

/-- More digits than a finite double has before its point. -/
def finiteDigits : Nat := 320

namespace FloatText

/-- The power of ten. One that the digits cannot make up for is cut off. -/
def powerOfTen (f : FloatText) : Int :=
  let limit := f.whole.length + f.fraction.length + finiteDigits
  let n := (natBelow? limit 10 f.power).getD limit
  if f.negativePower then -n else n

/-- Whether a float is rounded to a finite double. As the bound is a whole number, only the part
before the point matters. -/
def isFinite (f : FloatText) : Bool :=
  let digits := (f.whole ++ f.fraction).dropWhile (· = '0')
  let places := digits.length + (f.powerOfTen - f.fraction.length)
  if digits = [] then true
  else if finiteDigits < places then false
  else
    let count := places.toNat
    let kept := digits.take count
    natOf 10 (kept ++ List.replicate (count - kept.length) '0') < infinityBound

end FloatText

/-- Reads the digits of a float, and its power of ten. -/
def floatText : Scan FloatText := do
  let whole ← wholeDigits
  (do
    let (negative, power) ← exponent
    return ⟨whole, [], negative, power⟩) <|>
  (do
    Scan.literal ['.']
    let fraction ← digits Char.isDigit
    let (negative, power) ← exponent <|> pure (false, [])
    return ⟨whole, fraction, negative, power⟩)

/-- Reads a float. One that is positive must not be rounded to infinity. -/
def float : Scan Unit := do
  let negative ← sign
  (do
    let f ← floatText
    if !negative && !f.isFinite then failure)
  <|> Scan.literal ['i', 'n', 'f'] <|> Scan.literal ['n', 'a', 'n']

/-- Reads a number of two digits that lies in a range. -/
def twoDigits (low high : Nat) : Scan Nat := do
  let a ← Scan.one Char.isDigit
  let b ← Scan.one Char.isDigit
  let n := natOf 10 [a, b]
  if low ≤ n ∧ n ≤ high then return n else failure

/-- The number of days of a month. -/
def daysIn (year month : Nat) : Nat :=
  if month = 2 then
    if year % 4 = 0 ∧ (year % 100 ≠ 0 ∨ year % 400 = 0) then 29 else 28
  else if month = 4 ∨ month = 6 ∨ month = 9 ∨ month = 11 then 30
  else 31

def fullDate : Scan Unit := do
  let a ← twoDigits 0 99
  let b ← twoDigits 0 99
  Scan.literal ['-']
  let month ← twoDigits 1 12
  Scan.literal ['-']
  let day ← twoDigits 1 31
  if daysIn (100 * a + b) month < day then failure

def timeOfDay : Scan Unit := do
  let _ ← twoDigits 0 23
  Scan.literal [':']
  let _ ← twoDigits 0 59
  Scan.literal [':']
  let _ ← twoDigits 0 60
  (do
    Scan.literal ['.']
    let _ ← Scan.one Char.isDigit
    let _ ← Scan.span Char.isDigit) <|> pure ()

/-- Reads the distance of a time from universal time. -/
def timeOffset : Scan Unit :=
  (do let _ ← Scan.one fun c => c == 'Z' || c == 'z') <|>
  (do
    let _ ← Scan.one fun c => c == '+' || c == '-'
    let _ ← twoDigits 0 23
    Scan.literal [':']
    let _ ← twoDigits 0 59)

def dateTime : Scan Unit :=
  (do
    fullDate
    (do
      let _ ← Scan.one fun c => c == 'T' || c == 't' || c == ' '
      timeOfDay
      timeOffset <|> pure ()) <|> pure ())
  <|> timeOfDay

end PathPolicy.Toml
