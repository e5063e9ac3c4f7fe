import PathPolicy.Text.CaseTable

/-!
# Upper and lower case

The full case mappings of Unicode. A character may become several (a sharp s becomes `SS`), and a
capital sigma at the end of a word has a lowercase form of its own.
-/

namespace PathPolicy.Text

open CaseTable

/-- Maps a character by a table of special forms and a table of spans. -/
def mapCase (special : List (Nat × List Nat)) (spans : List Span) (c : Char) : List Char :=
  match special.lookup c.toNat with
  | some forms => forms.map Char.ofNat
  | none =>
    match spans.findSome? (·.target? c.toNat) with
    | some n => [Char.ofNat n]
    | none => [c]

/-- The uppercase form of a character. -/
def upperChar (c : Char) : List Char :=
  if c.toNat < 0x80 then [c.toUpper] else mapCase upperSpecial upperSpans c

def upper (s : String) : String := String.ofList (s.toList.flatMap upperChar)

/-- Whether the first character that is not ignored for case is cased. -/
def startsCased (cs : List Char) : Bool :=
  match cs.dropWhile caseIgnorable.has with
  | c :: _ => cased.has c
  | [] => false

/-- The lowercase form of a character that is not a capital sigma. -/
def lowerChar (c : Char) : List Char :=
  if c.toNat < 0x80 then [c.toLower] else mapCase lowerSpecial lowerSpans c

/-- The lowercase form of a character list; `before` holds what precedes it, nearest first. -/
def lowerChars (before : List Char) : List Char → List Char
  | [] => []
  | c :: rest =>
    let form :=
      if c.toNat = 0x3a3 then
        [Char.ofNat (if startsCased before && !startsCased rest then 0x3c2 else 0x3c3)]
      else lowerChar c
    form ++ lowerChars (c :: before) rest

def lower (s : String) : String := String.ofList (lowerChars [] s.toList)

end PathPolicy.Text
