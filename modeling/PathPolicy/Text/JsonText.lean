import PathPolicy.Text.Quoted

/-!
# JSON over several lines

Every element stands on a line of its own, two blanks deeper than what it is in. What has no
elements stays on one line.
-/

namespace PathPolicy.Text

/-- A JSON value. -/
inductive Json where
  | null
  | boolean (value : Bool)
  | string (value : String)
  | array (items : List Json)
  | object (fields : List (String × Json))

namespace Json

/-- A character of a string as it is written. -/
def escapeChar (c : Char) : List Char :=
  if c = doubleQuote ∨ c = '\\' then ['\\', c]
  else if c = Char.ofNat 8 then ['\\', 'b']
  else if c = '\t' then ['\\', 't']
  else if c = '\n' then ['\\', 'n']
  else if c = Char.ofNat 12 then ['\\', 'f']
  else if c = '\r' then ['\\', 'r']
  else if c.toNat < 0x20 then
    ['\\', 'u', '0', '0', Nat.digitChar (c.toNat / 16), Nat.digitChar (c.toNat % 16)]
  else [c]

def quote (s : String) : String :=
  String.ofList (doubleQuote :: s.toList.flatMap escapeChar ++ [doubleQuote])

def indent (depth : Nat) : String := "".pushn ' ' (2 * depth)

/-- Elements between an opening and a closing character. -/
def block (opening closing : String) (depth : Nat) (elements : List String) : String :=
  if elements.isEmpty then opening ++ closing
  else
    opening ++ "\n"
      ++ ",\n".intercalate (elements.map fun element => indent (depth + 1) ++ element)
      ++ "\n" ++ indent depth ++ closing

mutual

/-- A value whose first line has the given depth. -/
def render (depth : Nat) : Json → String
  | .null => "null"
  | .boolean true => "true"
  | .boolean false => "false"
  | .string value => quote value
  | .array items => block "[" "]" depth (renderItems (depth + 1) items)
  | .object fields => block "\x7b" "\x7d" depth (renderFields (depth + 1) fields)

/-- The elements of an array. -/
def renderItems (depth : Nat) : List Json → List String
  | [] => []
  | item :: rest => render depth item :: renderItems depth rest

/-- The fields of an object. -/
def renderFields (depth : Nat) : List (String × Json) → List String
  | [] => []
  | (name, value) :: rest =>
    (quote name ++ ": " ++ render depth value) :: renderFields depth rest

end

/-- A text, or null. -/
def ofOption : Option String → Json
  | some text => .string text
  | none => .null

end Json

end PathPolicy.Text
