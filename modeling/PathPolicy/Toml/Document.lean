import PathPolicy.Toml.Node
import PathPolicy.Toml.Scalar

/-!
# Reading TOML documents

A document is a list of lines that give a key a value or open a table. What lines may follow each
other is said in `PathPolicy.Toml.Node`; here is what they look like.
-/

namespace PathPolicy.Toml

/-- How deep arrays and inline tables may be nested, and how many parts a key may have. -/
def depthLimit : Nat := 80

/-- Skips blanks within a line. -/
def spaces : Scan Unit := do let _ ← Scan.span isSpace

def comment : Scan Unit
  | '#' :: rest => some ((), rest.dropWhile isCommentChar)
  | cs => some ((), cs)

/-- Reads the end of a line, or of the text. -/
def lineEnd : Scan Unit
  | [] => some ((), [])
  | '\n' :: rest => some ((), rest)
  | _ => none

/-- Reads what may follow on the line of a key or a header. -/
def lineRest : Scan Unit := do
  spaces
  comment
  lineEnd

/-- Repeats a reader as long as it gives something, but at most once more than `clock` has elements;
`done` holds what it gave so far, last first. -/
def repeatWithin {α : Type} (p : Scan (Option α)) (done : List α) (clock : List Char) :
    Scan (List α) := do
  match ← p with
  | none => return done.reverse
  | some a =>
    match clock with
    | [] => return (a :: done).reverse
    | _ :: clock => repeatWithin p (a :: done) clock

/-- Repeats a reader that takes something off the text every time that it gives something. Every
such time takes one character at least, so the text itself says how often that can be. -/
def repeated {α : Type} (p : Scan (Option α)) : Scan (List α) := fun cs => repeatWithin p [] cs cs

/-- Skips one line that holds blanks and a comment only, if the rest of the line does. -/
def blankLine : Scan (Option Unit) := do
  spaces
  match ← Scan.peek with
  | some '#' =>
    comment
    Scan.literal ['\n']
    return some ()
  | some '\n' =>
    Scan.literal ['\n']
    return some ()
  | _ => return none

/-- Skips blanks, comments and line ends. -/
def blanks : Scan Unit := do let _ ← repeated blankLine

/-- A character of a key without quotes. -/
def isBareChar (c : Char) : Bool := c.isAlphanum || c == '_' || c == '-'

/-- Reads a part of a key. -/
def simpleKey : Scan String := do
  match ← Scan.peek with
  | some '\x22' => basicString
  | some '\x27' => literalString
  | _ =>
    let c ← Scan.one isBareChar
    let cs ← Scan.span isBareChar
    return String.ofList (c :: cs)

/-- Reads a part of a key with blanks around it. -/
def spacedKey : Scan String := do
  spaces
  let k ← simpleKey
  spaces
  return k

/-- Reads a part of a key after a dot, if there is a dot. -/
def nextKey : Scan (Option String) := do
  match ← Scan.peek with
  | some '.' =>
    Scan.literal ['.']
    return some (← spacedKey)
  | _ => return none

/-- Reads a key of one or more parts: all but the last of them, and the last. -/
def dottedKey : Scan (List String × String) := do
  let first ← spacedKey
  let others ← repeated nextKey
  let all := first :: others
  if depthLimit ≤ all.length then failure
  return (all.dropLast, all.getLastD first)

/-- Reads what stands between two values: whether there is another one. -/
def comma : Scan Bool := do
  match ← Scan.peek with
  | some ',' =>
    Scan.literal [',']
    return true
  | _ => return false

/-- Reads the items of an array up to its bracket. `item` reads one item. -/
def arrayItems {α : Type} (item : Scan α) : Scan (List α) := do
  let items ← repeated do
    blanks
    match ← Scan.peek with
    | some ']' => return none
    | _ =>
      let a ← item
      blanks
      if ← comma then return some a
      else if ← Scan.ahead [']'] then return some a
      else failure
  blanks
  Scan.literal [']']
  return items

/-- Reads an entry of an inline table. `item` reads a value. -/
def inlineEntry {α : Type} (item : Scan α) : Scan ((List String × String) × α) := do
  let key ← dottedKey
  Scan.literal ['=']
  spaces
  let value ← item
  spaces
  return (key, value)

/-- Reads the entries of an inline table up to its brace. No comma may follow the last one. -/
def inlineEntries {α : Type} (item : Scan α) : Scan (List ((List String × String) × α)) := do
  spaces
  let entries ←
    (do
      let first ← inlineEntry item
      let others ← repeated do
        if ← comma then return some (← inlineEntry item) else return none
      return first :: others)
    <|> pure []
  Scan.literal ['\x7d']
  return entries

def value (depth : Nat) : Scan Node := do
  match ← Scan.peek with
  | some '\x22' | some '\x27' => return .string (← string)
  | some '[' =>
    match depth with
    | depth + 2 =>
      Scan.literal ['[']
      return .array (← arrayItems (value (depth + 1)))
    | _ => failure
  | some '\x7b' =>
    match depth with
    | depth + 2 =>
      Scan.literal ['\x7b']
      let entries ← inlineEntries (value (depth + 1))
      let filled := entries.foldlM
        (fun t ((path, key), v) => t.insertDotted path key v) (Table.empty .inline)
      match filled with
      | some t => return .table .inline t.entries
      | none => failure
    | _ => failure
  | some 't' =>
    Scan.literal ['t', 'r', 'u', 'e']
    return .boolean true
  | some 'f' =>
    Scan.literal ['f', 'a', 'l', 's', 'e']
    return .boolean false
  | _ => (do dateTime; return .date) <|> (do float; return .number) <|> (do integer; return .number)

/-- A line of a document. -/
inductive Statement where
  | keyValue (path : List String) (key : String) (value : Node)
  | header (path : List String) (key : String)
  | arrayHeader (path : List String) (key : String)

/-- Reads a line that gives a key a value. -/
def keyValueLine : Scan Statement := do
  let (path, key) ← dottedKey
  Scan.literal ['=']
  spaces
  let v ← value depthLimit
  lineRest
  return .keyValue path key v

/-- Reads a line that opens a table. -/
def headerLine : Scan Statement := do
  if ← Scan.ahead ['[', '['] then
    Scan.literal ['[', '[']
    let (path, key) ← dottedKey
    Scan.literal [']', ']']
    lineRest
    return .arrayHeader path key
  else
    Scan.literal ['[']
    let (path, key) ← dottedKey
    Scan.literal [']']
    lineRest
    return .header path key

/-- Reads a line, after blanks, comments and empty lines. -/
def statement : Scan (Option Statement) := do
  let _ ← repeated do
    spaces
    match ← Scan.peek with
    | some '#' =>
      comment
      lineEnd
      return some ()
    | some '\n' =>
      lineEnd
      return some ()
    | _ => return none
  match ← Scan.peek with
  | none => return none
  | some '[' => return some (← headerLine)
  | some _ => return some (← keyValueLine)

/-- A document that is being filled: the table that the last header opened is kept apart until the
next header. -/
structure Draft where
  root : Table
  /-- The path and key of the open table, and whether it is one of a list. The root has none. -/
  place : Option (List String × String × Bool)
  current : Table

namespace Draft

def start : Draft := ⟨Table.empty .header, none, Table.empty .header⟩

/-- Puts the open table into its place. -/
def close (d : Draft) : Option Table :=
  match d.place with
  | none => some d.current
  | some (path, key, false) =>
    d.root.update .implied (·.insert key (.table .header d.current.entries)) path
  | some (path, key, true) =>
    d.root.update .implied
      (fun t =>
        match Entries.find? t.entries key with
        | none => t.insert key (.tables [d.current.entries])
        | some (.tables rows) =>
          some { t with
            entries := Entries.replace t.entries key (.tables (d.current.entries :: rows)) }
        | some _ => none)
      path

/-- The entries of the table at a path of keys, if there is one. -/
def entriesAt? : List String → Entries → Option Entries
  | [], es => some es
  | key :: rest, es =>
    match es.find? key with
    | some (.table _ child) => entriesAt? rest child
    | some (.tables (last :: _)) => entriesAt? rest last
    | _ => none

/-- Opens the table of a header. A table that other headers implied is taken out of its place, and
will be put back at the end. -/
def openTable (root : Table) (path : List String) (key : String) : Option Draft := do
  let reached ← root.update .implied some path
  let entries ← entriesAt? path reached.entries
  match entries.find? key with
  | none => return ⟨reached, some (path, key, false), Table.empty .header⟩
  | some (.table .implied child) =>
    let taken ← reached.update .implied
      (fun t => some { t with entries := Entries.erase t.entries key }) path
    return ⟨taken, some (path, key, false), ⟨.header, child⟩⟩
  | some _ => none

/-- Opens one table of a list. The list takes its place at once. -/
def openRow (root : Table) (path : List String) (key : String) : Option Draft := do
  let reached ← root.update .implied some path
  let entries ← entriesAt? path reached.entries
  match entries.find? key with
  | none =>
    let listed ← reached.update .implied (·.insert key (.tables [])) path
    return ⟨listed, some (path, key, true), Table.empty .header⟩
  | some (.tables _) => return ⟨reached, some (path, key, true), Table.empty .header⟩
  | some _ => none

/-- Takes one line into the document. -/
def add (d : Draft) : Statement → Option Draft
  | .keyValue path key v => do
    let filled ← d.current.insertDotted path key v
    return { d with current := filled }
  | .header path key => do openTable (← d.close) path key
  | .arrayHeader path key => do openRow (← d.close) path key

end Draft

/-- A text in which every carriage return before a line feed is dropped. -/
def plainLineEnds : List Char → List Char
  | '\r' :: '\n' :: rest => '\n' :: plainLineEnds rest
  | c :: rest => c :: plainLineEnds rest
  | [] => []

/-- A text without a byte order mark at its front. -/
def dropMark : List Char → List Char
  | c :: rest => if c.toNat = 0xfeff then rest else c :: rest
  | [] => []

/-- The entries of a document, or none if it is not well-formed. -/
def parse? (text : String) : Option Entries := do
  let (statements, rest) ← repeated statement (plainLineEnds (dropMark text.toList))
  if rest ≠ [] then none
  let d ← statements.foldlM Draft.add Draft.start
  let root ← d.close
  return root.entries

end PathPolicy.Toml
