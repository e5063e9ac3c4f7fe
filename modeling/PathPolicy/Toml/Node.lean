/-!
# TOML documents as trees

A document is a table. How a table came about decides what may still be added to it: a header may
complete a table that earlier headers only implied, dotted keys may only add to tables that dotted
keys made, and nothing is added to an inline table. Entries keep the order in which they came.
-/

namespace PathPolicy.Toml

/-- How a table came about. -/
inductive Origin where
  /-- By its own header. -/
  | header
  /-- By the header of a table inside it. -/
  | implied
  /-- By dotted keys. -/
  | dotted
  /-- Between braces. -/
  | inline
  deriving Repr, DecidableEq

/-- A value. Of numbers and dates only their kind is kept. -/
inductive Node where
  | boolean (value : Bool)
  | string (value : String)
  | number
  | date
  | array (items : List Node)
  | table (origin : Origin) (entries : List (String × Node))
  /-- A list of tables, each of which has a header. The last one comes first. -/
  | tables (rows : List (List (String × Node)))

/-- The entries of a table. -/
abbrev Entries := List (String × Node)

namespace Entries

def find? (es : Entries) (key : String) : Option Node := es.lookup key

/-- Changes the value of a key in its place. -/
def replace (es : Entries) (key : String) (value : Node) : Entries :=
  es.map fun (k, v) => if k = key then (k, value) else (k, v)

def erase (es : Entries) (key : String) : Entries := es.filter (·.1 ≠ key)

end Entries

/-- A table that is being filled. -/
structure Table where
  origin : Origin
  entries : Entries

namespace Table

def empty (origin : Origin) : Table := ⟨origin, []⟩

/-- Changes the table at the end of a path of keys. Tables that are missing on the way are made,
with the given origin, which is `dotted` where dotted keys lead and `implied` where a header does.
Fails where the path runs through something that may not be added to. -/
def update (made : Origin) (f : Table → Option Table) : List String → Table → Option Table
  | [], t => f t
  | key :: rest, t =>
    match Entries.find? t.entries key with
    | none => do
      let child ← update made f rest (empty made)
      return { t with entries := t.entries ++ [(key, .table child.origin child.entries)] }
    | some (.table origin entries) =>
      if origin = .inline ∨ (made = .dotted ∧ origin = .header) then none
      else do
        let child ← update made f rest ⟨origin, entries⟩
        return { t with
          entries := Entries.replace t.entries key (.table child.origin child.entries) }
    | some (.tables (last :: before)) => do
      let child ← update made f rest ⟨.header, last⟩
      return { t with entries := Entries.replace t.entries key (.tables (child.entries :: before)) }
    | some _ => none

/-- Adds an entry under a key that has none. -/
def insert (key : String) (value : Node) (t : Table) : Option Table :=
  match Entries.find? t.entries key with
  | none => some { t with entries := t.entries ++ [(key, value)] }
  | some _ => none

/-- Adds an entry under dotted keys. -/
def insertDotted (path : List String) (key : String) (value : Node) (t : Table) : Option Table :=
  t.update .dotted
    (fun target =>
      if path ≠ [] ∧ target.origin ≠ .dotted then none else target.insert key value)
    path

end Table

end PathPolicy.Toml
