import PathPolicy.Automaton.Compile
import PathPolicy.Proofs.Construction
import PathPolicy.Proofs.TableFormat
import PathPolicy.Proofs.Tables

/-!
# A compiled table answers as its rules do

Construction, reduction, packing and the binary form compose: whatever the compiler hands out gives
every path the value of the most specific rule that covers it (`compile_lookup`).
-/

namespace PathPolicy.RuleTable

variable (t : RuleTable)

/-! ## The reduced automaton and its tables -/

theorem reduce_ofTable_lookup (w : Bytes) : (Automaton.ofTable t).reduce.lookup w = t.lookup w :=
  (Automaton.reduce_lookup t.ofTable_wellFormed t.ofTable_size_pos w).trans (t.ofTable_lookup w)

theorem pack_ofTable_lookup (w : Bytes) :
    (Automaton.ofTable t).reduce.pack.lookup w = t.lookup w := by
  rw [Automaton.pack_lookup (Automaton.wellFormed_reduce t.ofTable_wellFormed t.ofTable_size_pos)
    (Automaton.size_reduce_pos t.ofTable_wellFormed t.ofTable_size_pos), reduce_ofTable_lookup]

/-- The tables are well formed if the reduced automaton has fewer states than there are numbers. -/
theorem wellFormed_pack_reduce (h : (Automaton.ofTable t).reduce.size < Builder.capacity) :
    (Automaton.ofTable t).reduce.pack.WellFormed := by
  have hw := t.ofTable_wellFormed
  have hpos := t.ofTable_size_pos
  refine Automaton.wellFormed_pack (Automaton.wellFormed_reduce hw hpos)
    (Automaton.size_reduce_pos hw hpos) h fun s hs => ?_
  obtain ⟨r, hr⟩ := Automaton.output_of_reduce hw hpos hs
  exact t.ofTable_output_ne r hr

theorem wellFormed_pack_ofTable (h : (Automaton.ofTable t).size < Builder.capacity) :
    (Automaton.ofTable t).reduce.pack.WellFormed :=
  t.wellFormed_pack_reduce
    (Nat.lt_of_le_of_lt (Automaton.size_reduce_le t.ofTable_wellFormed t.ofTable_size_pos) h)

theorem compile?_eq (h : (Automaton.ofTable t).size ≤ Builder.capacity) :
    t.compile? =
      some ⟨(Automaton.ofTable t).reduce, (Automaton.ofTable t).reduce.pack⟩ := by
  unfold compile? raw?
  simp only [if_pos h, Option.map_some]

/-! ## The compiler -/

/-- A table whose automaton has fewer states than there are numbers compiles. The automaton, its
tables, and the tables read back from their binary form under any digest all answer every path as
the most specific rule does that covers it. -/
theorem compile_lookup (h : (Automaton.ofTable t).size < Builder.capacity) :
    ∃ c, t.compile? = some c ∧
      ∀ d, ∃ tables, Packed.decode (c.tables.encode d) (some d) = .ok tables ∧
        ∀ w, c.automaton.lookup w = t.lookup w ∧ c.tables.lookup w = t.lookup w ∧
          tables.lookup w = t.lookup w := by
  refine ⟨_, t.compile?_eq (Nat.le_of_lt h), fun d => ?_⟩
  refine ⟨_, Packed.decode_encode (t.wellFormed_pack_ofTable h) d (.inr rfl), fun w => ?_⟩
  exact ⟨t.reduce_ofTable_lookup w, t.pack_ofTable_lookup w, t.pack_ofTable_lookup w⟩

/-- A table in which rules about beginnings of paths stand inside each other and around an exact
rule, and two rules are about the same path. -/
def nested : RuleTable := ofList [
  ⟨⟨[0x2f, 0x61], true⟩, 1, by decide, by decide⟩,
  ⟨⟨[0x2f], false⟩, 2, by decide, by decide⟩,
  ⟨⟨[0x2f, 0x61], false⟩, 3, by decide, by decide⟩,
  ⟨⟨[0x2f, 0x61, 0x62], false⟩, 4, by decide, by decide⟩]

theorem size_nested_lt : (Automaton.ofTable nested).size < Builder.capacity :=
  Nat.lt_of_le_of_lt nested.ofTable_size_le (by decide)

theorem compile_lookup_nested :
    (Automaton.ofTable nested).size < Builder.capacity ∧
      ∃ c, nested.compile? = some c ∧
        ∀ d, ∃ tables, Packed.decode (c.tables.encode d) (some d) = .ok tables ∧
          ∀ w, c.automaton.lookup w = nested.lookup w ∧ c.tables.lookup w = nested.lookup w ∧
            tables.lookup w = nested.lookup w :=
  ⟨size_nested_lt, nested.compile_lookup size_nested_lt⟩

end PathPolicy.RuleTable
