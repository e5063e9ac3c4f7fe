import Mathlib.Algebra.Ring.Nat
import Mathlib.Data.List.Perm.Subperm
import PathPolicy.Proofs.Insertion

/-!
# The automaton of a table, before any simplification

A table is inserted from the least to the most specific rule, and then no rule covers what an
earlier one covers. So the automaton of a table answers every path with the value of the most
specific rule (`ofTable_lookup`). It has a state of its own for each rule (`length_rules_le_size`).
-/

namespace PathPolicy

open Builder (symbolsOf)

/-! ## Answers do not depend on the order -/

section Perm

variable {rules rules' : List Rule}

theorem ruleAt_eq_some_iff (hd : rules.Pairwise fun a b => a.pattern ≠ b.pattern) {exact : Bool}
    {u : List Symbol} {r : Rule} :
    ruleAt rules exact u = some r ↔ r ∈ rules ∧ r.pattern.exact = exact ∧ r.word = u := by
  refine ⟨ruleAt_eq_some, fun ⟨hr, he, hu⟩ => ?_⟩
  cases ha : ruleAt rules exact u with
  | none => exact absurd hu (ruleAt_eq_none ha hr he)
  | some a =>
    obtain ⟨har, hae, hau⟩ := ruleAt_eq_some ha
    have heq := Rule.pattern_eq (hau.trans hu.symm) (hae.trans he.symm)
    exact congrArg some ((RuleTable.mk rules hd).eq_of_pattern_eq har hr heq)

theorem ruleAt_perm (hd : rules.Pairwise fun a b => a.pattern ≠ b.pattern)
    (hp : rules.Perm rules') (exact : Bool) (u : List Symbol) :
    ruleAt rules exact u = ruleAt rules' exact u := by
  have hd' := hp.pairwise hd fun h => Ne.symm h
  apply Option.ext
  intro r
  rw [ruleAt_eq_some_iff hd, ruleAt_eq_some_iff hd', hp.mem_iff]

theorem answer_perm (hd : rules.Pairwise fun a b => a.pattern ≠ b.pattern)
    (hp : rules.Perm rules') (u : List Symbol) : answer rules u = answer rules' u := by
  unfold answer
  rw [ruleAt_perm hd hp, nearest_congr fun v _ => ruleAt_perm hd hp false v]

end Perm

/-! ## Outputs are values of rules -/

namespace Builder

variable {P : Value → Prop} {b : Builder}

/-- Every output of a state has a property. -/
def Outputs (P : Value → Prop) (b : Builder) : Prop := ∀ s v, b.output s = some v → P v

theorem Outputs.push (hb : b.Outputs P) {n : Node} (hn : ∀ v, n.output = some v → P v) :
    (b.push n).Outputs P := by
  intro s v hv
  rw [output_eq, nodes_push] at hv
  by_cases hs : s = b.size
  · rw [if_pos hs] at hv
    exact hn v hv
  · rw [if_neg hs, ← output_eq] at hv
    exact hb s v hv

theorem Outputs.modify (hb : b.Outputs P) {s : StateId} {f : Node → Node}
    (hf : ∀ n v, (f n).output = some v → n.output = some v ∨ P v) : (b.modify s f).Outputs P := by
  intro t v hv
  rw [output_eq, nodes_modify] at hv
  by_cases ht : t = s
  · rw [if_pos ht] at hv
    obtain ⟨n, hn, hv⟩ := Option.bind_eq_some_iff.1 hv
    obtain ⟨m, hm, rfl⟩ := Option.map_eq_some_iff.1 hn
    refine (hf m v hv).elim (fun h => hb t v ?_) id
    rw [output_eq, hm]
    exact h
  · rw [if_neg ht, ← output_eq] at hv
    exact hb t v hv

theorem Outputs.fork {k : Cursor} (hb : k.builder.Outputs P) (c : Symbol) :
    (k.fork c).builder.Outputs P := by
  refine Outputs.modify (hb.push fun v hv => ?_) fun n v hv => .inl hv
  obtain ⟨s, -, hs⟩ := Option.bind_eq_some_iff.1 hv
  exact hb s v hs

theorem Outputs.advance {k : Cursor} (hb : k.builder.Outputs P) (c : Symbol) :
    (k.advance c).builder.Outputs P := by
  have hsettle : k.settle.builder.Outputs P := hb
  rw [Cursor.advance_eq]
  split
  · exact hsettle.fork c
  · split
    · exact hsettle.fork c
    · exact hb

theorem Outputs.foldl {k : Cursor} (hb : k.builder.Outputs P) (u : List Symbol) :
    (u.foldl Cursor.advance k).builder.Outputs P := by
  induction u generalizing k with
  | nil => exact hb
  | cons c rest ih => exact ih (hb.advance c)

theorem Outputs.insert (hb : b.Outputs P) {r : Rule} (hr : P r.value) :
    (b.insert r).Outputs P := by
  have hk := Outputs.foldl (k := ⟨b, 0, none⟩) hb r.word
  have hvalue : ∀ v, some r.value = some v → P v := fun v hv => Option.some.inj hv ▸ hr
  rw [insert_eq_finish]
  refine Outputs.modify ?_ fun n v hv => .inr (hvalue v hv)
  split
  · exact hk
  · exact Outputs.modify (hk.push hvalue) fun n v hv => .inl hv

theorem Outputs.insertAll {rules : List Rule} (hb : b.Outputs P) (hr : ∀ r ∈ rules, P r.value) :
    (b.insertAll rules).Outputs P := by
  induction rules generalizing b with
  | nil => exact hb
  | cons r rest ih =>
    obtain ⟨hr, hrest⟩ := List.forall_mem_cons.1 hr
    exact ih (hb.insert hr) hrest

theorem outputs_start : start.Outputs P := by
  intro s v hv
  rw [output_eq] at hv
  obtain ⟨n, hn, hv⟩ := Option.bind_eq_some_iff.1 hv
  obtain ⟨hlt, rfl⟩ := Array.getElem?_eq_some_iff.1 hn
  obtain rfl : s = 0 := Nat.lt_one_iff.1 hlt
  cases hv

end Builder

/-! ## How many states there are -/

namespace Builder

variable {b : Builder} {rules : List Rule}

theorem size_advance_le (k : Cursor) (c : Symbol) :
    (k.advance c).builder.size ≤ k.builder.size + 1 := by
  have hfork := Nat.le_of_eq (Cursor.size_fork (k := k.settle) c)
  rw [Cursor.advance_eq]
  split
  · exact hfork
  · split
    · exact hfork
    · exact Nat.le_succ _

theorem size_foldl_advance_le (k : Cursor) (u : List Symbol) :
    (u.foldl Cursor.advance k).builder.size ≤ k.builder.size + u.length := by
  induction u generalizing k with
  | nil => exact Nat.le_refl _
  | cons c rest ih =>
    have hstep := size_advance_le k c
    have hrest := ih (k.advance c)
    rw [List.foldl_cons, List.length_cons]
    omega

theorem size_finish_le (k : Cursor) (r : Rule) : (k.finish r).size ≤ k.builder.size + 1 := by
  cases he : r.pattern.exact with
  | true =>
    rw [Cursor.size_finish_exact he]
    exact Nat.le_succ _
  | false => exact Nat.le_of_eq (Cursor.size_finish_close he)

/-- A rule takes at most a state for each byte of its pattern, and one more. -/
theorem size_insert_le (b : Builder) (r : Rule) :
    (b.insert r).size ≤ b.size + (r.pattern.bytes.length + 1) := by
  have hwalk : (b.walk r).builder.size ≤ b.size + r.word.length :=
    size_foldl_advance_le ⟨b, 0, none⟩ r.word
  have hfinish := size_finish_le (b.walk r) r
  have hlen := r.length_word
  rw [insert_eq_finish]
  omega

theorem size_insertAll_le (b : Builder) (rules : List Rule) :
    (b.insertAll rules).size ≤ b.size + (rules.map fun r => r.pattern.bytes.length + 1).sum := by
  induction rules generalizing b with
  | nil => exact Nat.le_refl _
  | cons r rest ih =>
    have hstep := size_insert_le b r
    have hrest := ih (b.insert r)
    show ((b.insert r).insertAll rest).size ≤ _
    rw [List.map_cons, List.sum_cons]
    omega

/-- The state that belongs to a rule alone: the node of its word if it is exact, and the sink there
if not. -/
def own (b : Builder) (node : List Symbol → Option StateId) (r : Rule) : Option StateId :=
  if r.pattern.exact then node r.word else b.sinkAt node r.word

section Own

variable {node : List Symbol → Option StateId} (ht : b.Tree node)

include ht

theorem exists_own (ha : b.Answers node rules)
    (hd : rules.Pairwise fun a r => a.pattern ≠ r.pattern) {r : Rule} (hr : r ∈ rules) :
    ∃ s < b.size, b.own node r = some s := by
  cases he : r.pattern.exact with
  | true =>
    obtain ⟨s, hs⟩ := Option.isSome_iff_exists.1 (ha.mem hr)
    exact ⟨s, ht.lt hs, (if_pos he).trans hs⟩
  | false =>
    have hrule : ruleAt rules false r.word = some r := (ruleAt_eq_some_iff hd).2 ⟨hr, he, rfl⟩
    have hmap := ha.sink r.word
    rw [hrule] at hmap
    obtain ⟨s, hs, -⟩ := Option.map_eq_some_iff.1 hmap
    obtain ⟨n, -, hn⟩ := Option.bind_eq_some_iff.1 hs
    exact ⟨s, (ht.sink hn).lt, (if_neg (by rw [he]; exact Bool.false_ne_true)).trans hs⟩

theorem pattern_eq_of_own {a r : Rule} {s : StateId} (hs : b.own node a = some s)
    (hs' : b.own node r = some s) : a.pattern = r.pattern := by
  unfold own at hs hs'
  cases hae : a.pattern.exact <;> cases hre : r.pattern.exact <;>
    simp only [hae, hre, if_true, Bool.false_eq_true, if_false] at hs hs'
  · obtain ⟨n, hn, hns⟩ := Option.bind_eq_some_iff.1 hs
    obtain ⟨n', hn', hns'⟩ := Option.bind_eq_some_iff.1 hs'
    obtain rfl := ht.sink_inj hns hns'
    exact Rule.pattern_eq (ht.inj hn hn') (hae.trans hre.symm)
  · obtain ⟨n, -, hns⟩ := Option.bind_eq_some_iff.1 hs
    exact absurd hs' ((ht.sink hns).ne_node _)
  · obtain ⟨n, -, hns⟩ := Option.bind_eq_some_iff.1 hs'
    exact absurd hs ((ht.sink hns).ne_node _)
  · exact Rule.pattern_eq (ht.inj hs hs') (hae.trans hre.symm)

end Own

/-- Every rule has a state of its own: the node of an exact pattern, and the sink of another. -/
theorem Grown.length_rules_le (hg : b.Grown rules)
    (hd : rules.Pairwise fun a r => a.pattern ≠ r.pattern) : rules.length ≤ b.size := by
  obtain ⟨node, ht, ha, -⟩ := hg
  have hnodup : (rules.map (b.own node)).Nodup := by
    refine List.pairwise_map.2 (hd.imp_of_mem fun har _ hne heq => hne ?_)
    obtain ⟨s, -, hs⟩ := exists_own ht ha hd har
    exact pattern_eq_of_own ht hs (heq.symm.trans hs)
  have hsub : rules.map (b.own node) ⊆ (List.range b.size).map some := by
    intro x hx
    obtain ⟨r, hr, rfl⟩ := List.mem_map.1 hx
    obtain ⟨s, hs, heq⟩ := exists_own ht ha hd hr
    exact List.mem_map.2 ⟨s, List.mem_range.2 hs, heq.symm⟩
  have hlen := (hnodup.subperm hsub).length_le
  rwa [List.length_map, List.length_map, List.length_range] at hlen

end Builder

/-! ## From the least to the most specific rule -/

theorem Rule.mayFollow_of_isBefore {a r : Rule} (h : r.pattern.isBefore a.pattern)
    (hne : r.pattern ≠ a.pattern) : a.MayFollow r := by
  refine ⟨hne.symm, fun he hpre => hne ?_⟩
  have hlen := Pattern.length_le_of_isBefore h
  rw [← a.length_word, ← r.length_word] at hlen
  have hword : r.word = a.word := hpre.eq_of_length_le hlen
  have hbytes : r.pattern.bytes = a.pattern.bytes := by
    rw [← r.map_byteOf_word, ← a.map_byteOf_word, hword]
  refine Rule.pattern_eq hword (he.trans ?_)
  cases hae : a.pattern.exact with
  | false => rfl
  | true =>
    rw [Pattern.exact_of_isBefore h hbytes hae] at he
    cases he

namespace RuleTable

variable (t : RuleTable)

theorem pairwise_mayFollow : t.sorted.reverse.Pairwise Rule.MayFollow := by
  rw [List.pairwise_reverse]
  exact (t.pairwise_sorted.and t.pairwise_sorted_ne).imp fun h =>
    Rule.mayFollow_of_isBefore h.1 h.2

theorem grown : (Builder.start.insertAll t.sorted.reverse).Grown t.sorted.reverse :=
  Builder.grown_start.insertAll t.pairwise_mayFollow

theorem answer_sorted_reverse (u : List Symbol) :
    answer t.sorted.reverse u = answer t.rules u := by
  refine answer_perm ?_ ((List.reverse_perm _).trans t.sorted_perm) u
  exact t.pairwise_mayFollow.imp fun h => h.1

theorem lookup_of_zero_mem {w : Bytes} (hw : 0 ∈ w) : t.lookup w = none :=
  if_pos (by simpa using hw)

theorem ofTable_lookup (w : Bytes) : (Automaton.ofTable t).lookup w = t.lookup w := by
  by_cases hw : 0 ∈ w
  · rw [Automaton.lookup_eq_pathValue, t.lookup_of_zero_mem hw]
    exact if_pos hw
  · rw [t.lookup_eq_answer hw, ← t.answer_sorted_reverse]
    exact t.grown.lookup hw

theorem ofTable_wellFormed : (Automaton.ofTable t).WellFormed := t.grown.wellFormed

theorem ofTable_size_pos : 0 < (Automaton.ofTable t).size := by
  rw [Automaton.ofTable, Builder.automaton_size]
  exact t.grown.size_pos

theorem length_rules_le_size : t.rules.length ≤ (Automaton.ofTable t).size := by
  have hlen := t.grown.length_rules_le (t.pairwise_mayFollow.imp fun h => h.1)
  rw [List.length_reverse, t.sorted_perm.length_eq] at hlen
  rw [Automaton.ofTable, Builder.automaton_size]
  exact hlen

theorem ofTable_size_le :
    (Automaton.ofTable t).size ≤ 1 + (t.rules.map fun r => r.pattern.bytes.length + 1).sum := by
  have hperm : (t.sorted.reverse.map fun r => r.pattern.bytes.length + 1).Perm
      (t.rules.map fun r => r.pattern.bytes.length + 1) :=
    ((List.reverse_perm _).trans t.sorted_perm).map _
  rw [Automaton.ofTable, Builder.automaton_size, ← hperm.sum_nat]
  exact Builder.size_insertAll_le Builder.start t.sorted.reverse

/-- No state has the reserved value, as no rule has it. -/
theorem ofTable_output_ne (s : StateId) : (Automaton.ofTable t).output s ≠ some reservedValue := by
  intro h
  rw [Automaton.ofTable, Builder.automaton_output] at h
  have hne : ∀ r ∈ t.sorted.reverse, r.value ≠ reservedValue := fun r _ => r.value_ne
  exact Builder.Outputs.insertAll (P := (· ≠ reservedValue)) Builder.outputs_start hne s
    reservedValue h rfl

end RuleTable

end PathPolicy
