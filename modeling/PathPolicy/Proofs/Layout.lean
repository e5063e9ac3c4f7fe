import Mathlib.Data.Finset.Card
import Mathlib.Data.List.Infix
import PathPolicy.Proofs.Orders

/-!
# The layout of an automaton under construction

Whatever rules are inserted in whatever order, an automaton under construction is a tree with sinks.
There is a node for each beginning of a pattern, and one sink for each rule about the beginning of
paths, which has the value of this rule for good (`LaidOut.insert`). All edges lead down the tree or
into a sink, and from there nowhere else, so a sink is all that leads back to itself. As every state
is a node or a sink, the number of states can be read off the rules, and so can be whether they take
too many (`foldlM_insert?_layout`).
-/

namespace PathPolicy

open Builder (symbolsOf)

/-! ## Counting states -/

/-- The beginnings of the patterns of rules, but for the empty one. -/
def Rule.beginnings (rules : List Rule) : Finset Bytes :=
  (rules.flatMap fun r => r.pattern.bytes.inits).toFinset.erase []

theorem Rule.mem_beginnings {rules : List Rule} {w : Bytes} :
    w ∈ Rule.beginnings rules ↔ w ≠ [] ∧ ∃ r ∈ rules, w <+: r.pattern.bytes := by
  simp only [beginnings, Finset.mem_erase, List.mem_toFinset, List.mem_flatMap, List.mem_inits]

/-- The beginnings of the patterns of rules, and the empty one in any case. -/
def Rule.stems (rules : List Rule) : Finset Bytes := insert [] (Rule.beginnings rules)

section Stems

variable {rules : List Rule} {w : Bytes}

theorem Rule.mem_stems : w ∈ Rule.stems rules ↔ w = [] ∨ ∃ r ∈ rules, w <+: r.pattern.bytes := by
  rw [stems, Finset.mem_insert, mem_beginnings]
  exact or_and_left.trans (and_iff_right (em _))

theorem Rule.zero_notMem_stems (h : w ∈ Rule.stems rules) : 0 ∉ w := by
  rcases Rule.mem_stems.1 h with rfl | ⟨r, -, hpre⟩
  · exact List.not_mem_nil
  · exact fun hmem => r.zero_notMem (hpre.subset hmem)

theorem Rule.card_stems : (Rule.stems rules).card = (Rule.beginnings rules).card + 1 :=
  Finset.card_insert_of_notMem (Finset.notMem_erase _ _)

end Stems

namespace Builder

def stateOf (node : List Symbol → Option StateId) (w : Bytes) : StateId :=
  (node (symbolsOf w)).getD 0

/-- The number of states that rules take: the start, one for each beginning of a pattern, and one
for each rule about the beginning of paths. -/
def stateCount (rules : List Rule) : Nat :=
  1 + (Rule.beginnings rules).card + rules.countP fun r => !r.pattern.exact

/-- The sink that is created when a rule is inserted, with the rule, if it is about the beginning of
paths: the state after those of the walk along its pattern. -/
def freshSink (b : Builder) (r : Rule) : List (StateId × Rule) :=
  if r.pattern.exact then [] else [((b.walk r).builder.size, r)]

/-- The sinks that are created when rules are inserted one by one. -/
def sinksFrom (b : Builder) : List Rule → List (StateId × Rule)
  | [] => []
  | r :: rest => b.freshSink r ++ (b.insert r).sinksFrom rest

variable {b b' : Builder} {node node' : List Symbol → Option StateId}

theorem length_sinksFrom (b : Builder) (rules : List Rule) :
    (b.sinksFrom rules).length = rules.countP fun r => !r.pattern.exact := by
  induction rules generalizing b with
  | nil => rfl
  | cons r rest ih =>
    rw [sinksFrom, List.length_append, ih, List.countP_cons, Nat.add_comm]
    unfold freshSink
    cases r.pattern.exact <;> rfl

/-! ## Nodes and sinks -/

section Tree

variable (ht : b.Tree node)

include ht

theorem Tree.isSink_iff {s : StateId} :
    b.IsSink node s ↔ s < b.size ∧ ∀ u, node u ≠ some s :=
  ⟨fun h => ⟨h.lt, h.ne_node⟩, fun h =>
    (ht.cover h.1).resolve_left fun ⟨u, hu⟩ => h.2 u hu⟩

/-- The states that lead to themselves on every symbol are the sinks. -/
theorem Tree.isMatchAll_iff_isSink {s : StateId} : b.isMatchAll s = true ↔ b.IsSink node s := by
  constructor
  · intro hall
    refine ht.isSink_iff.2 ⟨lt_size_of_step (isMatchAll_iff.1 hall 0), fun u hu => ?_⟩
    rw [ht.isMatchAll_eq_false hu] at hall
    cases hall
  · exact fun hs => isMatchAll_iff.2 hs.loop

/-- An edge leads down the tree or into a sink. -/
theorem Tree.step_cases {s t : StateId} {c : Symbol} (h : b.step s c = some t) :
    b.IsSink node t ∨ ∃ u, node u = some s ∧ node (u ++ [c]) = some t := by
  rcases ht.cover (lt_size_of_step h) with ⟨u, hu⟩ | hs
  · cases hc : node (u ++ [c]) with
    | some t' =>
      rw [ht.child hu hc] at h
      exact .inr ⟨u, hu, hc.trans h⟩
    | none => exact .inl (ht.leaf hu hc h)
  · rw [hs.loop c] at h
    exact .inl (Option.some.inj h ▸ hs)

theorem Tree.step_lt {s t : StateId} {c : Symbol} (h : b.step s c = some t) : t < b.size := by
  rcases ht.step_cases h with ht' | ⟨u, -, hc⟩
  · exact ht'.lt
  · exact ht.lt hc

theorem Tree.step_ne_start (s : StateId) (c : Symbol) : b.step s c ≠ some 0 := by
  intro h
  rcases ht.step_cases h with hs | ⟨u, -, hc⟩
  · exact hs.ne_node [] ht.root
  · simpa using ht.inj hc ht.root

omit ht in
theorem IsSink.stepsAlong_eq {s : StateId} (hs : b.IsSink node s) (p : List Symbol) :
    stepsAlong b.step s p = some s := by
  induction p with
  | nil => rfl
  | cons c rest ih =>
    rw [stepsAlong, hs.loop c]
    exact ih

/-- A walk leads down the tree or ends in a sink. -/
theorem Tree.stepsAlong_cases {s t : StateId} {p : List Symbol}
    (h : stepsAlong b.step s p = some t) :
    b.IsSink node t ∨ ∀ u, node u = some s → node (u ++ p) = some t := by
  induction p generalizing s with
  | nil =>
    refine .inr fun u hu => ?_
    rw [List.append_nil, hu]
    exact h
  | cons c rest ih =>
    obtain ⟨s', hs', hrest⟩ := Option.bind_eq_some_iff.1 h
    rcases ht.step_cases hs' with hsink | ⟨v, hv, hc⟩
    · rw [hsink.stepsAlong_eq] at hrest
      exact .inl (Option.some.inj hrest ▸ hsink)
    · refine (ih hrest).imp_right fun hdown u hu => ?_
      obtain rfl := ht.inj hu hv
      have hchild := hdown _ hc
      rwa [List.append_assoc] at hchild

/-- Only a sink is on a cycle. -/
theorem Tree.isSink_of_cycle {s : StateId} {p : List Symbol} (hp : p ≠ [])
    (h : stepsAlong b.step s p = some s) : b.IsSink node s := by
  obtain ⟨c, rest, rfl⟩ := List.exists_cons_of_ne_nil hp
  obtain ⟨t, hst, -⟩ := Option.bind_eq_some_iff.1 h
  rcases ht.cover (lt_size_of_step hst) with ⟨u, hu⟩ | hs
  · refine (ht.stepsAlong_cases h).resolve_right fun hdown => ?_
    exact hp (List.append_right_eq_self.1 (ht.inj (hdown u hu) hu))
  · exact hs

end Tree

theorem Extends.isSink_iff (h : b.Extends node b' node') (ht : b.Tree node) (ht' : b'.Tree node')
    {s : StateId} : b'.IsSink node' s ↔ b.IsSink node s := by
  rw [ht.isSink_iff, ht'.isSink_iff]
  constructor
  · rintro ⟨hlt, hne⟩
    refine ⟨Nat.lt_of_not_le fun hle => ?_, fun u hu => hne u (h.keeps hu)⟩
    obtain ⟨v, hv⟩ := h.cover hle hlt
    exact hne v hv
  · rintro ⟨hlt, hne⟩
    refine ⟨Nat.lt_of_lt_of_le hlt h.size_le, fun u hu => ?_⟩
    exact (h.fresh hu).elim (hne u) (Nat.not_le.2 hlt)

/-! ## Insertion in any order -/

/-- A builder after rules were inserted: a node for each beginning of a pattern, and sinks that have
the values of the rules that they were created for. -/
structure LaidOut (b : Builder) (node : List Symbol → Option StateId) (rules : List Rule)
    (sinks : List (StateId × Rule)) : Prop where
  tree : b.Tree node
  node_iff : ∀ v, (node v).isSome ↔ v = [] ∨ ∃ r ∈ rules, v <+: r.word
  sink_iff : ∀ s, b.IsSink node s ↔ ∃ r, (s, r) ∈ sinks
  output : ∀ {s r}, (s, r) ∈ sinks → b.output s = some r.value
  nodup : (sinks.map Prod.fst).Nodup

theorem laidOut_start : ∃ node, start.LaidOut node [] [] := by
  refine ⟨_, tree_start, fun v => ?_, fun s => ?_, nofun, .nil⟩
  · by_cases hv : v = [] <;> simp [hv]
  · rw [tree_start.isSink_iff]
    constructor
    · rintro ⟨hlt, hne⟩
      exact absurd (congrArg some (Nat.lt_one_iff.1 hlt).symm) (hne [])
    · rintro ⟨r, hr⟩
      cases hr

namespace LaidOut

variable {rules : List Rule} {sinks : List (StateId × Rule)}

/-- A walk adds the nodes of its pattern, and neither adds a sink nor changes one. -/
theorem walk (h : b.LaidOut node rules sinks) (r : Rule) :
    ∃ node', (b.walk r).builder.LaidOut node' (rules ++ [r]) sinks ∧
      (b.walk r).At node' r.word := by
  obtain ⟨node', ht, hat, hdom, hext, -⟩ := h.tree.walk h.node_iff r
  refine ⟨node', ⟨ht, hdom, fun s => (hext.isSink_iff h.tree ht).trans (h.sink_iff s),
    fun {s a} hs => ?_, h.nodup⟩, hat⟩
  exact (hext.output ((h.sink_iff s).2 ⟨a, hs⟩).lt).trans (h.output hs)

section Finish

variable {k : Cursor} {r : Rule} (h : k.builder.LaidOut node rules sinks)
  {v : List Symbol} (hstate : node v = some k.state)

include h hstate

/-- The value of an exact rule is not that of a sink. -/
theorem finish_exact (he : r.pattern.exact = true) : (k.finish r).LaidOut node rules sinks := by
  have ht := h.tree.finish_exact (r := r) he
  refine ⟨ht, h.node_iff, fun s => ?_, fun {s a} hs => ?_, h.nodup⟩
  · rw [← h.sink_iff, h.tree.isSink_iff, ht.isSink_iff, Cursor.size_finish_exact he]
  · have hsink := (h.sink_iff s).2 ⟨a, hs⟩
    exact (hsink.output_finish h.tree hstate).trans (h.output hs)

/-- The state that is pushed for a prefix rule is a new sink. -/
theorem finish_close (he : r.pattern.exact = false)
    (hinherited : ∀ s, k.inherited = some s → k.builder.IsSink node s) :
    (k.finish r).LaidOut node rules (sinks ++ [(k.builder.size, r)]) := by
  have hlt := h.tree.lt hstate
  refine ⟨h.tree.finish_close hstate he hinherited, h.node_iff, fun s => ?_, fun {s a} hs => ?_, ?_⟩
  · simp only [List.mem_append, List.mem_singleton, Prod.mk.injEq, exists_or, ← h.sink_iff]
    constructor
    · intro hs
      have hsize : s < k.builder.size + 1 := Cursor.size_finish_close he ▸ hs.lt
      rcases Nat.lt_or_eq_of_le (Nat.le_of_lt_succ hsize) with hs' | hs'
      · exact .inl (h.tree.isSink_iff.2 ⟨hs', hs.ne_node⟩)
      · exact .inr ⟨r, hs', rfl⟩
    · rintro (hs | ⟨-, rfl, -⟩)
      · exact hs.finish_close h.tree hstate he
      · exact isSink_fresh h.tree he hlt
  · rcases List.mem_append.1 hs with hs | hs
    · have hsink := (h.sink_iff s).2 ⟨a, hs⟩
      exact (hsink.output_finish h.tree hstate).trans (h.output hs)
    · obtain ⟨rfl, rfl⟩ := Prod.mk.inj (List.mem_singleton.1 hs)
      rw [Cursor.output_finish_close he hlt, if_pos (.inl rfl)]
  · rw [List.map_append, List.nodup_append]
    refine ⟨h.nodup, List.nodup_singleton _, ?_⟩
    rintro s hs t ht rfl
    obtain ⟨⟨_, a⟩, hmem, rfl⟩ := List.mem_map.1 hs
    exact Nat.ne_of_lt ((h.sink_iff _).2 ⟨a, hmem⟩).lt (List.mem_singleton.1 ht)

end Finish

/-- An insertion adds the nodes of its pattern, and its sink if it has one. -/
theorem insert (h : b.LaidOut node rules sinks) (r : Rule) :
    ∃ node', (b.insert r).LaidOut node' (rules ++ [r]) (sinks ++ b.freshSink r) := by
  obtain ⟨node', hwalk, hat⟩ := h.walk r
  refine ⟨node', ?_⟩
  rw [insert_eq_finish]
  unfold freshSink
  cases he : r.pattern.exact with
  | true =>
    rw [if_pos rfl, List.append_nil]
    exact hwalk.finish_exact hat.state he
  | false =>
    rw [if_neg Bool.false_ne_true]
    exact hwalk.finish_close hat.state he hat.inherited

theorem insertAll {done rest : List Rule} (h : b.LaidOut node done sinks) :
    ∃ node', (b.insertAll rest).LaidOut node' (done ++ rest) (sinks ++ b.sinksFrom rest) := by
  induction rest generalizing b node done sinks with
  | nil =>
    rw [sinksFrom, List.append_nil, List.append_nil]
    exact ⟨node, h⟩
  | cons r rest ih =>
    obtain ⟨node', h'⟩ := h.insert r
    have hrest := ih h'
    rwa [List.append_assoc, List.append_assoc] at hrest

/-! ### How many states there are -/

section Count

variable (h : b.LaidOut node rules sinks)

include h

theorem node_stateOf {w : Bytes} (hw : w ∈ Rule.stems rules) :
    node (symbolsOf w) = some (stateOf node w) := by
  have hword : symbolsOf w = [] ∨ ∃ r ∈ rules, symbolsOf w <+: r.word := by
    refine (Rule.mem_stems.1 hw).imp (congrArg symbolsOf) ?_
    rintro ⟨r, hr, hpre⟩
    exact ⟨r, hr, (symbolsOf_isPrefix_iff (Rule.zero_notMem_stems hw) r.zero_notMem).2 hpre⟩
  obtain ⟨s, hs⟩ := Option.isSome_iff_exists.1 ((h.node_iff _).2 hword)
  unfold stateOf
  rw [hs]
  rfl

theorem stateOf_injOn : Set.InjOn (stateOf node) (Rule.stems rules) := by
  intro w hw w' hw' heq
  have hsame := h.node_stateOf hw
  rw [heq] at hsame
  exact symbolsOf_inj (Rule.zero_notMem_stems hw) (Rule.zero_notMem_stems hw')
    (h.tree.inj hsame (h.node_stateOf hw'))

theorem exists_stem {v : List Symbol} {s : StateId} (hv : node v = some s) :
    ∃ w ∈ Rule.stems rules, stateOf node w = s := by
  refine ⟨v.map byteOf, Rule.mem_stems.2 ?_, ?_⟩
  · refine ((h.node_iff v).1 (Option.isSome_of_eq_some hv)).imp (congrArg (List.map byteOf)) ?_
    rintro ⟨r, hr, hpre⟩
    exact ⟨r, hr, r.map_byteOf_word ▸ hpre.map byteOf⟩
  · unfold stateOf
    rw [symbolsOf_map_byteOf, hv]
    rfl

/-- Every state is the node of a stem, or one of the sinks. -/
theorem range_size : Finset.range b.size =
    (Rule.stems rules).image (stateOf node) ∪ (sinks.map Prod.fst).toFinset := by
  ext s
  simp only [Finset.mem_range, Finset.mem_union, Finset.mem_image, List.mem_toFinset,
    List.mem_map, Prod.exists, exists_eq_right, exists_and_right, ← h.sink_iff]
  constructor
  · intro hs
    exact (h.tree.cover hs).imp_left fun ⟨v, hv⟩ => h.exists_stem hv
  · rintro (⟨w, hw, rfl⟩ | hs)
    · exact h.tree.lt (h.node_stateOf hw)
    · exact hs.lt

theorem disjoint_sinks :
    Disjoint ((Rule.stems rules).image (stateOf node)) (sinks.map Prod.fst).toFinset := by
  rw [Finset.disjoint_left]
  intro s hs hs'
  obtain ⟨w, hw, rfl⟩ := Finset.mem_image.1 hs
  obtain ⟨⟨_, r⟩, hr, rfl⟩ := List.mem_map.1 (List.mem_toFinset.1 hs')
  exact ((h.sink_iff _).2 ⟨r, hr⟩).ne_node _ (h.node_stateOf hw)

theorem size_eq : b.size = 1 + (Rule.beginnings rules).card + sinks.length := by
  have hcard := congrArg Finset.card h.range_size
  rw [Finset.card_range, Finset.card_union_of_disjoint h.disjoint_sinks,
    Finset.card_image_of_injOn h.stateOf_injOn, Rule.card_stems,
    List.toFinset_card_of_nodup h.nodup, List.length_map] at hcard
  omega

end Count

end LaidOut

/-! ## Insertion into a lone start state -/

section Start

variable (rules : List Rule)

theorem exists_laidOut :
    ∃ node, (start.insertAll rules).LaidOut node rules (start.sinksFrom rules) := by
  obtain ⟨node, h⟩ := laidOut_start
  exact h.insertAll

theorem size_insertAll : (start.insertAll rules).size = stateCount rules := by
  obtain ⟨node, h⟩ := exists_laidOut rules
  rw [h.size_eq, length_sinksFrom, stateCount]

/-- Rules are inserted in any order, whatever their patterns are. There is no automaton iff they
take more states than an automaton can have. Otherwise it has as many states as they take; every
edge leads to a state, and none to the start; the only cycles are those of states that lead to
themselves on every symbol, and these are the sinks that were created for the rules about the
beginning of paths, each with the value of its rule. -/
theorem foldlM_insert?_layout :
    (rules.foldlM insert? start = none ↔ capacity < stateCount rules) ∧
    ∀ b, rules.foldlM insert? start = some b →
      b.size = stateCount rules ∧
      (∀ s c t, b.step s c = some t → t < b.size) ∧
      (∀ s c, b.step s c ≠ some 0) ∧
      (∀ s p, p ≠ [] → stepsAlong b.step s p = some s → b.isMatchAll s = true) ∧
      (∀ s, b.isMatchAll s = true ↔ ∃ r, (s, r) ∈ start.sinksFrom rules) ∧
      ∀ s r, (s, r) ∈ start.sinksFrom rules → b.output s = some r.value := by
  rw [foldlM_insert?_eq (by decide), size_insertAll]
  refine ⟨by simp, fun b hb => ?_⟩
  obtain ⟨-, rfl⟩ : _ ∧ start.insertAll rules = b := by simpa using hb
  obtain ⟨node, h⟩ := exists_laidOut rules
  refine ⟨size_insertAll rules, fun s c t => h.tree.step_lt, h.tree.step_ne_start,
    fun s p hp hcycle => ?_, fun s => ?_, fun s r => h.output⟩
  · exact h.tree.isMatchAll_iff_isSink.2 (h.tree.isSink_of_cycle hp hcycle)
  · rw [h.tree.isMatchAll_iff_isSink, h.sink_iff]

end Start

/-- Rules in an order that is not that of a table, with two rules for one pattern: the one about
all paths comes after longer ones. -/
def tangledRules : List Rule :=
  [(⟨[0x2f, 0x61], false⟩, 1), (⟨[0x2f, 0x61, 0x62], true⟩, 2), (⟨[0x2f, 0x61], false⟩, 3),
    (⟨[], false⟩, 4), (⟨[0x2f, 0x63], true⟩, 5)].filterMap fun (pattern, value) =>
      (Rule.make pattern value).toOption

theorem foldlM_insert?_layout_tangled :
    ∃ b, tangledRules.foldlM insert? start = some b ∧ b.size = 8 ∧
      (∀ s p, p ≠ [] → stepsAlong b.step s p = some s → b.isMatchAll s = true) ∧
      (∀ s, b.isMatchAll s = true ↔ ∃ r, (s, r) ∈ start.sinksFrom tangledRules) ∧
      (start.sinksFrom tangledRules).length = 3 := by
  have hcount : stateCount tangledRules = 8 := by decide
  obtain ⟨hnone, hsome⟩ := foldlM_insert?_layout tangledRules
  obtain ⟨b, hb⟩ : ∃ b, tangledRules.foldlM insert? start = some b := by
    rw [← Option.ne_none_iff_exists', Ne, hnone, hcount]
    decide
  obtain ⟨hsize, -, -, hcycle, hsinks, -⟩ := hsome b hb
  exact ⟨b, hb, hsize.trans hcount, hcycle, hsinks, (length_sinksFrom _ _).trans (by decide)⟩

end Builder

end PathPolicy
