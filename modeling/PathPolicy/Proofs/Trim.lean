import Mathlib.Algebra.Order.BigOperators.Group.List
import Mathlib.Algebra.Order.Group.Nat
import PathPolicy.Proofs.Construction
import PathPolicy.Proofs.Reduction

/-!
# Trim automata

An automaton of rules has no dead ends and no circles but those of its sinks. `Sparse.Trim` says so
of the states that are left: each is reached by a word, each target still has a value ahead, and
every path ends in a sink or stops (`Settles`). What the start of a table's automaton reaches is
trim (`RuleTable.trim_prune`), and identifying states by sound keys keeps it trim, however often it
is done (`Sparse.Trim.normalize`).
-/

namespace PathPolicy

/-! ## Paths that settle -/

section Settles

variable {σ τ : Type} {step : σ → Symbol → Option σ}

/-- Every path from a state stops, or ends in a state that leads to itself on every symbol. -/
inductive Settles (step : σ → Symbol → Option σ) : σ → Prop
  | sink {s : σ} (h : ∀ c, step s c = some s) : Settles step s
  | node {s : σ} (h : ∀ c t, step s c = some t → Settles step t) : Settles step s

theorem Settles.image {output : σ → Option Value} {step' : τ → Symbol → Option τ}
    {output' : τ → Option Value} {P : σ → Prop} {f : σ → τ}
    (himage : Image step output step' output' P f) {s : σ} (hs : P s) (h : Settles step s) :
    Settles step' (f s) := by
  induction h with
  | sink hloop =>
    refine .sink fun c => ?_
    rw [himage.step hs, hloop c, Option.map_some]
  | node _ ih =>
    refine .node fun c t ht => ?_
    rw [himage.step hs] at ht
    obtain ⟨r, hr, rfl⟩ := Option.map_eq_some_iff.1 ht
    exact ih c r hr (himage.closed hs hr)

end Settles

namespace Sparse

variable {p : Sparse}

/-- Every state that is left is reached and settles, and every target has a value ahead. -/
structure Trim (p : Sparse) : Prop where
  wellFormed : p.WellFormed
  reached : ∀ {s}, p.Live s → ∃ u, stepsAlong p.step 0 u = some s
  settles : ∀ {s}, p.Live s → Settles p.step s
  lively : ∀ {s c t}, p.step s c = some t → ∃ u v, valueAlong p.step p.output t u = some v

/-! ## Identification keeps automata trim -/

theorem Trim.redirect (hp : p.Trim) {rep : Array StateId} (h : p.Sound rep) :
    (p.redirect rep).Trim where
  wellFormed := (h.refines hp.wellFormed).wellFormed
  reached := fun hs =>
    Reached.redirect (fun _ hs => hp.reached hs) hp.wellFormed h _ hs
  settles := by
    intro s hs
    obtain ⟨hrep, hlive⟩ := live_redirect_iff.1 hs
    exact hrep ▸ (hp.settles hlive).image (h.image hp.wellFormed) hlive
  lively := by
    intro s c t hst
    obtain ⟨state, hget, -⟩ := step_eq_some hst
    rw [step_redirect (live_redirect_iff.1 ⟨state, hget⟩).1] at hst
    obtain ⟨r, hr, rfl⟩ := Option.map_eq_some_iff.1 hst
    obtain ⟨u, v, hv⟩ := hp.lively hr
    exact ⟨u, v, ((h.image hp.wellFormed).valueAlong_eq (hp.wellFormed.target hr) u).trans hv⟩

theorem Trim.normalize (hp : p.Trim) : p.normalize.Trim :=
  normalize_keeps (fun _ _ hq h => hq.redirect h) hp

end Sparse

/-! ## The automaton of a table -/

/-- A rule gives its own word a value, or a rule that is more specific does. -/
theorem exists_answer {rules : List Rule} {r : Rule} (hr : r ∈ rules) :
    ∃ v, answer rules r.word = some v := by
  rw [← Option.ne_none_iff_exists']
  intro hnone
  obtain ⟨hexact, hnear⟩ := Option.or_eq_none_iff.1 (Option.map_eq_none_iff.1 hnone)
  cases he : r.pattern.exact with
  | true => exact ruleAt_eq_none hexact hr he rfl
  | false => exact ruleAt_eq_none (nearest_eq_none_iff.1 hnear _ List.prefix_rfl) hr he rfl

namespace Builder

variable {b : Builder} {node : List Symbol → Option StateId} {rules : List Rule}

theorem Tree.settles (ht : b.Tree node) {n : Nat} (hn : ∀ u, (node u).isSome → u.length ≤ n)
    {s : StateId} (hs : s < b.size) : Settles b.step s := by
  -- The distance to the depth of the tree decreases from a node to its children.
  have hnode : ∀ k u s, node u = some s → n < u.length + k → Settles b.step s := by
    intro k
    induction k with
    | zero =>
      intro u s hu hlt
      exact absurd (hn u (Option.isSome_of_eq_some hu)) (Nat.not_le.2 hlt)
    | succ k ih =>
      intro u s hu hlt
      refine .node fun c t hst => ?_
      cases hc : node (u ++ [c]) with
      | none => exact .sink (ht.leaf hu hc hst).loop
      | some t' =>
        obtain rfl : t' = t := Option.some.inj ((ht.child hu hc).symm.trans hst)
        refine ih (u ++ [c]) t' hc ?_
        rw [List.length_append, List.length_singleton]
        omega
  rcases ht.cover hs with ⟨u, hu⟩ | hsink
  · exact hnode (n + 1) u s hu (by omega)
  · exact .sink hsink.loop

/-- A node, or a sink with a value. -/
def Valued (b : Builder) (node : List Symbol → Option StateId) (s : StateId) : Prop :=
  (∃ u, node u = some s) ∨ b.IsSink node s ∧ ∃ v, b.output s = some v

section Valued

variable (ht : b.Tree node) (ha : b.Answers node rules) {s t : StateId} {c : Symbol}

include ht ha

/-- What a node or a sink leads to is a node below the root, or a sink with the value of a rule. -/
theorem Valued.target (hs : b.Valued node s) (hst : b.step s c = some t) :
    (∃ u, u ≠ [] ∧ node u = some t) ∨ b.IsSink node t ∧ ∃ v, b.output t = some v := by
  rcases hs with ⟨u, hu⟩ | ⟨hsink, hv⟩
  · cases hc : node (u ++ [c]) with
    | some t' =>
      obtain rfl : t' = t := Option.some.inj ((ht.child hu hc).symm.trans hst)
      exact .inl ⟨u ++ [c], by simp, hc⟩
    | none =>
      refine .inr ⟨ht.leaf hu hc hst, ?_⟩
      rw [ha.fallback hu hc] at hst
      obtain ⟨v, -, hat, -⟩ := nearest_eq_some hst
      have hmap := ha.sink v
      rw [hat, Option.map_some] at hmap
      obtain ⟨r, -, hr⟩ := Option.map_eq_some_iff.1 hmap.symm
      exact ⟨r.value, hr.symm⟩
  · obtain rfl : s = t := Option.some.inj ((hsink.loop c).symm.trans hst)
    exact .inr ⟨hsink, hv⟩

theorem Valued.step (hs : b.Valued node s) (hst : b.step s c = some t) : b.Valued node t :=
  (hs.target ht ha hst).imp_left fun ⟨u, _, hu⟩ => ⟨u, hu⟩

/-- A target has the value of a rule ahead: a node is on the way to the end of a pattern. -/
theorem Valued.exists_value (hdom : ∀ v, (node v).isSome ↔ v = [] ∨ ∃ r ∈ rules, v <+: r.word)
    (hs : b.Valued node s) (hst : b.step s c = some t) :
    ∃ u v, valueAlong b.step b.output t u = some v := by
  rcases hs.target ht ha hst with ⟨w, hne, hw⟩ | ⟨-, v, hv⟩
  · obtain ⟨r, hr, rest, hrest⟩ := ((hdom w).1 (Option.isSome_of_eq_some hw)).resolve_left hne
    obtain ⟨v, hv⟩ := exists_answer hr
    refine ⟨rest, v, ?_⟩
    rw [valueAlong_node ht ha hw, hrest, hv]
  · exact ⟨[], v, hv⟩

end Valued

/-- What the start reaches of a builder that has grown by insertions is trim. -/
theorem Grown.trim_prune (hg : b.Grown rules) : b.automaton.prune.Trim := by
  have hwf := hg.wellFormed
  have hpos : 0 < b.automaton.size := Nat.lt_of_lt_of_eq hg.size_pos b.automaton_size.symm
  obtain ⟨-, hclosed⟩ := Automaton.reachable_closed hwf hpos
  have himage := Automaton.image_prune hwf hpos
  obtain ⟨node, ht, ha, hdom⟩ := hg
  have hstep : b.automaton.step = b.step := funext fun s => funext fun c => b.automaton_step s c
  have hout : b.automaton.output = b.output := funext b.automaton_output
  rw [hstep, hout] at himage
  rw [hstep] at hclosed
  refine ⟨Automaton.wellFormed_prune hwf hpos, fun hs => Automaton.reached_prune hwf hpos _ hs,
    fun {s} hs => ?_, fun {s c t} hst => ?_⟩
  · obtain ⟨hmarked, hlt⟩ := Automaton.live_prune_iff.1 hs
    rw [b.automaton_size] at hlt
    refine (ht.settles (n := (rules.map fun r => r.word.length).sum) (fun u hu => ?_) hlt).image
      himage hmarked
    rcases (hdom u).1 hu with rfl | ⟨r, hr, hpre⟩
    · exact Nat.zero_le _
    · exact Nat.le_trans hpre.length_le
        (List.le_sum_of_mem (List.mem_map_of_mem hr))
  · obtain ⟨state, hget, -⟩ := Sparse.step_eq_some hst
    obtain ⟨hmarked, -⟩ := Automaton.live_prune_iff.1 ⟨state, hget⟩
    rw [Automaton.step_prune hmarked, hstep] at hst
    have hvalued : b.Valued node s := by
      refine Automaton.reachable_least (P := b.Valued node) (.inl ⟨[], ht.root⟩) ?_ hmarked
      intro s c t hs hst
      exact hs.step ht ha (hstep ▸ hst)
    obtain ⟨u, v, hv⟩ := hvalued.exists_value ht ha hdom hst
    exact ⟨u, v, (himage.valueAlong_eq (hclosed hmarked hst) u).trans hv⟩

end Builder

theorem RuleTable.trim_prune (t : RuleTable) : (Automaton.ofTable t).prune.Trim :=
  t.grown.trim_prune

end PathPolicy
