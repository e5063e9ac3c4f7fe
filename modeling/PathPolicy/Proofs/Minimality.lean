import Mathlib.Data.Fintype.EquivFin
import PathPolicy.Proofs.Compilation
import PathPolicy.Proofs.Trim

/-!
# The reduced automaton is minimal

Identification stops when neither way of it drops a state (`Sparse.Rigid`). In a trim automaton that
is enough: two states that are left and give every word the same value are one
(`Sparse.Trim.eq_of_values`). The proof is an induction on the paths of the one state down to the
sinks; the shapes settle nodes and sinks among themselves, and the catch-all states are what is
between them. So the states of a compiled automaton are reached and told apart by words, and no
automaton with the same values has fewer (`RuleTable.compile_minimal`).
-/

namespace PathPolicy

namespace Sparse

variable {p : Sparse}

/-! ## Nothing is left to identify -/

/-- No two states have a key in common. -/
structure Rigid (p : Sparse) : Prop where
  collapse : ¬ p.collapse.live < p.live
  merge : ¬ p.merge.live < p.live

theorem rigid_normalize (p : Sparse) : p.normalize.Rigid := by
  have hround := not_lt_shrink (fun q => shrink merge (shrink collapse q)) p
  change ¬ (shrink merge (shrink collapse p.normalize)).live < p.normalize.live at hround
  have hmerge_le : (shrink merge (shrink collapse p.normalize)).live ≤
      (shrink collapse p.normalize).live := by
    rcases shrink_cases merge (shrink collapse p.normalize) with h | ⟨h, -⟩
    · exact Nat.le_of_lt h
    · rw [h]
  rcases shrink_cases collapse p.normalize with h | ⟨heq, hcollapse⟩
  · exact absurd (Nat.lt_of_le_of_lt hmerge_le h) hround
  rw [heq] at hround
  rcases shrink_cases merge p.normalize with h | ⟨-, hmerge⟩
  · exact absurd h hround
  · exact ⟨hcollapse, hmerge⟩

theorem Rigid.eq_of_sinkOf (hp : p.Rigid) {i j : StateId} {s t : State} {k : StateId}
    (hi : p.get? i = some s) (hj : p.get? j = some t) (hki : p.sinkOf i s = some k)
    (hkj : p.sinkOf j t = some k) : i = j :=
  eq_of_key hp.collapse hi hj hki hkj

theorem Rigid.eq_of_shapeOf (hp : p.Rigid) {i j : StateId} {s t : State} (hi : p.get? i = some s)
    (hj : p.get? j = some t) (h : shapeOf i s = shapeOf j t) : i = j :=
  eq_of_key hp.merge hi hj rfl (congrArg some h).symm

/-! ## States with the same values -/

def valueFrom (p : Sparse) (s : StateId) (u : List Symbol) : Option Value :=
  valueAlong p.step p.output s u

section Values

variable {i j : StateId} {c : Symbol}

theorem valueFrom_cons {s : StateId} (hs : p.step i c = some s) (u : List Symbol) :
    p.valueFrom i (c :: u) = p.valueFrom s u := by
  rw [valueFrom, valueAlong, hs, Option.bind_some, valueFrom]

theorem valueFrom_target {s t : StateId} (h : p.valueFrom i = p.valueFrom j)
    (hs : p.step i c = some s) (ht : p.step j c = some t) : p.valueFrom s = p.valueFrom t := by
  funext u
  rw [← valueFrom_cons hs, ← valueFrom_cons ht, h]

/-- As every target has a value ahead, states with the same values lead on by the same symbols. -/
theorem Trim.exists_step (hp : p.Trim) {s : StateId} (h : p.valueFrom i = p.valueFrom j)
    (hs : p.step i c = some s) : ∃ t, p.step j c = some t := by
  obtain ⟨u, v, hv⟩ := hp.lively hs
  have hvalue : p.valueFrom j (c :: u) = some v := by
    rw [← h, valueFrom_cons hs, valueFrom, hv]
  obtain ⟨t, ht, -⟩ := Option.bind_eq_some_iff.1 hvalue
  exact ⟨t, ht⟩

/-- A state that is not the start has a value ahead, as a word ends in it. -/
theorem Trim.exists_value (hp : p.Trim) (hi : p.Live i) (hne : i ≠ 0) :
    ∃ u v, p.valueFrom i u = some v := by
  obtain ⟨u, hu⟩ := hp.reached hi
  cases u using List.reverseRecOn with
  | nil => exact absurd (Option.some.inj hu).symm hne
  | append_singleton u c =>
    rw [stepsAlong_append] at hu
    obtain ⟨s, -, hs⟩ := Option.bind_eq_some_iff.1 hu
    obtain ⟨t, ht, hti⟩ := Option.bind_eq_some_iff.1 hs
    obtain rfl : t = i := Option.some.inj hti
    exact hp.lively ht

/-- A state with the values of a sink is that sink. -/
theorem Trim.eq_of_loop (hp : p.Trim) (hr : p.Rigid) (hloop : ∀ c, p.step i c = some i)
    (hj : p.Live j) (h : p.valueFrom i = p.valueFrom j) : i = j := by
  obtain ⟨s, hs⟩ : p.Live i := hp.wellFormed.target (hloop 0)
  have hrow : ∀ c : Symbol, s.row[c] = some i := fun c => (step_of_get? hs c).symm.trans (hloop c)
  induction hp.settles hj with
  | @sink j hloop' =>
    -- two sinks of one value have the same shape
    obtain ⟨t, ht⟩ := hj
    have hrow' : ∀ c : Symbol, t.row[c] = some j :=
      fun c => (step_of_get? ht c).symm.trans (hloop' c)
    refine hr.eq_of_shapeOf hs ht (shapeOf_eq ?_ fun c => ?_)
    · rw [← output_of_get? hs, ← output_of_get? ht]
      exact congrFun h []
    · rw [hrow, hrow', arrow, arrow, if_pos rfl, if_pos rfl]
  | @node j _ ih =>
    -- every symbol leads to the sink, so the state is a catch-all
    obtain ⟨t, ht⟩ := hj
    have hrow' : ∀ c : Symbol, t.row[c] = some i := by
      intro c
      obtain ⟨r, hjr⟩ := hp.exists_step h (hloop c)
      have heq := ih c r hjr (hp.wellFormed.target hjr) (valueFrom_target h (hloop c) hjr)
      rw [← step_of_get? ht, hjr, heq]
    have hout : t.output = s.output := by
      rw [← output_of_get? hs, ← output_of_get? ht]
      exact (congrFun h []).symm
    exact hr.eq_of_sinkOf hs ht (sinkOf_eq_some_iff.2 ⟨hrow, s, hs, hrow, rfl⟩)
      (sinkOf_eq_some_iff.2 ⟨hrow', s, hs, hrow, hout⟩)

/-- Different states that are left give some word different values. -/
theorem Trim.eq_of_values (hp : p.Trim) (hr : p.Rigid) (hi : p.Live i) (hj : p.Live j)
    (h : p.valueFrom i = p.valueFrom j) : i = j := by
  induction hp.settles hi generalizing j with
  | sink hloop => exact hp.eq_of_loop hr hloop hj h
  | @node i _ ih =>
    have hstep : ∀ c, p.step i c = p.step j c := by
      intro c
      cases hic : p.step i c with
      | some s =>
        obtain ⟨t, hjc⟩ := hp.exists_step h hic
        rw [hjc, ih c s hic (hp.wellFormed.target hic) (hp.wellFormed.target hjc)
          (valueFrom_target h hic hjc)]
      | none =>
        cases hjc : p.step j c with
        | none => rfl
        | some t =>
          obtain ⟨s, hs⟩ := hp.exists_step h.symm hjc
          rw [hs] at hic
          cases hic
    -- a state that one of the two leads to is settled already
    by_cases hself : ∃ c, p.step i c = some i ∨ p.step i c = some j
    · obtain ⟨c, hc | hc⟩ := hself
      · exact ih c i hc hi hj h
      · exact (ih c j hc hj hi h.symm).symm
    · obtain ⟨s, hs⟩ := hi
      obtain ⟨t, ht⟩ := hj
      have hrow : ∀ c : Symbol, s.row[c] = t.row[c] := fun c => by
        rw [← step_of_get? hs, ← step_of_get? ht, hstep]
      refine hr.eq_of_shapeOf hs ht (shapeOf_eq ?_ fun c => ?_)
      · rw [← output_of_get? hs, ← output_of_get? ht]
        exact congrFun h []
      · have hne : ∀ k, p.step i c = some k → k ≠ i ∧ k ≠ j := by
          rintro k hk
          refine ⟨?_, ?_⟩
          · rintro rfl
            exact hself ⟨c, .inl hk⟩
          · rintro rfl
            exact hself ⟨c, .inr hk⟩
        rw [step_of_get? hs] at hne
        rw [arrow, arrow, ← hrow c, if_neg fun h => (hne i h).1 rfl,
          if_neg fun h => (hne j h).2 rfl]

end Values

end Sparse

/-! ## Words that tell states apart -/

namespace Automaton

variable {a b : Automaton}

def valueFrom (a : Automaton) (s : StateId) (w : Bytes) : Option Value := (a.walk s w).bind a.output

theorem walk_append (a : Automaton) (s : StateId) (v w : Bytes) :
    a.walk s (v ++ w) = (a.walk s v).bind fun t => a.walk t w := by
  induction v generalizing s with
  | nil => rfl
  | cons x rest ih =>
    simp only [List.cons_append, walk_cons, ih, Option.bind_assoc]

theorem lookup_append {v : Bytes} {s : StateId} (h : a.walk 0 v = some s) (w : Bytes) :
    a.lookup (v ++ w) = a.valueFrom s w := by
  rw [lookup_eq_pathValue, ← walk_bind_output, walk_append, h, Option.bind_some, valueFrom]

theorem walk_lt (hb : b.WellFormed) {s t : StateId} (hs : s < b.size) {w : Bytes}
    (h : b.walk s w = some t) : t < b.size :=
  walk_holds (fun _ hst => hb _ _ _ hst) hs h

/-- An automaton that gives every path the same value follows a path as far as a value is ahead. -/
theorem exists_walk (heq : ∀ w, b.lookup w = a.lookup w) {v w : Bytes} {s : StateId} {x : Value}
    (hs : a.walk 0 v = some s) (hx : a.valueFrom s w = some x) : ∃ r, b.walk 0 v = some r := by
  have hb : b.lookup (v ++ w) = some x := by rw [heq, lookup_append hs, hx]
  rw [lookup_eq_pathValue, ← walk_bind_output, walk_append] at hb
  obtain ⟨t, ht, -⟩ := Option.bind_eq_some_iff.1 hb
  obtain ⟨r, hr, -⟩ := Option.bind_eq_some_iff.1 ht
  exact ⟨r, hr⟩

/-- Two automata that give every path the same value: if every state of the one is on a path that
the other follows, and paths tell its states apart, then it has no more states. -/
theorem size_le_of_told (hb : b.WellFormed) (hpos : 0 < b.size)
    (heq : ∀ w, b.lookup w = a.lookup w)
    (hreach : ∀ s < a.size, ∃ v r, a.walk 0 v = some s ∧ b.walk 0 v = some r)
    (htold : ∀ p < a.size, ∀ q < a.size, a.valueFrom p = a.valueFrom q → p = q) :
    a.size ≤ b.size := by
  choose v r hv hr using fun s : Fin a.size => hreach s s.isLt
  have hvalue : ∀ (s : Fin a.size) w, a.valueFrom s w = b.valueFrom (r s) w := fun s w => by
    rw [← lookup_append (hv s), ← heq, lookup_append (hr s)]
  have hinj : Function.Injective fun s => (⟨r s, walk_lt hb hpos (hr s)⟩ : Fin b.size) := by
    intro s t hst
    have hrst : r s = r t := congrArg Fin.val hst
    refine Fin.ext (htold s s.isLt t t.isLt (funext fun w => ?_))
    rw [hvalue, hvalue, hrst]
  have hcard := Fintype.card_le_of_injective _ hinj
  rwa [Fintype.card_fin, Fintype.card_fin] at hcard

end Automaton

namespace Sparse

section Dense

variable {p : Sparse} (hp : p.Trim)

include hp

theorem Trim.valueFrom_rank {s : StateId} (hs : p.Live s) (u : List Symbol) :
    p.dense.valueFrom (p.rank s) (u.map byteOf) = p.valueFrom s u := by
  rw [Automaton.valueFrom, Automaton.walk_bind_output, pathValue_map_byteOf]
  exact (image_dense hp.wellFormed).valueAlong_eq hs u

theorem Trim.exists_walk_dense {i : StateId} (hi : i < p.dense.size) :
    ∃ w, p.dense.walk 0 w = some i :=
  Reached.exists_walk_dense (fun _ hs => hp.reached hs) hp.wellFormed hi

theorem Trim.exists_value_dense {i : StateId} (hi : i < p.dense.size) (hne : i ≠ 0) :
    ∃ w v, p.dense.valueFrom i w = some v := by
  obtain ⟨s, state, hs, rfl⟩ := exists_rank hi
  have hs0 : s ≠ 0 := by
    rintro rfl
    exact hne rfl
  obtain ⟨u, v, hv⟩ := hp.exists_value ⟨state, hs⟩ hs0
  exact ⟨u.map byteOf, v, (hp.valueFrom_rank ⟨state, hs⟩ u).trans hv⟩

/-- Words tell any two states apart. -/
theorem Trim.exists_told_dense (hr : p.Rigid) {i j : StateId} (hi : i < p.dense.size)
    (hj : j < p.dense.size) (hne : i ≠ j) :
    ∃ w, 0 ∉ w ∧ p.dense.valueFrom i w ≠ p.dense.valueFrom j w := by
  obtain ⟨s, state, hs, rfl⟩ := exists_rank hi
  obtain ⟨t, state', ht, rfl⟩ := exists_rank hj
  have hvalues : p.valueFrom s ≠ p.valueFrom t := by
    intro h
    exact hne (congrArg p.rank (hp.eq_of_values hr ⟨state, hs⟩ ⟨state', ht⟩ h))
  obtain ⟨u, hu⟩ := Function.ne_iff.1 hvalues
  refine ⟨u.map byteOf, zero_notMem_map_byteOf u, ?_⟩
  rwa [hp.valueFrom_rank ⟨state, hs⟩, hp.valueFrom_rank ⟨state', ht⟩]

end Dense

end Sparse

/-! ## The automaton of a compiled table -/

namespace RuleTable

variable (t : RuleTable)

theorem trim_normalize : (Automaton.ofTable t).prune.normalize.Trim := t.trim_prune.normalize

/-- No automaton with the values of a table has fewer states than the reduced one. -/
theorem size_reduce_least {b : Automaton} (hb : b.WellFormed) (hpos : 0 < b.size)
    (heq : ∀ w, b.lookup w = (Automaton.ofTable t).reduce.lookup w) :
    (Automaton.ofTable t).reduce.size ≤ b.size := by
  have hp := t.trim_normalize
  refine Automaton.size_le_of_told hb hpos heq (fun s hs => ?_) fun p hpl q hql h => ?_
  · by_cases h0 : s = 0
    · exact ⟨[], 0, h0 ▸ rfl, rfl⟩
    · obtain ⟨v, hv⟩ := hp.exists_walk_dense hs
      obtain ⟨w, x, hx⟩ := hp.exists_value_dense hs h0
      obtain ⟨r, hr⟩ := Automaton.exists_walk heq hv hx
      exact ⟨v, r, hv, hr⟩
  · by_contra hne
    obtain ⟨w, -, hw⟩ := hp.exists_told_dense (Sparse.rigid_normalize _) hpl hql hne
    exact hw (congrFun h w)

/-- In the automaton of a compiled table a path leads to every state, a path without zero bytes has
different values from any two states, and no automaton that gives every path the same value has
fewer states. -/
theorem compile_minimal (h : (Automaton.ofTable t).size ≤ Builder.capacity) :
    ∃ c, t.compile? = some c ∧
      (∀ s < c.automaton.size, ∃ w, c.automaton.walk 0 w = some s) ∧
      (∀ p < c.automaton.size, ∀ q < c.automaton.size, p ≠ q →
        ∃ w, 0 ∉ w ∧ c.automaton.valueFrom p w ≠ c.automaton.valueFrom q w) ∧
      ∀ b : Automaton, b.WellFormed → 0 < b.size →
        (∀ w, b.lookup w = c.automaton.lookup w) → c.automaton.size ≤ b.size := by
  have hp := t.trim_normalize
  refine ⟨_, t.compile?_eq h, fun s hs => hp.exists_walk_dense hs, fun p hpl q hql hne => ?_,
    fun b hb hpos heq => t.size_reduce_least hb hpos heq⟩
  exact hp.exists_told_dense (Sparse.rigid_normalize _) hpl hql hne

theorem compile_minimal_nested :
    (Automaton.ofTable nested).size ≤ Builder.capacity ∧
      ∃ c, nested.compile? = some c ∧
        (∀ s < c.automaton.size, ∃ w, c.automaton.walk 0 w = some s) ∧
        (∀ p < c.automaton.size, ∀ q < c.automaton.size, p ≠ q →
          ∃ w, 0 ∉ w ∧ c.automaton.valueFrom p w ≠ c.automaton.valueFrom q w) ∧
        ∀ b : Automaton, b.WellFormed → 0 < b.size →
          (∀ w, b.lookup w = c.automaton.lookup w) → c.automaton.size ≤ b.size :=
  ⟨Nat.le_of_lt size_nested_lt, nested.compile_minimal (Nat.le_of_lt size_nested_lt)⟩

end RuleTable

end PathPolicy
