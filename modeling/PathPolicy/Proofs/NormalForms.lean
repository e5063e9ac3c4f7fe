import PathPolicy.Proofs.CheckedReduction
import PathPolicy.Proofs.Minimality

/-!
# Normal forms of automata

In an automaton in normal form (`Automaton.Normal`) every state is reached, no two states have the
same value and the same row, and the only catch-all states are sinks. Reduction leads to a normal
form: identification ends where neither key is found twice, numbering the states that are left
changes neither keys nor words, and what sound representatives stand for stays reached although
unreached states are dropped at the start only. A normal form is its own reduction
(`Automaton.Normal.reduce_eq`), so reducing twice is reducing once.

The states of a reduced automaton are states of the automaton that was reduced, in their order
(`Automaton.Survivors`).
-/

namespace PathPolicy

/-! ## Normal forms -/

namespace Automaton

/-- Nothing is left to reduce. Rows are compared by their arrows, in which a state that leads to
itself is marked as doing so. -/
structure Normal (a : Automaton) : Prop where
  reached : ∀ s < a.size, ∃ w, a.walk 0 w = some s
  distinct : ∀ s < a.size, ∀ t < a.size, a.output s = a.output t →
    (∀ c, Sparse.arrow s (a.step s c) = Sparse.arrow t (a.step t c)) → s = t
  catchAll : ∀ s t, (∀ c, a.step s c = some t) → (∀ c, a.step t c = some t) →
    a.output s = a.output t → ∀ c, a.step s c = some s

/-- How the states of `b` come from states of `a`. State `i` is the state `origin i`, with every
target led to the state that stands for it, and no path leads to a state before the one that stands
for it; the order of the states is kept. -/
structure Survivors (a b : Automaton) (origin image : StateId → StateId) : Prop where
  reached : ∀ i < b.size, ∃ w, a.walk 0 w = some (origin i)
  origin_lt : ∀ i j, i < j → j < b.size → origin i < origin j
  image_lt : ∀ w s, a.walk 0 w = some s → image s < b.size
  image_origin : ∀ i < b.size, image (origin i) = i
  origin_image_le : ∀ w s, a.walk 0 w = some s → origin (image s) ≤ s
  output : ∀ i < b.size, b.output i = a.output (origin i)
  step : ∀ i < b.size, ∀ c, b.step i c = (a.step (origin i) c).map image

end Automaton

/-! ## Dense numbers keep the keys apart -/

namespace Sparse

variable {p : Sparse}

/-- Arrows are renamed with the targets, as far as the new names tell the states apart. -/
theorem arrow_map_eq_iff {f : StateId → StateId} {i j : StateId} {s t : Option StateId}
    (hs : s.map f = some (f i) ↔ s = some i) (ht : t.map f = some (f j) ↔ t = some j)
    (hst : s.map f = t.map f ↔ s = t) :
    arrow (f i) (s.map f) = arrow (f j) (t.map f) ↔ arrow i s = arrow j t := by
  unfold arrow
  simp only [hs, ht]
  split <;> split <;> simp only [reduceCtorEq, Option.some.injEq, hst]

section Dense

variable (hp : p.WellFormed)

include hp

theorem map_rank_inj {i j : StateId} {c d : Symbol} :
    (p.step i c).map p.rank = (p.step j d).map p.rank ↔ p.step i c = p.step j d := by
  refine ⟨fun h => ?_, congrArg _⟩
  cases hi : p.step i c with
  | none =>
    rw [hi] at h
    exact (Option.map_eq_none_iff.1 h.symm).symm
  | some s =>
    rw [hi] at h
    obtain ⟨t, ht, hrank⟩ := Option.map_eq_some_iff.1 h.symm
    rw [ht, rank_inj (hp.target ht) (hp.target hi) hrank]

theorem map_rank_eq_some_iff {i j : StateId} {c : Symbol} (hj : p.Live j) :
    (p.step i c).map p.rank = some (p.rank j) ↔ p.step i c = some j := by
  refine ⟨fun h => ?_, fun h => by rw [h, Option.map_some]⟩
  obtain ⟨t, ht, hrank⟩ := Option.map_eq_some_iff.1 h
  rw [ht, rank_inj (hp.target ht) hj hrank]

theorem Rigid.normal_dense (hrigid : p.Rigid) (hreached : p.Reached) : p.dense.Normal where
  reached := fun s hs => hreached.exists_walk_dense hp hs
  distinct := by
    intro i hi j hj hout harrow
    obtain ⟨s, state, hs, rfl⟩ := exists_rank hi
    obtain ⟨t, state', ht, rfl⟩ := exists_rank hj
    rw [output_dense hs, output_dense ht, output_of_get? hs, output_of_get? ht] at hout
    refine congrArg p.rank (hrigid.eq_of_shapeOf hs ht (shapeOf_eq hout fun c => ?_))
    have hc := harrow c
    rw [step_dense hp hs, step_dense hp ht,
      arrow_map_eq_iff (map_rank_eq_some_iff hp ⟨_, hs⟩) (map_rank_eq_some_iff hp ⟨_, ht⟩)
        (map_rank_inj hp), step_of_get? hs, step_of_get? ht] at hc
    exact hc
  catchAll := by
    intro i j hi hj hout
    have lt_of_step : ∀ {r r'}, p.dense.step r 0 = some r' → r < p.dense.size := by
      intro r r' hr
      obtain ⟨_, hget, -⟩ := Automaton.step_eq_some hr
      exact (Array.getElem?_eq_some_iff.1 hget).1
    obtain ⟨s, state, hs, rfl⟩ := exists_rank (lt_of_step (hi 0))
    obtain ⟨t, sink, ht, rfl⟩ := exists_rank (lt_of_step (hj 0))
    -- before the states were numbered, the one was a catch-all state for the other
    have hrow : ∀ {r : StateId} {found : State}, p.get? r = some found →
        (∀ c, p.dense.step (p.rank r) c = some (p.rank t)) →
          ∀ c : Symbol, found.row[c] = some t := by
      intro r found hr h c
      have hc := h c
      rw [step_dense hp hr, map_rank_eq_some_iff hp ⟨_, ht⟩] at hc
      rw [← step_of_get? hr, hc]
    rw [output_dense hs, output_dense ht, output_of_get? hs, output_of_get? ht] at hout
    obtain rfl : s = t := hrigid.eq_of_sinkOf hs ht
      (sinkOf_eq_some_iff.2 ⟨hrow hs hi, sink, ht, hrow ht hj, hout⟩)
      (sinkOf_eq_some_iff.2 ⟨hrow ht hj, sink, ht, hrow ht hj, rfl⟩)
    exact hi

end Dense

/-! ## Where nothing is identified -/

theorem identify_eq_self {κ : Type} [BEq κ] [LawfulBEq κ] [Hashable κ]
    {key : StateId → State → Option κ}
    (h : ∀ {i j s t k}, p.get? i = some s → p.get? j = some t → key i s = some k →
      key j t = some k → i = j) : p.identify key = p := by
  refine redirect_eq_self fun i => ?_
  rcases repOf_cases (p.keys key) i with hself | ⟨k, hk⟩
  · exact hself
  · obtain ⟨s, hs, hks⟩ := getElem?_keys.1 hk
    obtain ⟨t, ht, hkt⟩ := getElem?_keys.1 (key_repOf hk).1
    exact h ht hs hkt hks

theorem shrink_eq_self {f : Sparse → Sparse} (h : f p = p) : shrink f p = p := by
  unfold shrink
  simp only [h, Nat.lt_irrefl, if_false]

theorem normalize_eq_self (hcollapse : p.collapse = p) (hmerge : p.merge = p) :
    p.normalize = p := by
  refine shrink_eq_self ?_
  rw [shrink_eq_self hcollapse, shrink_eq_self hmerge]

theorem rank_eq_self (hfull : ∀ slot ∈ p.slots, slot.isSome = true) {s : StateId}
    (hs : s ≤ p.slots.size) : p.rank s = s := by
  unfold rank
  rw [List.countP_eq_length.2 fun slot hslot =>
    hfull slot (Array.mem_toList_iff.1 (List.mem_of_mem_take hslot)), List.length_take,
    Array.length_toList, Nat.min_eq_left hs]

theorem dense_states_of_full (hp : p.WellFormed) (hfull : ∀ slot ∈ p.slots, slot.isSome = true) :
    ∀ s, p.dense.states[s]? = p.get? s := by
  have hsize : p.dense.states.size = p.slots.size := by
    refine (dense_size p).trans ?_
    exact Array.countP_eq_size.2 hfull
  intro s
  by_cases hlt : s < p.slots.size
  · obtain ⟨state, hstate⟩ := Option.isSome_iff_exists.1 (hfull _ (Array.getElem_mem hlt))
    have hs : p.get? s = some state := get?_of_getElem hlt hstate
    have hdense := getElem?_dense hs
    rw [rank_eq_self hfull (Nat.le_of_lt hlt)] at hdense
    -- every target is a state, so it has its own number for its rank
    have hrow : (state.row.map (·.map fun t => p.ranks.getD t t)) = state.row := by
      refine Vector.ext fun c hc => ?_
      rw [Vector.getElem_map]
      cases ht : state.row[c] with
      | none => rfl
      | some t =>
        have hlive : p.Live t := hp.target ((step_of_get? hs ⟨c, hc⟩).trans ht)
        have ht' : t ≤ p.slots.size := by
          obtain ⟨_, htget⟩ := hlive
          exact Nat.le_of_lt (Array.getElem?_eq_some_iff.1 (Option.join_eq_some_iff.1 htget)).1
        rw [Option.map_some, ranks_getD hlive, rank_eq_self hfull ht']
    rw [hdense, hs, hrow]
  · unfold get?
    rw [Array.getElem?_eq_none (hsize ▸ Nat.not_lt.1 hlt),
      Array.getElem?_eq_none (Nat.not_lt.1 hlt)]
    rfl

end Sparse

namespace Automaton

variable {a : Automaton}

/-- What is not dropped for being out of reach is what paths lead to. -/
theorem live_prune_iff_exists_walk (ha : a.WellFormed) (hpos : 0 < a.size) {s : StateId} :
    a.prune.Live s ↔ ∃ w, a.walk 0 w = some s := by
  constructor
  · intro hs
    obtain ⟨u, hu⟩ := exists_stepsAlong (live_prune_iff.1 hs).1
    exact ⟨u.map byteOf, (walk_map_byteOf _ _ _).trans hu⟩
  · rintro ⟨w, hw⟩
    obtain ⟨h0, hclosed⟩ := reachable_closed ha hpos
    exact live_prune_iff.2
      ⟨walk_holds hclosed h0 hw, walk_holds (fun _ hst => ha _ _ _ hst) hpos hw⟩

section Normal

variable (hn : a.Normal) (ha : a.WellFormed) (hpos : 0 < a.size)

include hn ha hpos

theorem Normal.get?_prune (s : StateId) : a.prune.get? s = a.states[s]? := by
  classical
  rw [Automaton.get?_prune]
  split
  · rfl
  · rename_i hmarked
    refine (Array.getElem?_eq_none (Nat.not_lt.1 fun hlt => hmarked ?_)).symm
    have hlive := (live_prune_iff_exists_walk ha hpos).2 (hn.reached s hlt)
    exact (live_prune_iff.1 hlive).1

theorem Normal.collapse_prune : a.prune.collapse = a.prune := by
  have hget := hn.get?_prune ha hpos
  -- a state that is a catch-all for a sink is the sink
  have hself : ∀ {i s k}, a.prune.get? i = some s → a.prune.sinkOf i s = some k → i = k := by
    intro i s k hi hk
    obtain ⟨hrow, sink, hsink, hloop, hout⟩ := Sparse.sinkOf_eq_some_iff.1 hk
    rw [hget] at hi hsink
    have hstep := fun c => (step_of_getElem? hi c).trans (hrow c)
    have hself := hn.catchAll i k hstep (fun c => (step_of_getElem? hsink c).trans (hloop c))
      (by rw [output, output, hi, hsink]; exact hout) 0
    exact Option.some.inj (hself.symm.trans (hstep 0))
  exact Sparse.identify_eq_self fun hi hj hki hkj => (hself hi hki).trans (hself hj hkj).symm

theorem Normal.merge_prune : a.prune.merge = a.prune := by
  have hget := hn.get?_prune ha hpos
  refine Sparse.identify_eq_self fun {i j s t k} hi hj hki hkj => ?_
  have hshape := Option.some.inj (hki.trans hkj.symm)
  rw [hget] at hi hj
  refine hn.distinct i (Array.getElem?_eq_some_iff.1 hi).1 j (Array.getElem?_eq_some_iff.1 hj).1
    ?_ fun c => ?_
  · rw [output, output, hi, hj]
    exact congrArg Sparse.Shape.output hshape
  · rw [step_of_getElem? hi, step_of_getElem? hj]
    exact Sparse.arrow_eq_of_shapeOf_eq hshape c

/-- A normal form is its own reduction. -/
theorem Normal.reduce_eq : a.reduce = a := by
  have hget := hn.get?_prune ha hpos
  have hfull : ∀ slot ∈ a.prune.slots, slot.isSome = true := by
    intro slot hslot
    obtain ⟨i, hi, rfl⟩ := Array.getElem_of_mem hslot
    have hlt : i < a.states.size := Nat.lt_of_lt_of_eq hi Array.size_mapIdx
    have hslot := (hget i).trans (Array.getElem?_eq_getElem hlt)
    obtain ⟨_, hsome⟩ := Array.getElem?_eq_some_iff.1 (Option.join_eq_some_iff.1 hslot)
    rw [hsome]
    rfl
  have hstates : a.prune.dense.states = a.states := by
    refine Array.ext_getElem? fun s => ?_
    rw [Sparse.dense_states_of_full (wellFormed_prune ha hpos) hfull, hget]
  unfold reduce
  rw [Sparse.normalize_eq_self (hn.collapse_prune ha hpos) (hn.merge_prune ha hpos)]
  exact congrArg Automaton.mk hstates

end Normal

/-! ## Reduction leads to normal forms -/

section Reduce

variable (ha : a.WellFormed) (hpos : 0 < a.size)

include ha hpos

theorem normal_reduce : a.reduce.Normal :=
  (Sparse.rigid_normalize _).normal_dense (refines_normalize_prune ha hpos).wellFormed
    ((reached_prune ha hpos).normalize (wellFormed_prune ha hpos))

/-- The fixed points of reduction are the normal forms. -/
theorem reduce_eq_self_iff : a.reduce = a ↔ a.Normal :=
  ⟨fun h => h ▸ normal_reduce ha hpos, fun h => h.reduce_eq ha hpos⟩

/-- A state that is left has the value that it had, and its targets are led to their images. -/
theorem reduce_of_image {f : StateId → StateId} {s : StateId}
    (hf : Image a.prune.step a.prune.output a.prune.normalize.step a.prune.normalize.output
      a.prune.Live f) (hs : a.prune.normalize.Live s) (hprune : a.prune.Live s) (hself : f s = s) :
    a.reduce.output (a.prune.normalize.rank s) = a.output s ∧
      ∀ c, a.reduce.step (a.prune.normalize.rank s) c =
        (a.step s c).map fun t => a.prune.normalize.rank (f t) := by
  obtain ⟨state, hget⟩ := hs
  have hmarked := (live_prune_iff.1 hprune).1
  have hq := (refines_normalize_prune ha hpos).wellFormed
  constructor
  · have hout := hf.output hprune
    rw [hself, output_prune hmarked] at hout
    exact (Sparse.output_dense hget).trans hout
  · intro c
    have hstep := hf.step hprune c
    rw [hself, step_prune hmarked] at hstep
    refine (Sparse.step_dense hq hget c).trans ?_
    rw [hstep, Option.map_map]
    rfl

theorem exists_survivors : ∃ origin image, a.Survivors a.reduce origin image := by
  obtain ⟨f, hle, hlive, hself, hf⟩ := Sparse.retracts_normalize (wellFormed_prune ha hpos)
  have hexists : ∀ i, i < a.reduce.size → ∃ s, a.prune.normalize.Live s ∧
      a.prune.normalize.rank s = i := by
    intro i hi
    obtain ⟨s, state, hs, hi⟩ := Sparse.exists_rank hi
    exact ⟨s, ⟨state, hs⟩, hi⟩
  choose! origin horigin hrank using hexists
  have himage : ∀ {w s}, a.walk 0 w = some s → a.prune.normalize.Live (f s) := fun hw =>
    hlive _ ((live_prune_iff_exists_walk ha hpos).2 ⟨_, hw⟩)
  have hreduce : ∀ i < a.reduce.size, a.reduce.output i = a.output (origin i) ∧
      ∀ c, a.reduce.step i c =
        (a.step (origin i) c).map fun t => a.prune.normalize.rank (f t) := by
    intro i hi
    obtain ⟨hprune, hfix⟩ := hself _ (horigin i hi)
    have hstate := reduce_of_image ha hpos hf (horigin i hi) hprune hfix
    rwa [hrank i hi] at hstate
  refine ⟨origin, fun s => a.prune.normalize.rank (f s), fun i hi => ?_, fun i j hij hj => ?_,
    fun w s hw => Sparse.rank_lt (himage hw), fun i hi => ?_, fun w s hw => ?_,
    fun i hi => (hreduce i hi).1, fun i hi => (hreduce i hi).2⟩
  · exact (live_prune_iff_exists_walk ha hpos).1 (hself _ (horigin i hi)).1
  · have hlt : a.prune.normalize.rank (origin i) < a.prune.normalize.rank (origin j) := by
      rwa [hrank i (Nat.lt_trans hij hj), hrank j hj]
    exact Sparse.lt_of_rank_lt_rank hlt
  · rw [(hself _ (horigin i hi)).2, hrank i hi]
  · have hlt := Sparse.rank_lt (himage hw)
    rw [Sparse.rank_inj (horigin _ hlt) (himage hw) (hrank _ hlt)]
    exact hle s

/-- Reduction of a well-formed automaton comes to an end with a normal form. Its states are states of
the automaton in their order, each with the value that it had and with targets led to the states that
stand for them. Reducing it again comes to an end with the same automaton. -/
theorem reduce_normal :
    a.reduce? = Part.some a.reduce ∧ a.reduce.Normal ∧
      (∃ origin image, a.Survivors a.reduce origin image) ∧
      a.reduce.reduce? = Part.some a.reduce ∧ a.reduce.reduce = a.reduce := by
  have hwell := wellFormed_reduce ha hpos
  have hsize := size_reduce_pos ha hpos
  have heq := (reduce_eq_self_iff hwell hsize).2 (normal_reduce ha hpos)
  refine ⟨reduce?_eq ha hpos, normal_reduce ha hpos, exists_survivors ha hpos, ?_, heq⟩
  rw [reduce?_eq hwell hsize, heq]

end Reduce

theorem reduce_normal_tangled :
    tangled.WellFormed ∧ 0 < tangled.size ∧
      tangled.reduce? = Part.some tangled.reduce ∧ tangled.reduce.Normal ∧
      (∃ origin image, tangled.Survivors tangled.reduce origin image) ∧
      tangled.reduce.reduce? = Part.some tangled.reduce ∧ tangled.reduce.reduce = tangled.reduce :=
  ⟨wellFormed_tangled, by decide, reduce_normal wellFormed_tangled (by decide)⟩

end Automaton

end PathPolicy
