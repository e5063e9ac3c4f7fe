import PathPolicy.Proofs.Identification

/-!
# Reduction keeps every value

What the start reaches is closed under steps, so dropping the rest changes nothing; identification
keeps all values however often it is repeated; and the states that are left can be numbered densely.
So the reduced automaton of any well-formed automaton is well formed, has no more states and gives
every path the same value (`Automaton.reduce_lookup`).
-/

namespace PathPolicy

/-! ## Marks -/

namespace Marks

def Marked (marks : Marks) (s : StateId) : Prop := marks[s]? = some true

theorem size_add (marks : Marks) (s : StateId) : (marks.add s).size = marks.size :=
  Array.size_setIfInBounds

theorem marked_add_iff {marks : Marks} {s t : StateId} :
    (marks.add s).Marked t ↔ marks.Marked t ∨ s = t ∧ t < marks.size := by
  unfold Marked add
  rw [Array.getElem?_setIfInBounds]
  by_cases h : s = t
  · subst h
    rw [if_pos rfl]
    by_cases hlt : s < marks.size
    · rw [if_pos hlt]
      exact ⟨fun _ => .inr ⟨rfl, hlt⟩, fun _ => rfl⟩
    · rw [if_neg hlt]
      constructor
      · intro h
        cases h
      · rintro (h | ⟨-, h⟩)
        · exact absurd (Array.getElem?_eq_some_iff.1 h).1 hlt
        · exact absurd h hlt
  · rw [if_neg h]
    exact ⟨.inl, fun h' => h'.resolve_right fun h' => h h'.1⟩

theorem isOpen_iff {marks : Marks} {s : StateId} :
    marks.isOpen s = true ↔ s < marks.size ∧ ¬ marks.Marked s := by
  unfold isOpen Marked
  rw [beq_iff_eq]
  constructor
  · intro h
    refine ⟨(Array.getElem?_eq_some_iff.1 h).1, fun h' => ?_⟩
    rw [h] at h'
    cases h'
  · rintro ⟨hlt, h⟩
    rw [Array.getElem?_eq_getElem hlt] at h ⊢
    cases hv : marks[s] with
    | false => rfl
    | true => exact absurd (congrArg some hv) h

theorem size_blank (n : Nat) : (blank n).size = n := Array.size_replicate

theorem not_marked_blank (n : Nat) (s : StateId) : ¬ (blank n).Marked s := by
  unfold Marked blank
  rw [Array.getElem?_replicate]
  split <;> exact nofun

end Marks

/-! ## What the start reaches -/

theorem Row.mem_targets {row : Row} {c : Symbol} {t : StateId} (h : row[c] = some t) :
    t ∈ row.targets := by
  unfold targets
  rw [List.mem_eraseDups, List.mem_filterMap]
  exact ⟨some t, h ▸ Vector.mem_toList_iff.2 (Vector.getElem_mem c.isLt), rfl⟩

theorem Row.exists_of_mem_targets {row : Row} {t : StateId} (h : t ∈ row.targets) :
    ∃ c : Symbol, row[c] = some t := by
  unfold targets at h
  rw [List.mem_eraseDups, List.mem_filterMap] at h
  obtain ⟨e, he, rfl⟩ := h
  obtain ⟨i, hi, hit⟩ := Vector.getElem_of_mem (Vector.mem_toList_iff.1 he)
  exact ⟨⟨i, hi⟩, hit⟩

namespace Automaton

variable {a : Automaton}

theorem step_eq_some {s : StateId} {c : Symbol} {t : StateId} (h : a.step s c = some t) :
    ∃ state, a.states[s]? = some state ∧ state.row[c] = some t := by
  unfold step at h
  cases hs : a.states[s]? with
  | none =>
    rw [hs] at h
    cases h
  | some state =>
    rw [hs] at h
    exact ⟨state, rfl, h⟩

theorem step_of_getElem? {s : StateId} {state : State} (h : a.states[s]? = some state)
    (c : Symbol) : a.step s c = state.row[c] := by
  unfold step
  rw [h]

/-- What a visit may rely on: the stack holds states, and what a marked state leads to is marked or
waits on the stack. -/
structure Visiting (a : Automaton) (seen : Marks) (stack : List StateId) : Prop where
  size : seen.size = a.size
  stack_lt : ∀ t ∈ stack, t < a.size
  closed : ∀ {s c t}, seen.Marked s → a.step s c = some t → seen.Marked t ∨ t ∈ stack

section Visiting

variable {seen : Marks} {s : StateId} {rest : List StateId}

theorem Visiting.lt_size (h : a.Visiting seen (s :: rest)) : s < seen.size :=
  h.size ▸ h.stack_lt s List.mem_cons_self

/-- A state is marked, and what it leads to goes on the stack. -/
theorem Visiting.add (h : a.Visiting seen (s :: rest)) (ha : a.WellFormed) {state : State}
    (hget : a.states[s]? = some state) :
    a.Visiting (seen.add s) (state.row.targets ++ rest) where
  size := (Marks.size_add seen s).trans h.size
  stack_lt := by
    intro t ht
    rcases List.mem_append.1 ht with ht | ht
    · obtain ⟨c, hc⟩ := Row.exists_of_mem_targets ht
      exact ha s c t ((step_of_getElem? hget c).trans hc)
    · exact h.stack_lt t (List.mem_cons_of_mem s ht)
  closed := by
    intro s' c t hs' hst
    rcases Marks.marked_add_iff.1 hs' with hs' | ⟨rfl, -⟩
    · rcases h.closed hs' hst with ht | ht
      · exact .inl (Marks.marked_add_iff.2 (.inl ht))
      · rcases List.mem_cons.1 ht with rfl | ht
        · exact .inl (Marks.marked_add_iff.2 (.inr ⟨rfl, h.lt_size⟩))
        · exact .inr (List.mem_append_right _ ht)
    · rw [step_of_getElem? hget] at hst
      exact .inr (List.mem_append_left _ (Row.mem_targets hst))

theorem Visiting.skip (h : a.Visiting seen (s :: rest)) (hs : seen.Marked s) :
    a.Visiting seen rest where
  size := h.size
  stack_lt := fun t ht => h.stack_lt t (List.mem_cons_of_mem s ht)
  closed := by
    intro s' c t hs' hst
    rcases h.closed hs' hst with ht | ht
    · exact .inl ht
    · rcases List.mem_cons.1 ht with rfl | ht
      · exact .inl hs
      · exact .inr ht

end Visiting

theorem Visiting.visit (ha : a.WellFormed) {seen : Marks} {stack : List StateId}
    (h : a.Visiting seen stack) :
    a.Visiting (a.visit seen stack) [] ∧
      ∀ s, seen.Marked s ∨ s ∈ stack → (a.visit seen stack).Marked s := by
  fun_induction Automaton.visit a seen stack with
  | case1 seen =>
    refine ⟨h, fun s hs => hs.resolve_right List.not_mem_nil⟩
  | case2 seen s rest hopen _ ih =>
    have hlt : s < a.states.size := Nat.lt_of_lt_of_eq h.lt_size h.size
    have hget : a.states[s]? = some a.states[s] := Array.getElem?_eq_getElem hlt
    rw [hget] at ih ⊢
    obtain ⟨hdone, hmarked⟩ := ih (h.add ha hget)
    refine ⟨hdone, fun s' hs' => hmarked s' ?_⟩
    rcases hs' with hs' | hs'
    · exact .inl (Marks.marked_add_iff.2 (.inl hs'))
    · rcases List.mem_cons.1 hs' with rfl | hs'
      · exact .inl (Marks.marked_add_iff.2 (.inr ⟨rfl, h.lt_size⟩))
      · exact .inr (List.mem_append_right _ hs')
  | case3 seen s rest hnot ih =>
    have hmarked : seen.Marked s := by
      by_contra hs
      exact hnot (Marks.isOpen_iff.2 ⟨h.lt_size, hs⟩)
    obtain ⟨hdone, hall⟩ := ih (h.skip hmarked)
    refine ⟨hdone, fun s' hs' => hall s' ?_⟩
    rcases hs' with hs' | hs'
    · exact .inl hs'
    · rcases List.mem_cons.1 hs' with rfl | hs'
      · exact .inl hmarked
      · exact .inr hs'

/-- The start is reached, and so is what a reached state leads to. -/
theorem reachable_closed (ha : a.WellFormed) (hpos : 0 < a.size) :
    a.reachable.Marked 0 ∧
      ∀ {s c t}, a.reachable.Marked s → a.step s c = some t → a.reachable.Marked t := by
  have hstart : a.Visiting (Marks.blank a.size) [0] := by
    refine ⟨Marks.size_blank a.size, fun t ht => ?_, fun hs => ?_⟩
    · rw [List.mem_singleton.1 ht]
      exact hpos
    · exact absurd hs (Marks.not_marked_blank _ _)
  obtain ⟨hdone, hmarked⟩ := hstart.visit ha
  refine ⟨hmarked 0 (.inr List.mem_cons_self), fun hs hst => ?_⟩
  exact (hdone.closed hs hst).resolve_right List.not_mem_nil

/-- A visit marks nothing that a property closed under steps does not hold of. -/
theorem holds_visit {P : StateId → Prop} (hP : ∀ {s c t}, P s → a.step s c = some t → P t)
    {seen : Marks} {stack : List StateId} (hseen : ∀ s, seen.Marked s → P s)
    (hstack : ∀ s ∈ stack, P s) {s : StateId} (hs : (a.visit seen stack).Marked s) : P s := by
  fun_induction Automaton.visit a seen stack with
  | case1 seen => exact hseen s hs
  | case2 seen r rest hopen _ ih =>
    obtain ⟨hr, hrest⟩ := List.forall_mem_cons.1 hstack
    refine ih (fun t ht => ?_) (fun t ht => ?_) hs
    · rcases Marks.marked_add_iff.1 ht with ht | ⟨rfl, -⟩
      · exact hseen t ht
      · exact hr
    · rcases List.mem_append.1 ht with ht | ht
      · cases hget : a.states[r]? with
        | none =>
          rw [hget] at ht
          cases ht
        | some state =>
          rw [hget] at ht
          obtain ⟨c, hc⟩ := Row.exists_of_mem_targets ht
          exact hP hr ((step_of_getElem? hget c).trans hc)
      · exact hrest t ht
  | case3 seen r rest hnot ih => exact ih hseen (List.forall_mem_cons.1 hstack).2 hs

/-- What is reached is in every set that the start is in and that steps do not leave. -/
theorem reachable_least {P : StateId → Prop} (h0 : P 0)
    (hP : ∀ {s c t}, P s → a.step s c = some t → P t) {s : StateId}
    (hs : a.reachable.Marked s) : P s := by
  refine holds_visit hP (fun t ht => absurd ht (Marks.not_marked_blank _ _)) (fun t ht => ?_) hs
  rw [List.mem_singleton.1 ht]
  exact h0

theorem exists_stepsAlong {s : StateId} (hs : a.reachable.Marked s) :
    ∃ u, stepsAlong a.step 0 u = some s := by
  refine reachable_least (P := fun s => ∃ u, stepsAlong a.step 0 u = some s) ⟨[], rfl⟩ ?_ hs
  rintro s c t ⟨u, hu⟩ hst
  refine ⟨u ++ [c], ?_⟩
  rw [stepsAlong_append, hu, Option.bind_some, stepsAlong, hst]
  rfl

/-! ## Dropping what the start does not reach -/

theorem get?_prune (a : Automaton) (s : StateId) [Decidable (a.reachable.Marked s)] :
    a.prune.get? s = if a.reachable.Marked s then a.states[s]? else none := by
  show (((a.states.mapIdx _))[s]?).join = _
  rw [Array.getElem?_mapIdx]
  have hmark : a.reachable.getD s false = true ↔ a.reachable.Marked s := by
    unfold Marks.Marked
    rw [Array.getD_eq_getD_getElem?]
    cases a.reachable[s]? <;> simp
  cases a.states[s]? with
  | none => exact (ite_self none).symm
  | some state =>
    by_cases h : a.reachable.Marked s
    · rw [if_pos h]
      exact if_pos (hmark.2 h)
    · rw [if_neg h]
      exact if_neg (mt hmark.1 h)

theorem step_prune {s : StateId} (h : a.reachable.Marked s) (c : Symbol) :
    a.prune.step s c = a.step s c := by
  classical
  unfold Sparse.step step
  rw [get?_prune, if_pos h]
  cases a.states[s]? <;> rfl

theorem output_prune {s : StateId} (h : a.reachable.Marked s) :
    a.prune.output s = a.output s := by
  classical
  unfold Sparse.output output
  rw [get?_prune, if_pos h]
  cases a.states[s]? <;> rfl

theorem live_prune_iff {s : StateId} :
    a.prune.Live s ↔ a.reachable.Marked s ∧ s < a.size := by
  classical
  unfold Sparse.Live
  rw [get?_prune]
  by_cases h : a.reachable.Marked s
  · rw [if_pos h]
    constructor
    · rintro ⟨state, hs⟩
      exact ⟨h, (Array.getElem?_eq_some_iff.1 hs).1⟩
    · rintro ⟨-, hlt⟩
      exact ⟨_, Array.getElem?_eq_getElem hlt⟩
  · rw [if_neg h]
    constructor
    · rintro ⟨state, hs⟩
      cases hs
    · exact fun hs => absurd hs.1 h

theorem live_prune_le (a : Automaton) : a.prune.live ≤ a.size := by
  refine Nat.le_trans Array.countP_le_size (Nat.le_of_eq ?_)
  exact Array.size_mapIdx

theorem wellFormed_prune (ha : a.WellFormed) (hpos : 0 < a.size) : a.prune.WellFormed := by
  obtain ⟨h0, hclosed⟩ := reachable_closed ha hpos
  refine ⟨live_prune_iff.2 ⟨h0, hpos⟩, fun {s c t} hst => ?_⟩
  obtain ⟨state, hs, -⟩ := Sparse.step_eq_some hst
  obtain ⟨hmarked, -⟩ := live_prune_iff.1 ⟨state, hs⟩
  rw [step_prune hmarked] at hst
  exact live_prune_iff.2 ⟨hclosed hmarked hst, ha s c t hst⟩

theorem image_prune (ha : a.WellFormed) (hpos : 0 < a.size) :
    Image a.step a.output a.prune.step a.prune.output a.reachable.Marked id where
  closed := fun hs hst => (reachable_closed ha hpos).2 hs hst
  step := fun hs c => by rw [id_eq, step_prune hs, Option.map_id_fun, id_eq]
  output := fun hs => by rw [id_eq, output_prune hs]

theorem reached_prune (ha : a.WellFormed) (hpos : 0 < a.size) : a.prune.Reached := by
  intro s hs
  obtain ⟨u, hu⟩ := exists_stepsAlong (live_prune_iff.1 hs).1
  have hwalk := (image_prune ha hpos).stepsAlong_eq (reachable_closed ha hpos).1 u
  rw [hu, Option.map_some] at hwalk
  exact ⟨u, hwalk⟩

theorem value_prune (ha : a.WellFormed) (hpos : 0 < a.size) (u : List Symbol) :
    a.prune.value u = valueAlong a.step a.output 0 u :=
  (image_prune ha hpos).valueAlong_eq (reachable_closed ha hpos).1 u

theorem output_of_prune {s : StateId} {v : Value} (h : a.prune.output s = some v) :
    a.output s = some v := by
  obtain ⟨state, hs, -⟩ := Option.bind_eq_some_iff.1 h
  rw [← output_prune (live_prune_iff.1 ⟨state, hs⟩).1, h]

end Automaton

namespace Sparse

/-! ## Identification, repeated -/

/-- What a step keeps is kept however often it is repeated. -/
theorem shrink_keeps {P : Sparse → Prop} {f : Sparse → Sparse} (hf : ∀ q, P q → P (f q))
    {p : Sparse} (hp : P p) : P (shrink f p) := by
  fun_induction shrink f p with
  | case1 p q _ ih => exact ih (hf p hp)
  | case2 p q _ => exact hp

/-- A repeated step has dropped a state, or there was none to drop. -/
theorem shrink_cases (f : Sparse → Sparse) (p : Sparse) :
    (shrink f p).live < p.live ∨ shrink f p = p ∧ ¬ (f p).live < p.live := by
  fun_induction shrink f p with
  | case1 p q hlt ih =>
    rcases ih with ih | ⟨heq, -⟩
    · exact .inl (Nat.lt_trans ih hlt)
    · rw [heq]
      exact .inl hlt
  | case2 p q hnot => exact .inr ⟨rfl, hnot⟩

theorem not_lt_shrink (f : Sparse → Sparse) (p : Sparse) :
    ¬ (f (shrink f p)).live < (shrink f p).live := by
  fun_induction shrink f p with
  | case1 p q hlt ih => exact ih
  | case2 p q hnot => exact hnot

/-- What redirection to sound representatives keeps is kept by normalization. -/
theorem normalize_keeps {P : Sparse → Prop}
    (hP : ∀ q rep, P q → q.Sound rep → P (q.redirect rep)) {p : Sparse} (hp : P p) :
    P p.normalize := by
  refine shrink_keeps (fun q hq => ?_) hp
  refine shrink_keeps (fun r hr => hP r _ hr (sound_merge r)) ?_
  exact shrink_keeps (fun r hr => hP r _ hr (sound_collapse r)) hq

theorem refines_normalize {p : Sparse} (hp : p.WellFormed) : p.Refines p.normalize :=
  normalize_keeps (fun _ _ hq h => hq.trans (h.refines hq.wellFormed)) (Refines.refl hp)

theorem Reached.normalize {p : Sparse} (hr : p.Reached) (hp : p.WellFormed) :
    p.normalize.Reached :=
  (normalize_keeps (P := fun q => q.WellFormed ∧ q.Reached)
    (fun _ _ hq h => ⟨(h.refines hq.1).wellFormed, hq.2.redirect hq.1 h⟩) ⟨hp, hr⟩).2

/-! ## Dense numbers -/

/-- How many of the states before number `s` are left. -/
def rank (p : Sparse) (s : StateId) : Nat := (p.slots.toList.take s).countP Option.isSome

theorem foldl_ranks (l : List (Option State)) (done : Array Nat) (n : Nat) :
    (l.foldl
      (fun (done, n) slot => (done.push n, if slot.isSome then n + 1 else n))
      (done, n)).1.toList =
      done.toList ++ (List.range l.length).map fun i => n + (l.take i).countP Option.isSome := by
  induction l generalizing done n with
  | nil => exact (List.append_nil _).symm
  | cons slot rest ih =>
    rw [List.foldl_cons, ih, Array.toList_push, List.append_assoc, List.length_cons,
      List.range_succ_eq_map, List.map_cons, List.map_map]
    refine congrArg (done.toList ++ ·) ?_
    show n :: _ = n :: _
    refine congrArg (n :: ·) (List.map_congr_left fun i _ => ?_)
    simp only [Function.comp_apply, List.take_succ_cons, List.countP_cons]
    cases slot.isSome <;> simp only [if_true, Bool.false_eq_true, if_false] <;> omega

theorem ranks_getD {p : Sparse} {s : StateId} (h : p.Live s) : p.ranks.getD s s = p.rank s := by
  have hlt : s < p.slots.toList.length := by
    obtain ⟨state, hs⟩ := h
    have hslot := Option.join_eq_some_iff.1 hs
    rw [Array.length_toList]
    exact (Array.getElem?_eq_some_iff.1 hslot).1
  have hranks : p.ranks.toList =
      (List.range p.slots.toList.length).map fun i =>
        0 + (p.slots.toList.take i).countP Option.isSome := by
    unfold ranks
    rw [← Array.foldl_toList]
    exact foldl_ranks p.slots.toList #[] 0
  rw [Array.getD_eq_getD_getElem?, ← Array.getElem?_toList, hranks, List.getElem?_map,
    List.getElem?_range hlt]
  exact Nat.zero_add _

/-- Dropping the empty slots takes the state in a slot to its rank. -/
theorem getElem?_filterMap_slots {α β : Type} (g : α → β) (l : List (Option α)) (i : Nat) {x : α}
    (h : l[i]? = some (some x)) :
    (l.filterMap fun slot => slot.map g)[(l.take i).countP Option.isSome]? = some (g x) := by
  induction l generalizing i with
  | nil => cases h
  | cons slot rest ih =>
    cases i with
    | zero =>
      rw [List.getElem?_cons_zero] at h
      injection h with h
      subst h
      rfl
    | succ i =>
      rw [List.getElem?_cons_succ] at h
      have hrest := ih i h
      rw [List.take_succ_cons, List.countP_cons]
      cases slot with
      | none => exact hrest
      | some y => exact hrest

theorem exists_countP_take_eq {α : Type} (l : List (Option α)) {i : Nat}
    (h : i < l.countP Option.isSome) :
    ∃ s x, l[s]? = some (some x) ∧ (l.take s).countP Option.isSome = i := by
  induction l generalizing i with
  | nil => exact absurd h (Nat.not_lt_zero i)
  | cons slot rest ih =>
    cases slot with
    | none =>
      obtain ⟨s, x, hs, hi⟩ := ih h
      exact ⟨s + 1, x, hs, hi⟩
    | some y =>
      cases i with
      | zero => exact ⟨0, y, rfl, rfl⟩
      | succ i =>
        rw [List.countP_cons_of_pos rfl] at h
        obtain ⟨s, x, hs, hi⟩ := ih (Nat.lt_of_succ_lt_succ h)
        refine ⟨s + 1, x, hs, ?_⟩
        rw [List.take_succ_cons, List.countP_cons_of_pos rfl, hi]

section Dense

variable {p : Sparse} {s : StateId} {state : State}

theorem length_filterMap_slots {α β : Type} (g : α → β) (l : List (Option α)) :
    (l.filterMap fun slot => slot.map g).length = l.countP Option.isSome := by
  rw [List.length_filterMap_eq_countP]
  refine List.countP_congr fun slot _ => ?_
  rw [Option.isSome_map]

theorem dense_size (p : Sparse) : p.dense.size = p.live := by
  unfold Automaton.size dense live
  rw [← Array.length_toList, Array.toList_filterMap, length_filterMap_slots,
    ← Array.countP_toList]

theorem getElem?_dense (h : p.get? s = some state) :
    p.dense.states[p.rank s]? = some { state with
      row := state.row.map (·.map fun t => p.ranks.getD t t) } := by
  have hslot : p.slots.toList[s]? = some (some state) := by
    rw [Array.getElem?_toList]
    exact Option.join_eq_some_iff.1 h
  unfold dense rank
  rw [← Array.getElem?_toList, Array.toList_filterMap]
  exact getElem?_filterMap_slots _ _ s hslot

theorem step_dense (hp : p.WellFormed) (h : p.get? s = some state) (c : Symbol) :
    p.dense.step (p.rank s) c = (p.step s c).map p.rank := by
  rw [Automaton.step_of_getElem? (getElem?_dense h), Row.getElem_eq, Vector.getElem_map,
    step_of_get? h, Row.getElem_eq]
  cases ht : state.row[c.val] with
  | none => rfl
  | some t => exact congrArg some (ranks_getD (hp.target ((step_of_get? h c).trans ht)))

theorem output_dense (h : p.get? s = some state) :
    p.dense.output (p.rank s) = p.output s := by
  unfold Automaton.output
  rw [getElem?_dense h, output_of_get? h]

theorem rank_lt (h : p.Live s) : p.rank s < p.dense.size := by
  obtain ⟨state, hs⟩ := h
  exact (Array.getElem?_eq_some_iff.1 (getElem?_dense hs)).1

theorem rank_le_rank {t : StateId} (h : s ≤ t) : p.rank s ≤ p.rank t :=
  (List.take_prefix_take_left h).sublist.countP_le

theorem rank_lt_rank {t : StateId} (hs : p.Live s) (hst : s < t) : p.rank s < p.rank t := by
  obtain ⟨state, hget⟩ := hs
  have hslot : p.slots.toList[s]? = some (some state) := by
    rw [Array.getElem?_toList]
    exact Option.join_eq_some_iff.1 hget
  have hsucc : p.rank (s + 1) = p.rank s + 1 := by
    unfold rank
    rw [List.take_add_one, hslot, Option.toList_some, List.countP_append]
    rfl
  calc p.rank s < p.rank (s + 1) := hsucc ▸ Nat.lt_succ_self _
    _ ≤ p.rank t := rank_le_rank hst

theorem lt_of_rank_lt_rank {t : StateId} (h : p.rank s < p.rank t) : s < t :=
  Nat.lt_of_not_le fun hle => Nat.not_le.2 h (rank_le_rank hle)

theorem rank_inj {t : StateId} (hs : p.Live s) (ht : p.Live t) (h : p.rank s = p.rank t) :
    s = t := by
  rcases Nat.lt_trichotomy s t with hlt | heq | hlt
  · exact absurd h (Nat.ne_of_lt (rank_lt_rank hs hlt))
  · exact heq
  · exact absurd h (Nat.ne_of_gt (rank_lt_rank ht hlt))

theorem exists_rank {i : StateId} (h : i < p.dense.size) :
    ∃ s state, p.get? s = some state ∧ p.rank s = i := by
  rw [dense_size, live, ← Array.countP_toList] at h
  obtain ⟨s, state, hs, hrank⟩ := exists_countP_take_eq p.slots.toList h
  rw [Array.getElem?_toList] at hs
  exact ⟨s, state, Option.join_eq_some_iff.2 hs, hrank⟩

theorem wellFormed_dense (hp : p.WellFormed) : p.dense.WellFormed := by
  intro i c t hst
  obtain ⟨state, hi, -⟩ := Automaton.step_eq_some hst
  obtain ⟨s, state', hs, rfl⟩ := exists_rank (Array.getElem?_eq_some_iff.1 hi).1
  rw [step_dense hp hs] at hst
  obtain ⟨t', ht', rfl⟩ := Option.map_eq_some_iff.1 hst
  exact rank_lt (hp.target ht')

/-- The ranks are images of the states that are left. -/
theorem image_dense (hp : p.WellFormed) :
    Image p.step p.output p.dense.step p.dense.output p.Live p.rank where
  closed := fun _ hst => hp.target hst
  step := fun ⟨_, hs⟩ c => step_dense hp hs c
  output := fun ⟨_, hs⟩ => output_dense hs

theorem Reached.exists_walk_dense (hr : p.Reached) (hp : p.WellFormed) {i : StateId}
    (hi : i < p.dense.size) : ∃ w, p.dense.walk 0 w = some i := by
  obtain ⟨s, state, hs, rfl⟩ := exists_rank hi
  obtain ⟨u, hu⟩ := hr s ⟨state, hs⟩
  refine ⟨u.map byteOf, ?_⟩
  have hwalk := (image_dense hp).stepsAlong_eq hp.start u
  rw [hu] at hwalk
  exact (Automaton.walk_map_byteOf _ _ _).trans hwalk

theorem value_dense (hp : p.WellFormed) (u : List Symbol) :
    valueAlong p.dense.step p.dense.output 0 u = p.value u :=
  (image_dense hp).valueAlong_eq hp.start u

theorem output_of_dense {i : StateId} {v : Value} (h : p.dense.output i = some v) :
    ∃ s, p.output s = some v := by
  have hlt : i < p.dense.size := by
    by_contra hlt
    unfold Automaton.output at h
    rw [Array.getElem?_eq_none (Nat.not_lt.1 hlt)] at h
    cases h
  obtain ⟨s, state, hs, rfl⟩ := exists_rank hlt
  exact ⟨s, (output_dense hs).symm.trans h⟩

end Dense

end Sparse

/-! ## The reduced automaton -/

namespace Automaton

variable {a : Automaton}

/-- What normalization leaves of the states that the start reaches. -/
theorem refines_normalize_prune (ha : a.WellFormed) (hpos : 0 < a.size) :
    a.prune.Refines a.prune.normalize :=
  Sparse.refines_normalize (wellFormed_prune ha hpos)

theorem wellFormed_reduce (ha : a.WellFormed) (hpos : 0 < a.size) : a.reduce.WellFormed :=
  Sparse.wellFormed_dense (refines_normalize_prune ha hpos).wellFormed

theorem size_reduce_pos (ha : a.WellFormed) (hpos : 0 < a.size) : 0 < a.reduce.size :=
  Nat.lt_of_le_of_lt (Nat.zero_le _)
    (Sparse.rank_lt (refines_normalize_prune ha hpos).wellFormed.start)

theorem size_reduce_le (ha : a.WellFormed) (hpos : 0 < a.size) : a.reduce.size ≤ a.size := by
  unfold reduce
  rw [Sparse.dense_size]
  exact Nat.le_trans (refines_normalize_prune ha hpos).live_le (live_prune_le a)

/-- The reduced automaton gives every path the same value. -/
theorem reduce_lookup (ha : a.WellFormed) (hpos : 0 < a.size) (w : Bytes) :
    a.reduce.lookup w = a.lookup w := by
  have hvalue : ∀ u, valueAlong a.reduce.step a.reduce.output 0 u =
      valueAlong a.step a.output 0 u := by
    intro u
    have hr := refines_normalize_prune ha hpos
    exact (Sparse.value_dense hr.wellFormed u).trans
      ((hr.value_eq u).trans (value_prune ha hpos u))
  rw [lookup_eq_pathValue, lookup_eq_pathValue, pathValue, pathValue, hvalue]

/-- Reduction makes up no values. -/
theorem output_of_reduce (ha : a.WellFormed) (hpos : 0 < a.size) {s : StateId} {v : Value}
    (h : a.reduce.output s = some v) : ∃ r, a.output r = some v := by
  obtain ⟨r, hr⟩ := Sparse.output_of_dense h
  obtain ⟨r', hr'⟩ := (refines_normalize_prune ha hpos).output_of hr
  exact ⟨r', output_of_prune hr'⟩

end Automaton

end PathPolicy
