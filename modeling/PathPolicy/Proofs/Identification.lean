import Std.Data.HashMap.Lemmas
import PathPolicy.Automaton.Reduce
import PathPolicy.Proofs.Words

/-!
# Identifying states

States with equal keys are identified with the first of them. That keeps the value of every word if
states with equal keys have equal outputs and, symbol by symbol, targets that are identified as well
(`Sparse.Sound`). Nothing more is asked: the representative of a class of catch-all states need not
be their sink, and a state that leads to itself may stand for one that does not.

Both keys that are used fulfil it: the sink that a state is a catch-all for, and the shape of a
state.
-/

namespace PathPolicy

namespace Sparse

/-! ## States that are left -/

def step (p : Sparse) (s : StateId) (c : Symbol) : Option StateId :=
  (p.get? s).bind fun state => state.row[c]

def output (p : Sparse) (s : StateId) : Option Value := (p.get? s).bind State.output

def value (p : Sparse) (u : List Symbol) : Option Value := valueAlong p.step p.output 0 u

def Live (p : Sparse) (s : StateId) : Prop := ∃ state, p.get? s = some state

/-- The start is left, and what a state leads to is left. -/
structure WellFormed (p : Sparse) : Prop where
  start : p.Live 0
  target : ∀ {s c t}, p.step s c = some t → p.Live t

/-- What is left of `p` in `q`: no more states, and the same values. -/
structure Refines (p q : Sparse) : Prop where
  wellFormed : q.WellFormed
  live_le : q.live ≤ p.live
  value_eq : ∀ u, q.value u = p.value u
  output_of : ∀ {s v}, q.output s = some v → ∃ r, p.output r = some v

theorem Refines.refl {p : Sparse} (hp : p.WellFormed) : p.Refines p :=
  ⟨hp, Nat.le_refl _, fun _ => rfl, fun h => ⟨_, h⟩⟩

theorem Refines.trans {p q r : Sparse} (hpq : p.Refines q) (hqr : q.Refines r) : p.Refines r := by
  refine ⟨hqr.wellFormed, Nat.le_trans hqr.live_le hpq.live_le, ?_, ?_⟩
  · intro u
    rw [hqr.value_eq, hpq.value_eq]
  · intro s v hv
    obtain ⟨s', hs'⟩ := hqr.output_of hv
    exact hpq.output_of hs'

theorem step_eq_some {p : Sparse} {s : StateId} {c : Symbol} {t : StateId}
    (h : p.step s c = some t) : ∃ state, p.get? s = some state ∧ state.row[c] = some t := by
  obtain ⟨state, hs, ht⟩ := Option.bind_eq_some_iff.1 h
  exact ⟨state, hs, ht⟩

theorem step_of_get? {p : Sparse} {s : StateId} {state : State} (h : p.get? s = some state)
    (c : Symbol) : p.step s c = state.row[c] := by
  rw [step, h, Option.bind_some]

theorem output_of_get? {p : Sparse} {s : StateId} {state : State} (h : p.get? s = some state) :
    p.output s = state.output := by
  rw [output, h, Option.bind_some]

/-! ## Redirection -/

/-- The state that stands for state `i`. -/
def repOf (rep : Array StateId) (i : StateId) : StateId := rep.getD i i

theorem getElem_lead (rep : Array StateId) (row : Row) (c : Symbol) :
    (lead rep row)[c] = row[c].map (repOf rep) := by
  unfold lead
  split
  · rename_i h
    have hc := Vector.all_eq_true.1 h c.val c.isLt
    rw [Row.getElem_eq]
    cases ht : row[c.val] with
    | none => rfl
    | some t =>
      rw [ht] at hc
      exact congrArg some (of_decide_eq_true hc).symm
  · rw [Row.getElem_eq, Row.getElem_eq, Vector.getElem_map]
    rfl

theorem get?_redirect (p : Sparse) (rep : Array StateId) (i : StateId) :
    (p.redirect rep).get? i =
      if repOf rep i = i then (p.get? i).map fun s => { s with row := lead rep s.row }
      else none := by
  show (((p.slots.mapIdx _))[i]?).join = _
  rw [Array.getElem?_mapIdx]
  unfold get?
  cases p.slots[i]? with
  | none => exact (ite_self none).symm
  | some slot =>
    cases slot with
    | none => exact (ite_self none).symm
    | some s =>
      by_cases h : repOf rep i = i
      · rw [if_pos h]
        exact if_pos h
      · rw [if_neg h]
        exact if_neg h

/-- Representatives that may stand for the states of `p`. -/
structure Sound (p : Sparse) (rep : Array StateId) : Prop where
  le : ∀ i, repOf rep i ≤ i
  idem : ∀ i, repOf rep (repOf rep i) = repOf rep i
  live : ∀ {i}, p.Live i → p.Live (repOf rep i)
  output : ∀ {i}, p.Live i → p.output (repOf rep i) = p.output i
  step : ∀ {i}, p.Live i → ∀ c,
    (p.step (repOf rep i) c).map (repOf rep) = (p.step i c).map (repOf rep)

section Redirect

variable {p : Sparse} {rep : Array StateId}

theorem step_redirect {i : StateId} (h : repOf rep i = i) (c : Symbol) :
    (p.redirect rep).step i c = (p.step i c).map (repOf rep) := by
  unfold step
  rw [get?_redirect, if_pos h]
  cases p.get? i with
  | none => rfl
  | some s => exact getElem_lead rep s.row c

theorem output_redirect {i : StateId} (h : repOf rep i = i) :
    (p.redirect rep).output i = p.output i := by
  unfold output
  rw [get?_redirect, if_pos h]
  cases p.get? i <;> rfl

theorem live_redirect_iff {i : StateId} :
    (p.redirect rep).Live i ↔ repOf rep i = i ∧ p.Live i := by
  unfold Live
  rw [get?_redirect]
  by_cases h : repOf rep i = i
  · rw [if_pos h]
    constructor
    · rintro ⟨s, hs⟩
      obtain ⟨s', hs', -⟩ := Option.map_eq_some_iff.1 hs
      exact ⟨h, s', hs'⟩
    · rintro ⟨-, s, hs⟩
      exact ⟨_, by rw [hs]; rfl⟩
  · rw [if_neg h]
    constructor
    · rintro ⟨s, hs⟩
      cases hs
    · exact fun ⟨hi, _⟩ => absurd hi h

theorem live_eq_countP (p : Sparse) :
    p.live = p.slots.toList.zipIdx.countP fun e => e.1.isSome := by
  have hcomp : (fun e : Option State × Nat => e.1.isSome) = Option.isSome ∘ Prod.fst := rfl
  rw [live, ← Array.countP_toList, hcomp, ← List.countP_map, List.zipIdx_map_fst]

theorem live_redirect_eq (p : Sparse) (rep : Array StateId) :
    (p.redirect rep).live =
      p.slots.toList.zipIdx.countP fun e => e.1.isSome && repOf rep e.2 == e.2 := by
  unfold live redirect
  rw [← Array.countP_toList, Array.toList_mapIdx, List.mapIdx_eq_zipIdx_map, List.countP_map]
  refine List.countP_congr fun e _ => ?_
  obtain ⟨slot, i⟩ := e
  cases slot with
  | none => rfl
  | some s =>
    unfold repOf
    by_cases h : rep.getD i i = i <;>
      simp only [Function.comp_apply, Option.bind_some, h, if_true, if_false, Option.isSome_some,
        Option.isSome_none, Bool.true_and, beq_iff_eq, Bool.false_eq_true]

theorem live_redirect_le : (p.redirect rep).live ≤ p.live := by
  rw [live_redirect_eq, live_eq_countP]
  exact List.countP_mono_left fun e _ he => ((Bool.and_eq_true _ _).mp he).1

/-- Redirection drops a state that another one represents. -/
theorem live_redirect_lt {i : StateId} (hi : p.Live i) (h : repOf rep i ≠ i) :
    (p.redirect rep).live < p.live := by
  obtain ⟨s, hs⟩ := hi
  have hslot : p.slots.toList[i]? = some (some s) := by
    rw [Array.getElem?_toList]
    exact Option.join_eq_some_iff.1 hs
  have hmem : (some s, i) ∈ p.slots.toList.zipIdx := List.mem_zipIdx_iff_getElem?.2 hslot
  rw [live_redirect_eq, live_eq_countP, List.countP_eq_length_filter, List.countP_eq_length_filter]
  simp only [Bool.and_comm (Option.isSome _)]
  rw [← List.filter_filter, List.length_filter_lt_length_iff_exists]
  refine ⟨(some s, i), List.mem_filter.2 ⟨hmem, rfl⟩, ?_⟩
  rw [beq_iff_eq]
  exact h

theorem Sound.image (h : p.Sound rep) (hp : p.WellFormed) :
    Image p.step p.output (p.redirect rep).step (p.redirect rep).output p.Live (repOf rep) where
  closed := fun _ hst => hp.target hst
  step := fun hs c => by rw [step_redirect (h.idem _), h.step hs]
  output := fun hs => by rw [output_redirect (h.idem _), h.output hs]

/-- Redirection to sound representatives keeps all values. -/
theorem Sound.refines (h : p.Sound rep) (hp : p.WellFormed) : p.Refines (p.redirect rep) := by
  have h0 : repOf rep 0 = 0 := Nat.le_zero.1 (h.le 0)
  refine ⟨⟨live_redirect_iff.2 ⟨h0, hp.start⟩, ?_⟩, live_redirect_le, ?_, ?_⟩
  · intro s c t hst
    obtain ⟨state, hget, -⟩ := step_eq_some hst
    obtain ⟨hs, -⟩ := live_redirect_iff.1 ⟨state, hget⟩
    rw [step_redirect hs] at hst
    obtain ⟨t', ht', rfl⟩ := Option.map_eq_some_iff.1 hst
    exact live_redirect_iff.2 ⟨h.idem t', h.live (hp.target ht')⟩
  · intro u
    have hvalue := (h.image hp).valueAlong_eq hp.start u
    rwa [h0] at hvalue
  · intro s v hv
    obtain ⟨state, hget, -⟩ := Option.bind_eq_some_iff.1 hv
    obtain ⟨hs, -⟩ := live_redirect_iff.1 ⟨state, hget⟩
    exact ⟨s, (output_redirect hs).symm.trans hv⟩

/-- A word leads to every state that is left. -/
def Reached (p : Sparse) : Prop := ∀ s, p.Live s → ∃ u, stepsAlong p.step 0 u = some s

theorem Reached.redirect (hr : p.Reached) (hp : p.WellFormed) (h : p.Sound rep) :
    (p.redirect rep).Reached := by
  intro s hs
  obtain ⟨hrep, hlive⟩ := live_redirect_iff.1 hs
  obtain ⟨u, hu⟩ := hr s hlive
  have hwalk := (h.image hp).stepsAlong_eq hp.start u
  rw [Nat.le_zero.1 (h.le 0), hu, Option.map_some, hrep] at hwalk
  exact ⟨u, hwalk⟩

end Redirect

/-! ## The first state with a key -/

section Firsts

variable {κ : Type} [BEq κ] [LawfulBEq κ] [Hashable κ]

/-- A fold that keeps the first number of each key finds the first one. -/
theorem getElem?_foldl_firsts (l : List (Option κ)) (n : Nat) (found : Std.HashMap κ StateId)
    (k : κ) :
    ((l.zipIdx n).foldl
      (fun found (k, i) =>
        match k with
        | some k => found.insertIfNew k i
        | none => found) found)[k]? =
      found[k]?.or ((l.findIdx? (· == some k)).map (· + n)) := by
  induction l generalizing n found with
  | nil => simp
  | cons x rest ih =>
    rw [List.zipIdx_cons, List.foldl_cons, ih, List.findIdx?_cons]
    have hshift : ((rest.findIdx? (· == some k)).map (· + 1)).map (· + n) =
        (rest.findIdx? (· == some k)).map (· + (n + 1)) := by
      rw [Option.map_map]
      congr 1
      funext i
      exact (Nat.add_assoc i 1 n).trans (congrArg (i + ·) (Nat.add_comm 1 n))
    cases x with
    | none =>
      rw [if_neg (by simp), hshift]
    | some k' =>
      show (found.insertIfNew k' n)[k]?.or _ = _
      rw [Std.HashMap.getElem?_insertIfNew]
      by_cases hk : k' = k
      · subst hk
        rw [if_pos (beq_self_eq_true (some k'))]
        by_cases hmem : k' ∈ found
        · rw [if_neg fun h => h.2 hmem, Std.HashMap.getElem?_eq_some_getElem hmem]
          rfl
        · rw [if_pos ⟨beq_self_eq_true k', hmem⟩, Std.HashMap.getElem?_eq_none hmem]
          simp
      · have hb : ¬ (some k' == some k) = true := fun h => hk (Option.some.inj (eq_of_beq h))
        rw [if_neg fun h => hk (eq_of_beq h.1), if_neg hb, hshift]

theorem getElem?_firsts (keys : Array (Option κ)) (k : κ) :
    (firsts keys)[k]? = keys.toList.findIdx? (· == some k) := by
  refine (getElem?_foldl_firsts keys.toList 0 ∅ k).trans ?_
  simp

variable {keys : Array (Option κ)} {i j : StateId} {k : κ}

theorem repOf_representatives (h : keys[i]? = some (some k)) :
    (firsts keys)[k]? = some (repOf (representatives keys) i) := by
  have hmem : some k ∈ keys.toList := Array.mem_toList_iff.2 (Array.mem_of_getElem? h)
  have hsome : (keys.toList.findIdx? (· == some k)).isSome := by
    rw [List.findIdx?_isSome, List.any_eq_true]
    exact ⟨some k, hmem, beq_self_eq_true _⟩
  obtain ⟨n, hn⟩ := Option.isSome_iff_exists.1 hsome
  have hfirst : (firsts keys)[k]? = some n := (getElem?_firsts keys k).trans hn
  have hrep : (representatives keys)[i]? = some n := by
    unfold representatives
    rw [Array.getElem?_mapIdx, h, Option.map_some, Option.bind_some, hfirst, Option.getD_some]
  rw [hfirst, repOf, Array.getD_eq_getD_getElem?, hrep, Option.getD_some]

omit [LawfulBEq κ] in
theorem repOf_representatives_of_none (h : ∀ k, keys[i]? ≠ some (some k)) :
    repOf (representatives keys) i = i := by
  unfold repOf representatives
  rw [Array.getD_eq_getD_getElem?, Array.getElem?_mapIdx]
  cases hi : keys[i]? with
  | none => rfl
  | some key =>
    cases key with
    | none => rfl
    | some k => exact absurd hi (h k)

theorem repOf_eq_of_key (hi : keys[i]? = some (some k)) (hj : keys[j]? = some (some k)) :
    repOf (representatives keys) i = repOf (representatives keys) j :=
  Option.some.inj ((repOf_representatives hi).symm.trans (repOf_representatives hj))

theorem key_repOf (h : keys[i]? = some (some k)) :
    keys[repOf (representatives keys) i]? = some (some k) ∧
      repOf (representatives keys) i ≤ i := by
  have hfirst := repOf_representatives h
  rw [getElem?_firsts] at hfirst
  obtain ⟨hlt, hkey, hleast⟩ := List.findIdx?_eq_some_iff_getElem.1 hfirst
  have hkey' := eq_of_beq hkey
  rw [Array.getElem_toList] at hkey'
  refine ⟨Array.getElem?_eq_some_iff.2 ⟨hlt, hkey'⟩, Nat.not_lt.1 fun hi => ?_⟩
  obtain ⟨hlt', hki⟩ := Array.getElem?_eq_some_iff.1 h
  refine hleast i hi ?_
  rw [Array.getElem_toList, hki]
  exact beq_self_eq_true _

omit [LawfulBEq κ] in
theorem repOf_cases (keys : Array (Option κ)) (i : StateId) :
    repOf (representatives keys) i = i ∨ ∃ k, keys[i]? = some (some k) := by
  by_cases h : ∃ k, keys[i]? = some (some k)
  · exact .inr h
  · exact .inl (repOf_representatives_of_none fun k hk => h ⟨k, hk⟩)

end Firsts

/-! ## Sound keys -/

section Keys

variable {κ : Type} [BEq κ] [LawfulBEq κ] [Hashable κ] {p : Sparse}
  {key : StateId → State → Option κ}

omit [BEq κ] [LawfulBEq κ] [Hashable κ] in
theorem getElem?_keys {i : StateId} {k : κ} :
    (p.keys key)[i]? = some (some k) ↔ ∃ s, p.get? i = some s ∧ key i s = some k := by
  unfold keys get?
  rw [Array.getElem?_mapIdx]
  cases p.slots[i]? with
  | none =>
    constructor
    · intro h
      cases h
    · rintro ⟨s, hs, -⟩
      cases hs
  | some slot =>
    constructor
    · intro h
      exact Option.bind_eq_some_iff.1 (Option.some.inj h)
    · intro h
      exact congrArg some (Option.bind_eq_some_iff.2 h)

/-- States with the same value whose targets are identified. -/
def Alike (rep : Array StateId) (s t : State) : Prop :=
  s.output = t.output ∧ ∀ c : Symbol, s.row[c].map (repOf rep) = t.row[c].map (repOf rep)

/-- Keys are sound if states with equal keys are alike once they are identified. -/
theorem sound_of_keys {rep : Array StateId} (hrep : rep = representatives (p.keys key))
    (halike : ∀ {i j s t k}, key i s = some k → key j t = some k → repOf rep i = repOf rep j →
      Alike rep s t) : p.Sound rep := by
  -- A state and its representative are the same one, or two with one key.
  have hcases : ∀ i, repOf rep i = i ∨
      ∃ s t, p.get? (repOf rep i) = some s ∧ p.get? i = some t ∧ Alike rep s t := by
    subst hrep
    intro i
    rcases repOf_cases (p.keys key) i with h | ⟨k, hk⟩
    · exact .inl h
    · obtain ⟨hk', -⟩ := key_repOf hk
      obtain ⟨s, hs, hks⟩ := getElem?_keys.1 hk'
      obtain ⟨t, ht, hkt⟩ := getElem?_keys.1 hk
      exact .inr ⟨s, t, hs, ht, halike hks hkt (repOf_eq_of_key hk' hk)⟩
  refine ⟨fun i => ?_, fun i => ?_, fun {i} hi => ?_, fun {i} hi => ?_, fun {i} hi c => ?_⟩
  · subst hrep
    rcases repOf_cases (p.keys key) i with h | ⟨k, hk⟩
    · exact Nat.le_of_eq h
    · exact (key_repOf hk).2
  · subst hrep
    rcases repOf_cases (p.keys key) i with h | ⟨k, hk⟩
    · rw [h, h]
    · exact repOf_eq_of_key (key_repOf hk).1 hk
  · rcases hcases i with h | ⟨s, t, hs, -⟩
    · rw [h]
      exact hi
    · exact ⟨s, hs⟩
  · rcases hcases i with h | ⟨s, t, hs, ht, hout, -⟩
    · rw [h]
    · rw [output_of_get? hs, output_of_get? ht, hout]
  · rcases hcases i with h | ⟨s, t, hs, ht, -, hrow⟩
    · rw [h]
    · rw [step_of_get? hs, step_of_get? ht, hrow]

theorem eq_of_key {i j : StateId} {s t : State} {k : κ}
    (hlive : ¬ (p.identify key).live < p.live) (hi : p.get? i = some s) (hj : p.get? j = some t)
    (hki : key i s = some k) (hkj : key j t = some k) : i = j := by
  have hself : ∀ {i s}, p.get? i = some s → repOf (representatives (p.keys key)) i = i := by
    intro i s hi
    by_contra h
    exact hlive (live_redirect_lt ⟨s, hi⟩ h)
  have hrep := repOf_eq_of_key (getElem?_keys.2 ⟨s, hi, hki⟩) (getElem?_keys.2 ⟨t, hj, hkj⟩)
  rwa [hself hi, hself hj] at hrep

end Keys

/-! ## Catch-all states -/

/-- A catch-all state leads to its sink on every symbol, as the sink does, and has the sink's
value. -/
theorem sinkOf_eq_some_iff {p : Sparse} {i : StateId} {s : State} {t : StateId} :
    p.sinkOf i s = some t ↔ (∀ c : Symbol, s.row[c] = some t) ∧
      ∃ sink, p.get? t = some sink ∧ (∀ c : Symbol, sink.row[c] = some t) ∧
        s.output = sink.output := by
  constructor
  · intro h
    unfold sinkOf at h
    split at h
    · cases h
    · split at h
      · cases h
      · rename_i sink hsink
        split at h
        · rename_i hall
          injection h with h
          subst h
          rw [Bool.and_eq_true, Bool.and_eq_true] at hall
          exact ⟨Row.leadsTo_iff.1 hall.1.1, sink, hsink, Row.leadsTo_iff.1 hall.1.2,
            eq_of_beq hall.2⟩
        · cases h
  · rintro ⟨hs, sink, hsink, hloop, hout⟩
    unfold sinkOf
    rw [hs 0]
    simp only [hsink, Row.leadsTo_iff.2 hs, Row.leadsTo_iff.2 hloop, hout, beq_self_eq_true,
      Bool.and_self, if_true]

theorem sound_collapse (p : Sparse) : p.Sound (representatives (p.keys p.sinkOf)) := by
  refine sound_of_keys rfl ?_
  intro i j s t k hs ht _
  obtain ⟨hrow, sink, hsink, -, hout⟩ := sinkOf_eq_some_iff.1 hs
  obtain ⟨hrow', sink', hsink', -, hout'⟩ := sinkOf_eq_some_iff.1 ht
  obtain rfl := Option.some.inj (hsink.symm.trans hsink')
  refine ⟨hout.trans hout'.symm, fun c => ?_⟩
  rw [hrow c, hrow' c]

theorem refines_collapse {p : Sparse} (hp : p.WellFormed) : p.Refines p.collapse :=
  (sound_collapse p).refines hp

/-! ## States of the same shape -/

/-- Equal arrows lead to the same target, or each to its own state. -/
theorem arrow_eq_arrow {i j : StateId} {s t : Option StateId} (h : arrow i s = arrow j t) :
    s = t ∨ s = some i ∧ t = some j := by
  unfold arrow at h
  split at h <;> split at h
  · rename_i hs ht
    exact .inr ⟨hs, ht⟩
  · cases h
  · cases h
  · exact .inl (Option.some.inj h)

theorem mem_others_iff {i : StateId} {s : State} {c : Symbol} {e : Arrow} :
    (c, e) ∈ (shapeOf i s).others ↔ s.row[c] ≠ s.row[(0 : Symbol)] ∧ arrow i s.row[c] = e := by
  unfold shapeOf
  rw [List.mem_map]
  constructor
  · rintro ⟨d, hd, heq⟩
    obtain ⟨rfl, rfl⟩ := Prod.mk.inj heq
    exact ⟨bne_iff_ne.1 (List.mem_filter.1 hd).2, rfl⟩
  · rintro ⟨hne, rfl⟩
    exact ⟨c, List.mem_filter.2 ⟨List.mem_finRange c, bne_iff_ne.2 hne⟩, rfl⟩

theorem arrow_eq_of_shapeOf_eq {i j : StateId} {s t : State} (h : shapeOf i s = shapeOf j t)
    (c : Symbol) : arrow i s.row[c] = arrow j t.row[c] := by
  have hfirst : arrow i s.row[(0 : Symbol)] = arrow j t.row[(0 : Symbol)] := congrArg Shape.first h
  have hothers : (shapeOf i s).others = (shapeOf j t).others := congrArg Shape.others h
  by_cases hs : s.row[c] = s.row[(0 : Symbol)]
  · by_cases ht : t.row[c] = t.row[(0 : Symbol)]
    · rw [hs, ht, hfirst]
    · have hmem : (c, arrow j t.row[c]) ∈ (shapeOf i s).others :=
        hothers ▸ mem_others_iff.2 ⟨ht, rfl⟩
      exact (mem_others_iff.1 hmem).2
  · have hmem : (c, arrow i s.row[c]) ∈ (shapeOf j t).others :=
      hothers ▸ mem_others_iff.2 ⟨hs, rfl⟩
    exact (mem_others_iff.1 hmem).2.symm

theorem sound_merge (p : Sparse) :
    p.Sound (representatives (p.keys fun i s => some (shapeOf i s))) := by
  refine sound_of_keys rfl ?_
  intro i j s t k hs ht hrep
  have hshape : shapeOf i s = shapeOf j t := Option.some.inj (hs.trans ht.symm)
  refine ⟨congrArg Shape.output hshape, fun c => ?_⟩
  rcases arrow_eq_arrow (arrow_eq_of_shapeOf_eq hshape c) with h | ⟨h, h'⟩
  · rw [h]
  · rw [h, h', Option.map_some, Option.map_some, hrep]

theorem refines_merge {p : Sparse} (hp : p.WellFormed) : p.Refines p.merge :=
  (sound_merge p).refines hp

theorem arrow_inj {i : StateId} {s t : Option StateId} (h : arrow i s = arrow i t) : s = t := by
  rcases arrow_eq_arrow h with h | ⟨h, h'⟩
  · exact h
  · rw [h, h']

/-- States with the same value and the same arrows have the same shape: they go on as with the first
symbol with the same symbols. -/
theorem shapeOf_eq {i j : StateId} {s t : State} (hout : s.output = t.output)
    (harrow : ∀ c : Symbol, arrow i s.row[c] = arrow j t.row[c]) : shapeOf i s = shapeOf j t := by
  have hfirst : ∀ c : Symbol, s.row[c] = s.row[(0 : Symbol)] ↔ t.row[c] = t.row[(0 : Symbol)] := by
    intro c
    have hs : s.row[c] = s.row[(0 : Symbol)] ↔ arrow i s.row[c] = arrow i s.row[(0 : Symbol)] :=
      ⟨fun h => congrArg (arrow i) h, arrow_inj⟩
    rw [hs, harrow c, harrow 0]
    exact ⟨arrow_inj, fun h => congrArg (arrow j) h⟩
  have hfilter : (fun c : Symbol => s.row[c] != s.row[(0 : Symbol)]) =
      fun c => t.row[c] != t.row[(0 : Symbol)] := by
    funext c
    rw [Bool.eq_iff_iff, bne_iff_ne, bne_iff_ne, ne_eq, ne_eq, hfirst c]
  have hmap : (fun c : Symbol => (c, arrow i s.row[c])) = fun c => (c, arrow j t.row[c]) :=
    funext fun c => congrArg (Prod.mk c) (harrow c)
  simp only [shapeOf, hout, harrow 0, hfilter, hmap]

end Sparse

end PathPolicy
