import Mathlib.Data.PFun
import PathPolicy.Proofs.Reduction

/-!
# Reduction looks up what is there, and comes to an end

The reduction is repeated here with two things left open: a state that is looked up may be missing,
and a step is repeated for as long as it changes anything, which need not come to an end. In both
cases there is no value. From a well-formed automaton there is one, and it is the reduced automaton
(`Automaton.reduce?_eq`): the states that are left are closed under steps at every stage, and a step
that changes anything drops a state. As the states have images throughout, the start stays the start
(`Automaton.reduce_exact`).
-/

namespace PathPolicy

namespace Sparse

/-! ## Look-ups that may fail, and loops that may not end -/

deriving instance DecidableEq for Sparse

/-- Whether the sink that a state might be a catch-all for is looked up with success: it is looked
up if every symbol leads to it. -/
def findsSink (p : Sparse) (s : State) : Bool :=
  s.row.all (·.all fun t => !s.row.leadsTo t || (p.get? t).isSome)

/-- Identifies catch-all states with their sinks, unless a state that is looked up is missing. -/
def collapse? (p : Sparse) : Option Sparse :=
  if p.slots.all (·.all p.findsSink) then some p.collapse else none

/-- Numbers the states that are left densely, unless one of them leads to a state that has no
number. -/
def dense? (p : Sparse) : Option Automaton :=
  if p.slots.all (·.all fun s => s.row.all (·.all fun t => (p.get? t).isSome)) then some p.dense
  else none

/-- Repeats a step for as long as it changes anything. -/
def untilStable (f : Sparse →. Sparse) : Sparse →. Sparse :=
  PFun.fix fun p => (f p).map fun q => if q = p then .inl p else .inr q

/-- Identifies states by their sinks until nothing changes, and then by their shapes. -/
def round? (p : Sparse) : Part Sparse :=
  (untilStable (fun q => q.collapse?) p).bind fun q => untilStable (PFun.lift merge) q

/-- Identifies states until nothing changes, and numbers those that are left. -/
def simplify? (p : Sparse) : Part Automaton := (untilStable round? p).bind fun q => q.dense?

variable {p : Sparse}

/-! ## A step that changes anything drops a state -/

/-- Where every state that is left stands for itself, redirection changes nothing. -/
theorem redirect_eq_self {rep : Array StateId} (h : ∀ i, repOf rep i = i) :
    p.redirect rep = p := by
  have hlead : ∀ row, lead rep row = row := by
    intro row
    refine if_pos (Vector.all_eq_true.2 fun i hi => ?_)
    cases row[i] with
    | none => rfl
    | some t => exact decide_eq_true (h t)
  have hslots : p.slots.mapIdx (fun i slot => slot.bind fun s =>
      if rep.getD i i = i then some { s with row := lead rep s.row } else none) = p.slots := by
    refine Array.ext (Array.size_mapIdx) fun i hi hi' => ?_
    rw [Array.getElem_mapIdx]
    cases p.slots[i] with
    | none => rfl
    | some s =>
      rw [Option.bind_some, hlead]
      exact if_pos (h i)
  exact congrArg Sparse.mk hslots

/-- Identification changes nothing, or drops a state. -/
theorem identify_cases {κ : Type} [BEq κ] [Hashable κ] (key : StateId → State → Option κ) :
    p.identify key = p ∨ (p.identify key).live < p.live := by
  by_cases h : ∀ i, repOf (representatives (p.keys key)) i = i
  · exact .inl (redirect_eq_self h)
  · obtain ⟨i, hi⟩ := not_forall.1 h
    have hkey : ∃ k, (p.keys key)[i]? = some (some k) := by
      by_contra hnone
      exact hi (repOf_representatives_of_none fun k hk => hnone ⟨k, hk⟩)
    obtain ⟨k, hk⟩ := hkey
    obtain ⟨s, hs, -⟩ := getElem?_keys.1 hk
    exact .inr (live_redirect_lt ⟨s, hs⟩ hi)

/-- A repeated step changes nothing or drops a state, if the step itself does. -/
theorem shrink_eq_or_lt (f : Sparse → Sparse) (p : Sparse) :
    shrink f p = p ∨ (shrink f p).live < p.live :=
  (shrink_cases f p).symm.imp (fun h => h.1) id

theorem round_cases (p : Sparse) :
    shrink merge (shrink collapse p) = p ∨ (shrink merge (shrink collapse p)).live < p.live := by
  rcases shrink_eq_or_lt merge (shrink collapse p) with hm | hm
  · rw [hm]
    exact shrink_eq_or_lt collapse p
  · rcases shrink_eq_or_lt collapse p with hc | hc
    · rw [hc] at hm ⊢
      exact .inr hm
    · exact .inr (Nat.lt_trans hm hc)

/-- A step that succeeds, and drops a state if it changes anything, is repeated to the end. -/
theorem untilStable_eq {P : Sparse → Prop} {f? : Sparse →. Sparse} {f : Sparse → Sparse}
    (hsome : ∀ q, P q → f? q = Part.some (f q)) (hkeep : ∀ q, P q → P (f q))
    (hcases : ∀ q, f q = q ∨ (f q).live < q.live) (hp : P p) :
    untilStable f? p = Part.some (shrink f p) := by
  have hstep : ∀ q, P q → (if f q = q then .inl q else .inr (f q)) ∈
      (f? q).map fun r => (if r = q then .inl q else .inr r : Sparse ⊕ Sparse) := by
    intro q hq
    rw [hsome q hq, Part.map_some]
    exact Part.mem_some _
  fun_induction shrink f p with
  | case1 p q hlt ih =>
    have hne : f p ≠ p := fun heq => Nat.lt_irrefl p.live (heq ▸ hlt)
    have hnext := hstep p hp
    rw [if_neg hne] at hnext
    exact (PFun.fix_fwd_eq hnext).trans (ih (hkeep p hp))
  | case2 p q hnot =>
    have hend := hstep p hp
    rw [if_pos ((hcases p).resolve_right hnot)] at hend
    exact Part.eq_some_iff.2 (PFun.fix_stop hend)

/-! ## Nothing that is looked up is missing -/

theorem get?_of_getElem {i : Nat} (hi : i < p.slots.size) {s : State}
    (h : p.slots[i] = some s) : p.get? i = some s := by
  unfold get?
  rw [Array.getElem?_eq_getElem hi, h]
  rfl

theorem all_slots {q : State → Bool} (h : ∀ i s, p.get? i = some s → q s = true) :
    p.slots.all (·.all q) = true := by
  rw [Array.all_eq_true]
  intro i hi
  cases hs : p.slots[i] with
  | none => rfl
  | some s => exact h i s (get?_of_getElem hi hs)

section WellFormed

variable (hp : p.WellFormed)

include hp

theorem WellFormed.isSome_target {i : StateId} {s : State} {c : Symbol} {t : StateId}
    (hs : p.get? i = some s) (ht : s.row[c] = some t) : (p.get? t).isSome = true := by
  obtain ⟨r, hr⟩ := hp.target ((step_of_get? hs c).trans ht)
  rw [hr]
  rfl

theorem collapse?_eq : p.collapse? = some p.collapse := by
  refine if_pos (all_slots fun i s hs => Vector.all_eq_true.2 fun c hc => ?_)
  cases ht : s.row[c] with
  | none => rfl
  | some t =>
    show (!s.row.leadsTo t || (p.get? t).isSome) = true
    rw [hp.isSome_target (c := ⟨c, hc⟩) hs ht, Bool.or_true]

theorem dense?_eq : p.dense? = some p.dense := by
  refine if_pos (all_slots fun i s hs => Vector.all_eq_true.2 fun c hc => ?_)
  cases ht : s.row[c] with
  | none => rfl
  | some t => exact hp.isSome_target (c := ⟨c, hc⟩) hs ht

theorem round?_eq : p.round? = Part.some (shrink merge (shrink collapse p)) := by
  have hcollapse : untilStable (fun q => q.collapse?) p = Part.some (shrink collapse p) :=
    untilStable_eq (P := WellFormed) (f := collapse) (fun q hq => by rw [collapse?_eq hq]; rfl)
      (fun q hq => (refines_collapse hq).wellFormed) (fun q => identify_cases _) hp
  have hmerge : untilStable (PFun.lift merge) (shrink collapse p) =
      Part.some (shrink merge (shrink collapse p)) :=
    untilStable_eq (P := fun _ => True) (fun q _ => rfl) (fun q _ => trivial)
      (fun q => identify_cases _) trivial
  rw [round?, hcollapse, Part.bind_some, hmerge]

theorem simplify?_eq : p.simplify? = Part.some p.normalize.dense := by
  have hround : ∀ q : Sparse, q.WellFormed → (shrink merge (shrink collapse q)).WellFormed := by
    intro q hq
    have hcollapse : (shrink collapse q).WellFormed :=
      shrink_keeps (P := WellFormed) (fun r hr => (refines_collapse hr).wellFormed) hq
    exact shrink_keeps (P := WellFormed) (fun r hr => (refines_merge hr).wellFormed) hcollapse
  have hnormalize : untilStable round? p = Part.some p.normalize :=
    untilStable_eq (P := WellFormed) (f := fun q => shrink merge (shrink collapse q))
      (fun q hq => round?_eq hq) hround round_cases hp
  rw [simplify?, hnormalize, Part.bind_some, dense?_eq (refines_normalize hp).wellFormed]
  rfl

end WellFormed

/-! ## The states that are left stand for the others -/

/-- The states of `q` are states of `p` and stand for themselves. Every other state of `p` has one of
them for its image, which has a smaller number. -/
def Retracts (p q : Sparse) : Prop :=
  ∃ f : StateId → StateId, (∀ s, f s ≤ s) ∧ (∀ s, p.Live s → q.Live (f s)) ∧
    (∀ s, q.Live s → p.Live s ∧ f s = s) ∧ Image p.step p.output q.step q.output p.Live f

theorem Retracts.refl (hp : p.WellFormed) : p.Retracts p :=
  ⟨id, Nat.le_refl, fun _ hs => hs, fun _ hs => ⟨hs, rfl⟩, fun _ hst => hp.target hst,
    fun _ _ => (congrFun Option.map_id_fun _).symm, fun _ => rfl⟩

theorem Retracts.trans {q r : Sparse} (hpq : p.Retracts q) (hqr : q.Retracts r) :
    p.Retracts r := by
  obtain ⟨f, hfle, hf, hfself, hfimage⟩ := hpq
  obtain ⟨g, hgle, hg, hgself, hgimage⟩ := hqr
  refine ⟨g ∘ f, fun s => Nat.le_trans (hgle _) (hfle s), fun s hs => hg _ (hf s hs),
    fun s hs => ?_, hfimage.trans hgimage hf⟩
  obtain ⟨hq, hgs⟩ := hgself s hs
  obtain ⟨hp, hfs⟩ := hfself s hq
  refine ⟨hp, ?_⟩
  rw [Function.comp_apply, hfs, hgs]

theorem Sound.retracts {rep : Array StateId} (h : p.Sound rep) (hp : p.WellFormed) :
    p.Retracts (p.redirect rep) :=
  ⟨repOf rep, h.le, fun s hs => live_redirect_iff.2 ⟨h.idem s, h.live hs⟩,
    fun _ hs => (live_redirect_iff.1 hs).symm, h.image hp⟩

theorem retracts_normalize (hp : p.WellFormed) : p.Retracts p.normalize :=
  (normalize_keeps (P := fun q => p.Retracts q ∧ q.WellFormed)
    (fun _ _ hq h => ⟨hq.1.trans (h.retracts hq.2), (h.refines hq.2).wellFormed⟩)
    ⟨Retracts.refl hp, hp⟩).1

end Sparse

namespace Automaton

variable {a : Automaton}

/-- Drops the states that the start does not reach, unless there is no start, or a state that is
reached leads to one that is missing. -/
def prune? (a : Automaton) : Option Sparse :=
  if 0 < a.size ∧ a.prune.slots.all (·.all fun s => s.row.all (·.all (· < a.size))) then
    some a.prune
  else none

/-- The reduction, with no value if a state that is looked up is missing or if it comes to no
end. -/
def reduce? (a : Automaton) : Part Automaton := (a.prune? : Part Sparse).bind Sparse.simplify?

theorem prune?_eq (ha : a.WellFormed) (hpos : 0 < a.size) : a.prune? = some a.prune := by
  have hp := wellFormed_prune ha hpos
  refine if_pos ⟨hpos, Sparse.all_slots fun i s hs => Vector.all_eq_true.2 fun c hc => ?_⟩
  cases ht : s.row[c] with
  | none => rfl
  | some t =>
    have hlive := hp.target ((Sparse.step_of_get? hs ⟨c, hc⟩).trans ht)
    exact decide_eq_true (live_prune_iff.1 hlive).2

theorem reduce?_eq (ha : a.WellFormed) (hpos : 0 < a.size) :
    a.reduce? = Part.some a.reduce := by
  rw [reduce?, prune?_eq ha hpos, Part.coe_some, Part.bind_some]
  exact Sparse.simplify?_eq (wellFormed_prune ha hpos)

theorem exists_image_reduce (ha : a.WellFormed) (hpos : 0 < a.size) :
    ∃ f : StateId → StateId, f 0 = 0 ∧
      Image a.step a.output a.reduce.step a.reduce.output
        (fun s => a.reachable.Marked s ∧ s < a.size) f := by
  have hp := wellFormed_prune ha hpos
  obtain ⟨f, hle, hf, -, himage⟩ := Sparse.retracts_normalize hp
  have hdense := Sparse.image_dense (refines_normalize_prune ha hpos).wellFormed
  have hprune : Image a.step a.output a.prune.step a.prune.output
      (fun s => a.reachable.Marked s ∧ s < a.size) id :=
    { closed := fun hs hst => ⟨(image_prune ha hpos).closed hs.1 hst, ha _ _ _ hst⟩
      step := fun hs => (image_prune ha hpos).step hs.1
      output := fun hs => (image_prune ha hpos).output hs.1 }
  refine ⟨_, ?_, (hprune.trans himage fun s hs => live_prune_iff.2 hs).trans hdense
    fun s hs => hf s (live_prune_iff.2 hs)⟩
  show Sparse.rank _ (f 0) = 0
  rw [Nat.le_zero.1 (hle 0)]
  rfl

/-- Reduction of a well-formed automaton comes to an end and finds every state that it looks up. Its
result is well formed, has no more states and gives every path the same value; the states that paths
lead to are images of where they led before, and the start is the image of the start. -/
theorem reduce_exact (ha : a.WellFormed) (hpos : 0 < a.size) :
    a.reduce? = Part.some a.reduce ∧ a.reduce.WellFormed ∧ 0 < a.reduce.size ∧
      a.reduce.size ≤ a.size ∧ (∀ w, a.reduce.lookup w = a.lookup w) ∧
      ∃ f : StateId → StateId, f 0 = 0 ∧ ∀ w, a.reduce.walk 0 w = (a.walk 0 w).map f ∧
        ∀ s, a.walk 0 w = some s → a.reduce.output (f s) = a.output s := by
  obtain ⟨f, hf0, himage⟩ := exists_image_reduce ha hpos
  have hstart : a.reachable.Marked 0 ∧ 0 < a.size := ⟨(reachable_closed ha hpos).1, hpos⟩
  refine ⟨reduce?_eq ha hpos, wellFormed_reduce ha hpos, size_reduce_pos ha hpos,
    size_reduce_le ha hpos, reduce_lookup ha hpos, f, hf0, fun w => ⟨?_, fun s hs => ?_⟩⟩
  · have hwalk := walk_image himage hstart w
    rwa [hf0] at hwalk
  · exact himage.output (walk_holds himage.closed hstart hs)

/-- An automaton with a circle through its start, a sink, a state that is a catch-all for the sink
and has the smaller number, a state that only leads to itself but is not reached, and two states
that are equal. -/
def tangled : Automaton := ⟨#[
  ⟨(Row.fill (some 1)).set 0 (some 4), none⟩,
  ⟨(Row.fill (some 2)).set 0 (some 0), some 1⟩,
  ⟨Row.fill (some 3), some 7⟩,
  ⟨Row.fill (some 3), some 7⟩,
  ⟨(Row.fill (some 2)).set 0 (some 0), some 1⟩,
  ⟨Row.fill (some 5), none⟩]⟩

theorem wellFormed_tangled : tangled.WellFormed := by
  intro s c t h
  obtain ⟨state, hs, ht⟩ := step_eq_some h
  have hmem : state ∈ tangled.states := Array.mem_of_getElem? hs
  have hset : ∀ {i j k : StateId}, ((Row.fill (some i)).set 0 (some j))[c] = some k →
      k = i ∨ k = j := by
    intro i j k hk
    rw [Row.getElem_eq, Vector.getElem_set] at hk
    split at hk
    · exact .inr (Option.some.inj hk).symm
    · exact .inl (Option.some.inj ((Row.getElem_fill _ c).symm.trans hk)).symm
  have hfill : ∀ {i k : StateId}, (Row.fill (some i))[c] = some k → k = i :=
    fun hk => (Option.some.inj ((Row.getElem_fill _ c).symm.trans hk)).symm
  simp only [tangled, Array.mem_def, List.mem_cons, List.not_mem_nil, or_false] at hmem
  rcases hmem with rfl | rfl | rfl | rfl | rfl | rfl
  · rcases hset ht with rfl | rfl <;> decide
  · rcases hset ht with rfl | rfl <;> decide
  · obtain rfl := hfill ht
    decide
  · obtain rfl := hfill ht
    decide
  · rcases hset ht with rfl | rfl <;> decide
  · obtain rfl := hfill ht
    decide

theorem reduce_exact_tangled :
    tangled.WellFormed ∧ 0 < tangled.size ∧
      tangled.reduce? = Part.some tangled.reduce ∧ tangled.reduce.WellFormed ∧
      0 < tangled.reduce.size ∧ tangled.reduce.size ≤ tangled.size ∧
      (∀ w, tangled.reduce.lookup w = tangled.lookup w) ∧
      ∃ f : StateId → StateId, f 0 = 0 ∧ ∀ w,
        tangled.reduce.walk 0 w = (tangled.walk 0 w).map f ∧
        ∀ s, tangled.walk 0 w = some s → tangled.reduce.output (f s) = tangled.output s :=
  ⟨wellFormed_tangled, by decide, reduce_exact wellFormed_tangled (by decide)⟩

end Automaton

end PathPolicy
