import PathPolicy.Proofs.Grouping

/-!
# Packed tables take the steps of their automaton

The row of a group holds, for every symbol, the target of its owner, so a member of the group finds
its own target there or takes its default. Hence the tables of a well-formed automaton take the same
steps as the automaton (`step_pack`) and answer every path alike (`pack_lookup`). They are well
formed as well (`wellFormed_pack`).
-/

namespace PathPolicy

/-! ## The most common entry -/

theorem Row.foldl_commonest (row : Row) (entries : List (Option StateId))
    (best : Option StateId × Nat) :
    (entries.foldl (fun (best, most) t =>
      if most < row.count t then (t, row.count t) else (best, most)) best).1 = best.1 ∨
    (entries.foldl (fun (best, most) t =>
      if most < row.count t then (t, row.count t) else (best, most)) best).1 ∈ entries := by
  induction entries generalizing best with
  | nil => exact .inl rfl
  | cons t rest ih =>
    obtain ⟨b, m⟩ := best
    by_cases hlt : m < row.count t
    · have hnext : (if m < row.count t then (t, row.count t) else (b, m)) = (t, row.count t) :=
        if_pos hlt
      simp only [List.foldl_cons, hnext]
      right
      rcases ih (t, row.count t) with h | h
      · exact List.mem_cons.2 (.inl h)
      · exact List.mem_cons_of_mem t h
    · have hnext : (if m < row.count t then (t, row.count t) else (b, m)) = (b, m) := if_neg hlt
      simp only [List.foldl_cons, hnext]
      exact (ih (b, m)).imp id (List.mem_cons_of_mem t)

theorem Row.exists_of_commonest {row : Row} {t : StateId} (h : row.commonest = some t) :
    ∃ c : Symbol, row[c] = some t := by
  unfold commonest at h
  rcases row.foldl_commonest row.toList.eraseDups (none, 0) with hbest | hmem
  · rw [h] at hbest
    cases hbest
  · rw [h, List.mem_eraseDups, Vector.mem_toList_iff] at hmem
    obtain ⟨i, hi, hit⟩ := Vector.getElem_of_mem hmem
    exact ⟨⟨i, hi⟩, hit⟩

/-! ## Rows one after the other -/

section Rows

variable {α β : Type} {f : α → List β} {k : Nat}

theorem length_flatMap_rows (l : List α) (hf : ∀ x, (f x).length = k) :
    (l.flatMap f).length = l.length * k := by
  induction l with
  | nil => exact (Nat.zero_mul k).symm
  | cons x rest ih =>
    rw [List.flatMap_cons, List.length_append, hf, ih, List.length_cons, Nat.succ_mul, Nat.add_comm]

theorem getElem?_flatMap_rows (l : List α) (hf : ∀ x, (f x).length = k) (i : Nat) {c : Nat}
    (hc : c < k) : (l.flatMap f)[i * k + c]? = (l[i]?).bind fun x => (f x)[c]? := by
  induction l generalizing i with
  | nil => rfl
  | cons x rest ih =>
    rw [List.flatMap_cons]
    cases i with
    | zero =>
      rw [Nat.zero_mul, Nat.zero_add, List.getElem?_append_left (by rw [hf]; exact hc)]
      rfl
    | succ i =>
      have hle : (f x).length ≤ (i + 1) * k + c := by
        rw [hf, Nat.succ_mul]
        omega
      have hsub : (i + 1) * k + c - (f x).length = i * k + c := by
        rw [hf, Nat.succ_mul]
        omega
      rw [List.getElem?_append_right hle, hsub, ih i, List.getElem?_cons_succ]

end Rows

namespace Packing

/-! ## The number of a state's group -/

theorem getElem?_foldl_set (members : List StateId) (base : Array Nat) (i : Nat) (s : StateId) :
    (members.foldl (fun base s => base.setIfInBounds s i) base)[s]? =
      if s ∈ members ∧ s < base.size then some i else base[s]? := by
  induction members generalizing base with
  | nil => rw [if_neg fun h => List.not_mem_nil h.1]; rfl
  | cons t rest ih =>
    rw [List.foldl_cons, ih, Array.size_setIfInBounds, Array.getElem?_setIfInBounds]
    by_cases hlt : s < base.size
    · by_cases hrest : s ∈ rest
      · rw [if_pos ⟨hrest, hlt⟩, if_pos ⟨List.mem_cons_of_mem t hrest, hlt⟩]
      · rw [if_neg fun h => hrest h.1]
        by_cases hts : t = s
        · subst hts
          rw [if_pos rfl, if_pos hlt, if_pos ⟨List.mem_cons_self, hlt⟩]
        · rw [if_neg hts, if_neg fun h => (List.mem_cons.1 h.1).elim (fun h => hts h.symm) hrest]
    · have hnone : base[s]? = none := Array.getElem?_eq_none (Nat.not_lt.1 hlt)
      rw [if_neg (not_and_of_not_right (s ∈ rest) hlt),
        if_neg (not_and_of_not_right (s ∈ t :: rest) hlt), hnone]
      by_cases hts : t = s
      · rw [if_pos hts, if_neg (hts ▸ hlt)]
      · rw [if_neg hts]

theorem size_foldl_set (members : List StateId) (base : Array Nat) (i : Nat) :
    (members.foldl (fun base s => base.setIfInBounds s i) base).size = base.size := by
  induction members generalizing base with
  | nil => rfl
  | cons t rest ih => exact (ih _).trans Array.size_setIfInBounds

/-- Numbering groups sets the entry of a state to the number of its group and leaves the entries of
other states. -/
theorem foldl_bases (gs : List Group) (n : Nat) (base : Array Nat) :
    ((gs.zipIdx n).foldl
      (fun base (g, i) => g.members.foldl (fun base s => base.setIfInBounds s i) base) base).size =
        base.size ∧
    ∀ s, (s ∉ gs.flatMap Group.members → ((gs.zipIdx n).foldl
      (fun base (g, i) => g.members.foldl (fun base s => base.setIfInBounds s i) base) base)[s]? =
        base[s]?) ∧
    (s < base.size → (gs.flatMap Group.members).Nodup → ∀ i g, gs[i]? = some g → s ∈ g.members →
      ((gs.zipIdx n).foldl
        (fun base (g, i) => g.members.foldl (fun base s => base.setIfInBounds s i) base) base)[s]? =
        some (n + i)) := by
  induction gs generalizing n base with
  | nil => exact ⟨rfl, fun s => ⟨fun _ => rfl, fun _ _ i g hg => nomatch hg⟩⟩
  | cons h rest ih =>
    rw [List.zipIdx_cons, List.foldl_cons]
    obtain ⟨hsize, hrest⟩ :=
      ih (n + 1) (h.members.foldl (fun base s => base.setIfInBounds s n) base)
    refine ⟨hsize.trans (size_foldl_set h.members base n), fun s => ?_⟩
    obtain ⟨hout, hin⟩ := hrest s
    rw [size_foldl_set] at hin
    simp only [List.flatMap_cons]
    refine ⟨fun hs => ?_, fun hlt hnodup i g hg hs => ?_⟩
    · rw [List.mem_append, not_or] at hs
      exact (hout hs.2).trans ((getElem?_foldl_set h.members base n s).trans
        (if_neg fun hmem => hs.1 hmem.1))
    · obtain ⟨-, hnodup', hdisj⟩ := List.nodup_append'.1 hnodup
      cases i with
      | zero =>
        rw [List.getElem?_cons_zero] at hg
        injection hg with hg
        subst hg
        exact (hout (hdisj hs)).trans ((getElem?_foldl_set h.members base n s).trans
          (if_pos ⟨hs, hlt⟩))
      | succ i =>
        rw [List.getElem?_cons_succ] at hg
        exact (hin hlt hnodup' i g hg hs).trans (congrArg some (by omega))

theorem size_bases (n : Nat) (gs : List Group) : (bases n gs).size = n :=
  (foldl_bases gs 0 (Array.replicate n 0)).1.trans Array.size_replicate

theorem getElem?_bases {n : Nat} {gs : List Group} (hnodup : (gs.flatMap Group.members).Nodup)
    {s : StateId} (hs : s < n) {i : Nat} {g : Group} (hg : gs[i]? = some g) (hmem : s ∈ g.members) :
    (bases n gs)[s]? = some i := by
  have hlt : s < (Array.replicate n 0).size := by
    rw [Array.size_replicate]
    exact hs
  refine (((foldl_bases gs 0 (Array.replicate n 0)).2 s).2 hlt hnodup i g hg hmem).trans ?_
  rw [Nat.zero_add]

/-! ## The row of a group -/

variable (a : Automaton)

theorem Group.length_ownerRow (g : Group) : g.ownerRow.length = 255 := by
  unfold ownerRow symbols
  rw [List.length_map, List.length_finRange]

theorem Group.length_targetRow (g : Group) : (g.targetRow a).length = 255 := by
  unfold targetRow symbols
  rw [List.length_map, List.length_finRange]

theorem getElem?_symbols (c : Symbol) : symbols[c.val]? = some c := by
  unfold symbols
  rw [List.getElem?_eq_getElem (by rw [List.length_finRange]; exact c.isLt), List.getElem_finRange]
  rfl

theorem Group.getElem?_ownerRow (g : Group) (c : Symbol) :
    g.ownerRow[c.val]? = some (g.owner[c].getD g.last) := by
  unfold ownerRow
  rw [List.getElem?_map, getElem?_symbols]
  rfl

theorem Group.getElem?_targetRow (g : Group) (c : Symbol) :
    (g.targetRow a)[c.val]? = some (a.step (g.owner[c].getD g.last) c) := by
  unfold targetRow
  rw [List.getElem?_map, getElem?_symbols]
  rfl

variable {a} in
theorem Group.Of.mem_of_getD {g : Group} (hg : g.Of a) (c : Symbol) :
    g.owner[c].getD g.last ∈ g.members := by
  cases ho : g.owner[c] with
  | some s => exact hg.mem_of_owner ho
  | none =>
    show g.members.getLastD 0 ∈ g.members
    rw [List.getLastD_eq_getLast?, List.getLast?_eq_some_getLast hg.ne_nil]
    exact List.getLast_mem hg.ne_nil

end Packing

namespace Automaton

open Packing

variable (a : Automaton)

theorem states_pack : a.pack.states = a.size := Array.size_map

theorem targets_size_pack : a.pack.targets.size = (Packing.groups a).length * 255 := by
  show ((Packing.groups a).flatMap (Group.targetRow a)).toArray.size = _
  rw [List.size_toArray, length_flatMap_rows _ (Group.length_targetRow a)]

theorem owners_size_pack : a.pack.owners.size = (Packing.groups a).length * 255 := by
  show ((Packing.groups a).flatMap fun g => g.ownerRow.map some).toArray.size = _
  rw [List.size_toArray, length_flatMap_rows]
  intro g
  rw [List.length_map, g.length_ownerRow]

theorem groups_pack : a.pack.groups = (Packing.groups a).length := by
  unfold Packed.groups
  rw [targets_size_pack, Nat.mul_div_cancel _ (by decide)]

theorem default_pack (s : StateId) : a.pack.default.getD s none = a.default s := by
  show (a.states.map _).getD s none = _
  rw [Array.getD_eq_getD_getElem?, Array.getElem?_map, default]
  cases a.states[s]? <;> rfl

theorem output_pack (s : StateId) : a.pack.output s = a.output s := by
  show (a.states.map _).getD s none = _
  rw [Array.getD_eq_getD_getElem?, Array.getElem?_map, output]
  cases a.states[s]? <;> rfl

/-- Every state is a member of the group that its base names. -/
theorem exists_group {s : StateId} (hs : s < a.size) :
    ∃ i g, (Packing.groups a)[i]? = some g ∧ s ∈ g.members ∧ a.pack.base.getD s 0 = i := by
  have hmem : s ∈ (Packing.groups a).flatMap Group.members :=
    (perm_groups a).mem_iff.2 (List.mem_range.2 hs)
  obtain ⟨g, hg, hsg⟩ := List.mem_flatMap.1 hmem
  obtain ⟨i, hi, hgi⟩ := List.getElem_of_mem hg
  have hgi' : (Packing.groups a)[i]? = some g := List.getElem?_eq_some_iff.2 ⟨hi, hgi⟩
  refine ⟨i, g, hgi', hsg, ?_⟩
  show (bases a.size (Packing.groups a)).getD s 0 = i
  rw [Array.getD_eq_getD_getElem?, getElem?_bases (nodup_groups a) hs hgi' hsg, Option.getD_some]

theorem step_pack {s : StateId} (hs : s < a.size) (c : Symbol) : a.pack.step s c = a.step s c := by
  obtain ⟨i, g, hgi, hmem, hbase⟩ := a.exists_group hs
  have hg : g.Of a := of_mem_groups (List.mem_of_getElem? hgi)
  have howner : a.pack.owners.getD (a.pack.index s c) none = some (g.owner[c].getD g.last) := by
    show ((Packing.groups a).flatMap fun g => g.ownerRow.map some).toArray.getD _ none = _
    have hlen : ∀ g : Group, (g.ownerRow.map some).length = 255 := fun g => by
      rw [List.length_map, g.length_ownerRow]
    rw [Array.getD_eq_getD_getElem?, List.getElem?_toArray, Packed.index, hbase,
      getElem?_flatMap_rows _ hlen i c.isLt, hgi, Option.bind_some, List.getElem?_map,
      g.getElem?_ownerRow]
    rfl
  have htarget : a.pack.targets.getD (a.pack.index s c) none =
      a.step (g.owner[c].getD g.last) c := by
    show ((Packing.groups a).flatMap (Group.targetRow a)).toArray.getD _ none = _
    rw [Array.getD_eq_getD_getElem?, List.getElem?_toArray, Packed.index, hbase,
      getElem?_flatMap_rows _ (Group.length_targetRow a) i c.isLt, hgi, Option.bind_some,
      g.getElem?_targetRow, Option.getD_some]
  unfold Packed.step
  rw [howner, htarget, default_pack]
  by_cases hown : some (g.owner[c].getD g.last) = some s
  · rw [if_pos hown, Option.some.inj hown]
  · rw [if_neg hown]
    -- A state that is not the owner takes its default.
    by_contra hne
    have hsome := hg.owner_of hmem (Ne.symm hne)
    rw [hsome] at hown
    exact hown rfl

variable {a}

/-- The tables answer every path as the automaton does. -/
theorem pack_lookup (ha : a.WellFormed) (hpos : 0 < a.size) (w : Bytes) :
    a.pack.lookup w = a.lookup w := by
  have hvalue : ∀ u, valueAlong a.pack.step a.pack.output 0 u = valueAlong a.step a.output 0 u := by
    refine valueAlong_eq (fun s t => s = t ∧ s < a.size) ?_ ?_ ⟨rfl, hpos⟩
    · rintro s _ c ⟨rfl, hs⟩
      rw [a.step_pack hs]
      cases hc : a.step s c with
      | none => exact .none
      | some t => exact .some ⟨rfl, ha s c t hc⟩
    · rintro s _ ⟨rfl, -⟩
      exact a.output_pack s
  rw [Packed.lookup_eq_pathValue, lookup_eq_pathValue, pathValue, pathValue, hvalue]

/-! ## The tables are well formed -/

theorem length_le_length_flatMap {α β : Type} {f : α → List β} {l : List α}
    (h : ∀ x ∈ l, f x ≠ []) : l.length ≤ (l.flatMap f).length := by
  induction l with
  | nil => exact Nat.le_refl 0
  | cons x rest ih =>
    obtain ⟨hx, hrest⟩ := List.forall_mem_cons.1 h
    have hpos := List.length_pos_iff.2 hx
    have := ih hrest
    rw [List.flatMap_cons, List.length_append, List.length_cons]
    omega

theorem groups_pack_le : a.pack.groups ≤ a.size := by
  have hlen := (perm_groups a).length_eq
  rw [List.length_range] at hlen
  rw [groups_pack, ← hlen]
  exact length_le_length_flatMap fun g hg => (of_mem_groups hg).ne_nil

theorem groups_pack_pos (hpos : 0 < a.size) : 0 < a.pack.groups := by
  obtain ⟨i, g, hgi, -⟩ := a.exists_group hpos
  rw [groups_pack]
  exact List.length_pos_iff.2 (List.ne_nil_of_mem (List.mem_of_getElem? hgi))

theorem validTarget_some {n : Nat} {s : StateId} (h : s < n) :
    Packed.validTarget n (some s) = true := decide_eq_true h

theorem wellFormed_pack (ha : a.WellFormed) (hpos : 0 < a.size) (hlt : a.size < 0xffffffff)
    (hout : ∀ s, a.output s ≠ some reservedValue) : a.pack.WellFormed where
  states_pos := Nat.lt_of_lt_of_eq hpos a.states_pack.symm
  states_lt := a.states_pack.trans_lt hlt
  groups_pos := groups_pack_pos hpos
  groups_le := Nat.le_trans groups_pack_le (Nat.le_of_eq a.states_pack.symm)
  base_size := (size_bases a.size _).trans a.states_pack.symm
  outputs_size := Array.size_map.trans a.states_pack.symm
  targets_size := by rw [targets_size_pack, groups_pack]
  owners_size := by rw [owners_size_pack, groups_pack]
  default_valid := by
    intro t ht
    obtain ⟨state, hstate, rfl⟩ := Array.mem_map.1 ht
    obtain ⟨s, hs, hget⟩ := Array.getElem_of_mem hstate
    cases hc : state.row.commonest with
    | none => rfl
    | some t =>
      obtain ⟨c, hc⟩ := Row.exists_of_commonest hc
      rw [states_pack]
      refine validTarget_some (ha s c t ?_)
      rw [step_of_getElem? (Array.getElem?_eq_some_iff.2 ⟨hs, hget⟩), hc]
  targets_valid := by
    intro t ht
    obtain ⟨g, -, htg⟩ := List.mem_flatMap.1 (List.mem_toArray.1 ht)
    obtain ⟨c, -, rfl⟩ := List.mem_map.1 htg
    rw [states_pack]
    cases hc : a.step (g.owner[c].getD g.last) c with
    | none => rfl
    | some t => exact validTarget_some (ha _ c t hc)
  owners_valid := by
    intro t ht
    obtain ⟨g, hg, htg⟩ := List.mem_flatMap.1 (List.mem_toArray.1 ht)
    obtain ⟨s, hs, rfl⟩ := List.mem_map.1 htg
    obtain ⟨c, -, rfl⟩ := List.mem_map.1 hs
    rw [states_pack]
    exact validTarget_some ((of_mem_groups hg).lt _ ((of_mem_groups hg).mem_of_getD c))
  base_valid := by
    intro i hi
    obtain ⟨s, hs, rfl⟩ := Array.getElem_of_mem hi
    have hlt : s < a.size := Nat.lt_of_lt_of_eq hs (size_bases a.size _)
    obtain ⟨i, g, hgi, -, hbase⟩ := a.exists_group hlt
    rw [Array.getD_eq_getD_getElem?, Array.getElem?_eq_getElem hs, Option.getD_some] at hbase
    rw [hbase, groups_pack]
    exact (List.getElem?_eq_some_iff.1 hgi).1
  outputs_valid := by
    intro v hv
    obtain ⟨state, hstate, rfl⟩ := Array.mem_map.1 hv
    obtain ⟨s, hs, hget⟩ := Array.getElem_of_mem hstate
    have heq := hout s
    rw [output, Array.getElem?_eq_some_iff.2 ⟨hs, hget⟩] at heq
    exact heq

end Automaton

end PathPolicy
