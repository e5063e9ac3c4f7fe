import Mathlib.Data.List.Nodup
import PathPolicy.Automaton.Packing
import PathPolicy.Proofs.Reduction

/-!
# Groups of states

A group of an automaton has an owner for every symbol on which one of its members leaves its default
(`Group.Of`). Groups are grown and folded so that this stays true, and so that every state is in
exactly one group (`perm_groups`).
-/

namespace PathPolicy

def Automaton.default (a : Automaton) (s : StateId) : Option StateId :=
  (a.states[s]?).bind fun state => state.row.commonest

/-! ## Marking several states -/

namespace Marks

theorem size_addAll (marks : Marks) (states : List StateId) :
    (marks.addAll states).size = marks.size := by
  induction states generalizing marks with
  | nil => rfl
  | cons s rest ih => exact (ih (marks.add s)).trans (size_add marks s)

theorem isOpen_add_iff {marks : Marks} {s t : StateId} :
    (marks.add s).isOpen t = true ↔ marks.isOpen t = true ∧ s ≠ t := by
  rw [isOpen_iff, isOpen_iff, marked_add_iff, size_add]
  constructor
  · rintro ⟨hlt, h⟩
    exact ⟨⟨hlt, fun hm => h (.inl hm)⟩, fun he => h (.inr ⟨he, hlt⟩)⟩
  · rintro ⟨⟨hlt, h⟩, hne⟩
    exact ⟨hlt, fun hm => hm.elim h fun he => hne he.1⟩

theorem isOpen_addAll_iff {marks : Marks} {states : List StateId} {t : StateId} :
    (marks.addAll states).isOpen t = true ↔ marks.isOpen t = true ∧ t ∉ states := by
  induction states generalizing marks with
  | nil => exact ⟨fun h => ⟨h, List.not_mem_nil⟩, fun h => h.1⟩
  | cons s rest ih =>
    show ((marks.add s).addAll rest).isOpen t = true ↔ _
    rw [ih, isOpen_add_iff, List.mem_cons, not_or]
    constructor
    · rintro ⟨⟨hopen, hne⟩, hnot⟩
      exact ⟨hopen, Ne.symm hne, hnot⟩
    · rintro ⟨hopen, hne, hnot⟩
      exact ⟨⟨hopen, Ne.symm hne⟩, hnot⟩

theorem isOpen_blank_iff {n : Nat} {s : StateId} : (blank n).isOpen s = true ↔ s < n := by
  rw [isOpen_iff, size_blank]
  exact ⟨fun h => h.1, fun h => ⟨h, not_marked_blank n s⟩⟩

end Marks

/-! ## Ascending lists -/

theorem pairwise_eraseReps_loop {a : Nat} {as acc : List Nat} (has : (a :: as).Pairwise (· ≤ ·))
    (hacc : acc.Pairwise fun x y => y < x) (hlt : ∀ x ∈ acc, x < a) :
    (List.eraseRepsBy.loop (· == ·) a as acc).Pairwise (· < ·) ∧
      ∀ x ∈ List.eraseRepsBy.loop (· == ·) a as acc, x ∈ a :: as ∨ x ∈ acc := by
  have hcons : (a :: acc).Pairwise fun x y => y < x := List.pairwise_cons.2 ⟨hlt, hacc⟩
  induction as generalizing a acc with
  | nil =>
    unfold List.eraseRepsBy.loop
    refine ⟨List.pairwise_reverse.2 hcons, fun x hx => ?_⟩
    exact (List.mem_cons.1 (List.mem_reverse.1 hx)).imp List.mem_singleton.2 id
  | cons b rest ih =>
    obtain ⟨ha, hrest⟩ := List.pairwise_cons.1 has
    unfold List.eraseRepsBy.loop
    split
    · rename_i heq
      obtain rfl := eq_of_beq heq
      obtain ⟨hpair, hmem⟩ := ih hrest hacc hlt hcons
      exact ⟨hpair, fun x hx => (hmem x hx).imp (List.mem_cons_of_mem a) id⟩
    · rename_i hne
      have hab : a < b := by
        refine Nat.lt_of_le_of_ne (ha b List.mem_cons_self) fun heq => ?_
        rw [heq, beq_self_eq_true] at hne
        cases hne
      have hlt' : ∀ x ∈ a :: acc, x < b := by
        intro x hx
        rcases List.mem_cons.1 hx with rfl | hx
        · exact hab
        · exact Nat.lt_trans (hlt x hx) hab
      obtain ⟨hpair, hmem⟩ := ih hrest hcons hlt' (List.pairwise_cons.2 ⟨hlt', hcons⟩)
      refine ⟨hpair, fun x hx => ?_⟩
      rcases hmem x hx with hx | hx
      · exact .inl (List.mem_cons_of_mem a hx)
      · exact (List.mem_cons.1 hx).imp (fun heq => List.mem_cons.2 (.inl heq)) id

theorem pairwise_eraseReps {l : List Nat} (h : l.Pairwise (· ≤ ·)) :
    l.eraseReps.Pairwise (· < ·) ∧ ∀ x ∈ l.eraseReps, x ∈ l := by
  cases l with
  | nil => exact ⟨List.Pairwise.nil, fun x hx => hx⟩
  | cons a as =>
    obtain ⟨hpair, hmem⟩ := pairwise_eraseReps_loop h List.Pairwise.nil nofun
    exact ⟨hpair, fun x hx => (hmem x hx).resolve_right List.not_mem_nil⟩

namespace Packing

/-! ## One group -/

/-- A group of states of `a`: not empty, and with an owner for those symbols on which a member
leaves its default. -/
structure Group.Of (a : Automaton) (g : Group) : Prop where
  ne_nil : g.members ≠ []
  lt : ∀ s ∈ g.members, s < a.size
  mem_of_owner : ∀ {c : Symbol} {s}, g.owner[c] = some s → s ∈ g.members
  leaves : ∀ {c : Symbol} {s}, g.owner[c] = some s → a.step s c ≠ a.default s
  owner_of : ∀ {c : Symbol} {s}, s ∈ g.members → a.step s c ≠ a.default s → g.owner[c] = some s

namespace Group

variable {a : Automaton} {g h : Group}

theorem of_single {s : StateId} {state : State} (hs : a.states[s]? = some state) :
    (single s state).Of a := by
  have hdefault : a.default s = state.row.commonest := by
    rw [Automaton.default, hs, Option.bind_some]
  have howner : ∀ c : Symbol, (single s state).owner[c] =
      if state.row[c] = state.row.commonest then none else some s := by
    intro c
    unfold single
    rw [Row.getElem_eq, Vector.getElem_map, Row.getElem_eq]
  refine ⟨List.cons_ne_nil s [], fun t ht => ?_, fun {c t} ht => ?_, fun {c t} ht => ?_,
    fun {c t} ht hne => ?_⟩
  · rw [List.mem_singleton.1 ht]
    exact (Array.getElem?_eq_some_iff.1 hs).1
  · rw [howner] at ht
    split at ht
    · cases ht
    · injection ht with ht
      exact ht ▸ List.mem_cons_self
  · rw [howner] at ht
    split at ht
    · cases ht
    · rename_i hne
      injection ht with ht
      rw [← ht, Automaton.step_of_getElem? hs, hdefault]
      exact hne
  · obtain rfl := List.mem_singleton.1 ht
    rw [Automaton.step_of_getElem? hs, hdefault] at hne
    rw [howner, if_neg hne]

theorem getElem_owner_append (g h : Group) (c : Symbol) :
    (g.append h).owner[c] = g.owner[c].or h.owner[c] := by
  unfold append
  rw [Row.getElem_eq, Row.getElem_eq, Row.getElem_eq, Vector.getElem_zipWith]

/-- Groups that fit together are one group. -/
theorem Of.append (hg : g.Of a) (hh : h.Of a) (hfits : g.fits h = true) : (g.append h).Of a := by
  refine ⟨List.append_ne_nil_of_left_ne_nil hg.ne_nil _, fun s hs => ?_, fun {c s} hs => ?_,
    fun {c s} hs => ?_, fun {c s} hs hne => ?_⟩
  · exact (List.mem_append.1 hs).elim (hg.lt s) (hh.lt s)
  · rw [getElem_owner_append, Option.or_eq_some_iff] at hs
    rcases hs with hs | ⟨-, hs⟩
    · exact List.mem_append_left _ (hg.mem_of_owner hs)
    · exact List.mem_append_right _ (hh.mem_of_owner hs)
  · rw [getElem_owner_append, Option.or_eq_some_iff] at hs
    rcases hs with hs | ⟨-, hs⟩
    · exact hg.leaves hs
    · exact hh.leaves hs
  · rw [getElem_owner_append]
    rcases List.mem_append.1 hs with hs | hs
    · rw [hg.owner_of hs hne, Option.some_or]
    · have hsome := hh.owner_of hs hne
      have howned : c ∈ h.owned := (h.mem_owned c).2 (by rw [hsome]; rfl)
      have hnone : g.owner[c] = none :=
        Option.isNone_iff_eq_none.1 (List.all_eq_true.1 hfits c howned)
      rw [hnone, hsome, Option.none_or]

theorem Of.add (hg : g.Of a) (hh : h.Of a) : (g.add h).Of a := by
  unfold Group.add
  split
  · rename_i hfits
    exact hg.append hh hfits
  · exact hg

theorem members_add (g h : Group) :
    (g.add h).members = g.members ++ h.members ∨ (g.add h).members = g.members := by
  unfold add
  split
  · exact .inl rfl
  · exact .inr rfl

end Group

/-! ## Growing groups -/

namespace Plan

section

variable {a : Automaton}

theorem single_plan {s : StateId} (h : s < a.size) :
    ∃ state, a.states[s]? = some state ∧ (plan a).single s = Group.single s state := by
  have hlt : s < a.states.size := h
  refine ⟨a.states[s], Array.getElem?_eq_getElem hlt, ?_⟩
  unfold single plan
  rw [Array.getD_eq_getD_getElem?, Array.getElem?_mapIdx, Array.getElem?_eq_getElem hlt]
  rfl

theorem of_single {s : StateId} (h : s < a.size) : ((plan a).single s).Of a := by
  obtain ⟨state, hs, heq⟩ := single_plan h
  rw [heq]
  exact Group.of_single hs

theorem members_single {s : StateId} (h : s < a.size) : ((plan a).single s).members = [s] := by
  obtain ⟨state, -, heq⟩ := single_plan h
  rw [heq]
  rfl

/-- A level takes in some of its states, in their order. -/
theorem foldl_add (level : List StateId) {g : Group} (hg : g.Of a) (hlt : ∀ s ∈ level, s < a.size) :
    (level.foldl (fun g s => g.add ((plan a).single s)) g).Of a ∧
      ∃ taken, taken.Sublist level ∧
        (level.foldl (fun g s => g.add ((plan a).single s)) g).members = g.members ++ taken := by
  induction level generalizing g with
  | nil => exact ⟨hg, [], List.Sublist.refl [], (List.append_nil _).symm⟩
  | cons s rest ih =>
    obtain ⟨hs, hrest⟩ := List.forall_mem_cons.1 hlt
    obtain ⟨hof, taken, hsub, hmembers⟩ := ih (hg.add (of_single hs)) hrest
    refine ⟨hof, ?_⟩
    rw [List.foldl_cons, hmembers]
    rcases g.members_add ((plan a).single s) with hadd | hadd <;> rw [hadd]
    · rw [members_single hs, List.append_assoc]
      exact ⟨s :: taken, hsub.cons_cons s, rfl⟩
    · exact ⟨taken, hsub.cons s, rfl⟩

theorem frontier_spec (p : Plan) (seen : Marks) (states : List StateId) :
    (p.frontier seen states).Nodup ∧ ∀ s ∈ p.frontier seen states, seen.isOpen s = true := by
  have hsorted : ∀ l : List StateId, (l.mergeSort (· ≤ ·)).Pairwise (· ≤ ·) := by
    intro l
    refine (List.pairwise_mergeSort ?_ ?_ l).imp of_decide_eq_true
    · intro x y z hxy hyz
      exact decide_eq_true (Nat.le_trans (of_decide_eq_true hxy) (of_decide_eq_true hyz))
    · intro x y
      rw [Bool.or_eq_true, decide_eq_true_eq, decide_eq_true_eq]
      exact Nat.le_total x y
  obtain ⟨hpair, hmem⟩ := pairwise_eraseReps (hsorted
    ((states.flatMap fun s => p.successors.getD s []).filter seen.isOpen))
  refine ⟨hpair.imp Nat.ne_of_lt, fun s hs => ?_⟩
  exact (List.mem_filter.1 (List.mem_mergeSort.1 (hmem s hs))).2

/-- A group grows by states that were open, each once. -/
theorem grow_spec {seen : Marks} {level : List StateId} {g : Group} (hsize : seen.size = a.size)
    (hg : g.Of a) (hnodup : level.Nodup) (hopen : ∀ s ∈ level, seen.isOpen s = true) :
    ((plan a).grow seen level g).Of a ∧
      ∃ taken, taken.Nodup ∧ (∀ s ∈ taken, seen.isOpen s = true) ∧
        ((plan a).grow seen level g).members = g.members ++ taken := by
  induction hn : seen.openCount using Nat.strongRecOn generalizing seen level g with
  | _ n ih =>
  unfold Plan.grow
  split
  · rename_i hany
    have hlt : ∀ s ∈ level, s < a.size := fun s hs =>
      Nat.lt_of_lt_of_eq (Marks.isOpen_iff.1 (hopen s hs)).1 hsize
    obtain ⟨hof, taken, hsub, hmembers⟩ := foldl_add level hg hlt
    obtain ⟨hfnodup, hfopen⟩ := frontier_spec (plan a) (seen.addAll level) level
    obtain ⟨hof', taken', hnodup', hopen', hmembers'⟩ :=
      ih _ (hn ▸ Marks.openCount_addAll_lt hany) ((Marks.size_addAll seen level).trans hsize) hof
        hfnodup hfopen rfl
    refine ⟨hof', taken ++ taken', ?_, fun s hs => ?_, ?_⟩
    · refine List.nodup_append'.2 ⟨hnodup.sublist hsub, hnodup', fun s hs hs' => ?_⟩
      exact (Marks.isOpen_addAll_iff.1 (hopen' s hs')).2 (hsub.subset hs)
    · rcases List.mem_append.1 hs with hs | hs
      · exact hopen s (hsub.subset hs)
      · exact (Marks.isOpen_addAll_iff.1 (hopen' s hs)).1
    · rw [hmembers', hmembers, List.append_assoc]
  · exact ⟨hg, [], List.nodup_nil, nofun, (List.append_nil _).symm⟩

theorem growFrom_spec {grouped : Marks} {s : StateId} (hsize : grouped.size = a.size)
    (hs : grouped.isOpen s = true) :
    ((plan a).growFrom grouped s).Of a ∧ s ∈ ((plan a).growFrom grouped s).members ∧
      ((plan a).growFrom grouped s).members.Nodup ∧
      ∀ t ∈ ((plan a).growFrom grouped s).members, grouped.isOpen t = true := by
  have hlt : s < a.size := Nat.lt_of_lt_of_eq (Marks.isOpen_iff.1 hs).1 hsize
  obtain ⟨hfnodup, hfopen⟩ := frontier_spec (plan a) (grouped.add s) [s]
  obtain ⟨hof, taken, hnodup, hopen, hmembers⟩ :=
    grow_spec ((Marks.size_add grouped s).trans hsize) (of_single hlt) hfnodup hfopen
  have hcons : ((plan a).growFrom grouped s).members = s :: taken := by
    refine hmembers.trans ?_
    rw [members_single hlt]
    rfl
  rw [hcons]
  refine ⟨hof, List.mem_cons_self, ?_, fun t ht => ?_⟩
  · exact List.nodup_cons.2 ⟨fun hmem => (Marks.isOpen_add_iff.1 (hopen s hmem)).2 rfl, hnodup⟩
  · rcases List.mem_cons.1 ht with rfl | ht
    · exact hs
    · exact (Marks.isOpen_add_iff.1 (hopen t ht)).1

/-- The groups that are grown hold every open state of the list, no state twice, and no state that
was not open. -/
theorem growAll_spec {grouped : Marks} (states : List StateId) (hsize : grouped.size = a.size) :
    (∀ g ∈ (plan a).growAll grouped states, g.Of a) ∧
      (((plan a).growAll grouped states).flatMap Group.members).Nodup ∧
      (∀ t ∈ ((plan a).growAll grouped states).flatMap Group.members, grouped.isOpen t = true) ∧
      ∀ t ∈ states, grouped.isOpen t = true →
        t ∈ ((plan a).growAll grouped states).flatMap Group.members := by
  induction states generalizing grouped with
  | nil => exact ⟨nofun, List.nodup_nil, nofun, nofun⟩
  | cons s rest ih =>
    unfold growAll
    by_cases hs : grouped.isOpen s = true
    · rw [if_pos hs]
      obtain ⟨hof, hmem, hnodup, hopen⟩ := growFrom_spec hsize hs
      obtain ⟨hof', hnodup', hopen', hall⟩ :=
        ih ((Marks.size_addAll grouped ((plan a).growFrom grouped s).members).trans hsize)
      simp only [List.flatMap_cons]
      refine ⟨List.forall_mem_cons.2 ⟨hof, hof'⟩, ?_, fun t ht => ?_, fun t ht htopen => ?_⟩
      · refine List.nodup_append'.2 ⟨hnodup, hnodup', fun t ht ht' => ?_⟩
        exact (Marks.isOpen_addAll_iff.1 (hopen' t ht')).2 ht
      · rcases List.mem_append.1 ht with ht | ht
        · exact hopen t ht
        · exact (Marks.isOpen_addAll_iff.1 (hopen' t ht)).1
      · by_cases htg : t ∈ ((plan a).growFrom grouped s).members
        · exact List.mem_append_left _ htg
        · rcases List.mem_cons.1 ht with rfl | ht
          · exact absurd hmem htg
          · exact List.mem_append_right _ (hall t ht (Marks.isOpen_addAll_iff.2 ⟨htopen, htg⟩))
    · rw [if_neg hs]
      obtain ⟨hof, hnodup, hopen, hall⟩ := ih hsize
      refine ⟨hof, hnodup, hopen, fun t ht htopen => ?_⟩
      rcases List.mem_cons.1 ht with rfl | ht
      · exact absurd htopen hs
      · exact hall t ht htopen

end

end Plan

/-! ## Folding groups into each other -/

section Fold

variable {a : Automaton}

theorem absorb_spec {g : Group} {hs : List Group} (hg : g.Of a) (hhs : ∀ h ∈ hs, h.Of a) :
    (absorb g hs).1.Of a ∧ (∀ h ∈ (absorb g hs).2, h.Of a) ∧
      ((absorb g hs).1.members ++ (absorb g hs).2.flatMap Group.members).Perm
        (g.members ++ hs.flatMap Group.members) := by
  induction hs generalizing g with
  | nil => exact ⟨hg, nofun, List.Perm.refl _⟩
  | cons h rest ih =>
    obtain ⟨hh, hrest⟩ := List.forall_mem_cons.1 hhs
    unfold absorb
    by_cases hfits : g.fits h = true
    · rw [if_pos hfits]
      obtain ⟨hof, hleft, hperm⟩ := ih (hg.append hh hfits) hrest
      refine ⟨hof, hleft, hperm.trans (List.Perm.of_eq ?_)⟩
      rw [List.flatMap_cons, ← List.append_assoc]
      rfl
    · rw [if_neg hfits]
      obtain ⟨hof, hleft, hperm⟩ := ih hg hrest
      refine ⟨hof, List.forall_mem_cons.2 ⟨hh, hleft⟩, ?_⟩
      rw [List.flatMap_cons, List.flatMap_cons]
      refine (List.perm_append_comm_assoc _ _ _).trans ?_
      exact (hperm.append_left h.members).trans (List.perm_append_comm_assoc _ _ _)

theorem fold_spec {gs : List Group} (hgs : ∀ g ∈ gs, g.Of a) :
    (∀ g ∈ fold gs, g.Of a) ∧
      ((fold gs).flatMap Group.members).Perm (gs.flatMap Group.members) := by
  fun_induction fold gs with
  | case1 gs hnil =>
    rw [List.reverse_eq_nil_iff.1 hnil]
    exact ⟨nofun, List.Perm.refl _⟩
  | case2 gs g others heq merged ih =>
    have hcons : gs = others.reverse ++ [g] := by
      rw [← List.reverse_reverse gs, heq, List.reverse_cons]
    rw [hcons, List.forall_mem_append, List.forall_mem_singleton] at hgs
    obtain ⟨hof, hleft, hperm⟩ := absorb_spec hgs.2 hgs.1
    obtain ⟨hfold, hfperm⟩ := ih hleft
    refine ⟨List.forall_mem_cons.2 ⟨hof, hfold⟩, ?_⟩
    rw [List.flatMap_cons, hcons, List.flatMap_append, List.flatMap_singleton]
    exact (hfperm.append_left _).trans (hperm.trans List.perm_append_comm)

theorem foldAll_spec {gs : List Group} (hgs : ∀ g ∈ gs, g.Of a) :
    (∀ g ∈ foldAll gs, g.Of a) ∧
      ((foldAll gs).flatMap Group.members).Perm (gs.flatMap Group.members) := by
  fun_induction foldAll gs with
  | case1 gs folded _ ih =>
    obtain ⟨hof, hperm⟩ := fold_spec hgs
    obtain ⟨hof', hperm'⟩ := ih hof
    exact ⟨hof', hperm'.trans hperm⟩
  | case2 gs folded _ => exact fold_spec hgs

end Fold

/-! ## The groups of an automaton -/

theorem of_mem_groups {a : Automaton} {g : Group} (hg : g ∈ groups a) : g.Of a := by
  obtain ⟨hof, -⟩ := Plan.growAll_spec (List.range a.size) (Marks.size_blank a.size)
  exact (foldAll_spec hof).1 g hg

/-- Every state is in exactly one group. -/
theorem perm_groups (a : Automaton) :
    ((groups a).flatMap Group.members).Perm (List.range a.size) := by
  obtain ⟨hof, hnodup, hopen, hall⟩ :=
    Plan.growAll_spec (List.range a.size) (Marks.size_blank a.size)
  refine (foldAll_spec hof).2.trans ((List.perm_ext_iff_of_nodup hnodup List.nodup_range).2 ?_)
  intro s
  rw [List.mem_range, ← Marks.isOpen_blank_iff (n := a.size) (s := s)]
  refine ⟨hopen s, fun hs => hall s (List.mem_range.2 (Marks.isOpen_blank_iff.1 hs)) hs⟩

theorem nodup_groups (a : Automaton) : ((groups a).flatMap Group.members).Nodup :=
  (perm_groups a).nodup_iff.2 List.nodup_range

end Packing

end PathPolicy
