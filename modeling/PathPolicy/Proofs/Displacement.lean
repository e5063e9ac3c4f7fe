import PathPolicy.Proofs.CheckedReduction
import PathPolicy.Proofs.Tables

/-!
# Groups are as large as they can be

States may share a row as long as no two of them leave their defaults on one symbol (`mergeable`).
That is what the owners of groups keep account of: two groups fit together if and only if their
members may share a row (`Group.Of.fits_iff`). A group that was rejected stays rejected, as groups
only gain owners, so no two of the final groups fit together (`pairwise_groups`). Hence packing
never finds a group in conflict with its own defaults, and its tables are exact
(`Automaton.pack_exact`).
-/

namespace PathPolicy

namespace Packing

/-- Whether states may share a row: on no symbol do two of them leave their defaults. -/
def mergeable (a : Automaton) (members : List StateId) : Bool :=
  symbols.all fun c => members.countP (fun s => a.step s c ≠ a.default s) ≤ 1

/-! ## Groups that fit together -/

namespace Group

variable {a : Automaton} {g h k : Group}

theorem fits_iff_owner :
    g.fits h = true ↔ ∀ c : Symbol, h.owner[c].isSome → g.owner[c] = none := by
  unfold fits
  rw [List.all_eq_true]
  constructor
  · intro hall c hc
    exact Option.isNone_iff_eq_none.1 (hall c ((h.mem_owned c).2 hc))
  · intro hall c hc
    exact Option.isNone_iff_eq_none.2 (hall c ((h.mem_owned c).1 hc))

theorem Of.mergeable (hg : g.Of a) (hnodup : g.members.Nodup) : mergeable a g.members = true := by
  refine List.all_eq_true.2 fun c _ => decide_eq_true ?_
  rw [List.countP_eq_length_filter]
  by_contra hlt
  -- two members that leave their defaults would both own the symbol
  obtain ⟨s, t, rest, hst⟩ : ∃ s t rest,
      g.members.filter (fun s => a.step s c ≠ a.default s) = s :: t :: rest := by
    match hl : g.members.filter (fun s => a.step s c ≠ a.default s) with
    | [] => exact absurd (by rw [hl]; decide) hlt
    | [s] => exact absurd (by rw [hl]; exact Nat.le_refl 1) hlt
    | s :: t :: rest => exact ⟨s, t, rest, rfl⟩
  have hown : ∀ r ∈ s :: t :: rest, g.owner[c] = some r := by
    intro r hr
    rw [← hst, List.mem_filter, decide_eq_true_eq] at hr
    exact hg.owner_of hr.1 hr.2
  have hs := hown s List.mem_cons_self
  have ht := hown t (List.mem_cons_of_mem s List.mem_cons_self)
  have hpair : (s :: t :: rest).Nodup := hst ▸ hnodup.filter _
  exact (List.nodup_cons.1 hpair).1 (Option.some.inj (hs.symm.trans ht) ▸ List.mem_cons_self)

theorem Of.fits_iff (hg : g.Of a) (hh : h.Of a) (hnodup : (g.members ++ h.members).Nodup) :
    g.fits h = true ↔ Packing.mergeable a (g.members ++ h.members) = true := by
  refine ⟨fun hfits => (hg.append hh hfits).mergeable hnodup, fun hm => fits_iff_owner.2 ?_⟩
  intro c hc
  obtain ⟨t, ht⟩ := Option.isSome_iff_exists.1 hc
  by_contra hs
  obtain ⟨s, hs⟩ := Option.ne_none_iff_exists'.1 hs
  have hcount := of_decide_eq_true (List.all_eq_true.1 hm c (List.mem_finRange c))
  have hleft : 0 < g.members.countP fun s => a.step s c ≠ a.default s :=
    List.countP_pos_iff.2 ⟨s, hg.mem_of_owner hs, decide_eq_true (hg.leaves hs)⟩
  have hright : 0 < h.members.countP fun s => a.step s c ≠ a.default s :=
    List.countP_pos_iff.2 ⟨t, hh.mem_of_owner ht, decide_eq_true (hh.leaves ht)⟩
  rw [List.countP_append] at hcount
  omega

/-! ## Groups only gain owners -/

/-- Every symbol that has an owner in `g` has one in `k`. -/
def Within (g k : Group) : Prop := ∀ c : Symbol, g.owner[c].isSome → k.owner[c].isSome

theorem Within.refl (g : Group) : g.Within g := fun _ hc => hc

theorem Within.trans (hgh : g.Within h) (hhk : h.Within k) : g.Within k :=
  fun c hc => hhk c (hgh c hc)

theorem within_append_left (g h : Group) : g.Within (g.append h) := by
  intro c hc
  rw [getElem_owner_append, Option.isSome_or, hc, Bool.true_or]

/-- What does not fit does not fit with more owners either. -/
theorem not_fits_of_within {g' h' : Group} (hg : g.Within g') (hh : h.Within h')
    (hfits : g.fits h = false) : g'.fits h' = false := by
  rw [Bool.eq_false_iff] at hfits ⊢
  refine fun hfits' => hfits (fits_iff_owner.2 fun c hc => ?_)
  have hnone := fits_iff_owner.1 hfits' c (hh c hc)
  by_contra hsome
  have hc' := hg c (Option.isSome_iff_ne_none.2 hsome)
  rw [hnone] at hc'
  cases hc'

end Group

/-! ## What is folded is folded for good -/

section Fold

/-- The group that absorbs others keeps its owners, and does not fit together with any that it
leaves. -/
theorem absorb_within (g : Group) (hs : List Group) :
    g.Within (absorb g hs).1 ∧
      ∀ h ∈ (absorb g hs).2, h ∈ hs ∧ (absorb g hs).1.fits h = false := by
  induction hs generalizing g with
  | nil => exact ⟨Group.Within.refl g, nofun⟩
  | cons h rest ih =>
    unfold absorb
    by_cases hfits : g.fits h = true
    · rw [if_pos hfits]
      obtain ⟨hwithin, hleft⟩ := ih (g.append h)
      refine ⟨(g.within_append_left h).trans hwithin, fun k hk => ?_⟩
      exact ⟨List.mem_cons_of_mem h (hleft k hk).1, (hleft k hk).2⟩
    · rw [if_neg hfits]
      obtain ⟨hwithin, hleft⟩ := ih g
      refine ⟨hwithin, List.forall_mem_cons.2 ⟨⟨List.mem_cons_self, ?_⟩, fun k hk => ?_⟩⟩
      · exact Group.not_fits_of_within hwithin (Group.Within.refl h) (Bool.eq_false_iff.2 hfits)
      · exact ⟨List.mem_cons_of_mem h (hleft k hk).1, (hleft k hk).2⟩

/-- Every group that is left has the owners of one that was there. -/
theorem exists_within_fold {gs : List Group} {k : Group} (hk : k ∈ fold gs) :
    ∃ h ∈ gs, h.Within k := by
  fun_induction fold gs with
  | case1 gs hnil => cases hk
  | case2 gs g others heq merged ih =>
    have hmem : ∀ h, h ∈ gs ↔ h ∈ g :: others := fun h => by rw [← heq, List.mem_reverse]
    obtain ⟨hwithin, hleft⟩ := absorb_within g others.reverse
    rcases List.mem_cons.1 hk with rfl | hk
    · exact ⟨g, (hmem g).2 List.mem_cons_self, hwithin⟩
    · obtain ⟨h, hh, hhk⟩ := ih hk
      have hother : h ∈ others := List.mem_reverse.1 (hleft h hh).1
      exact ⟨h, (hmem h).2 (List.mem_cons_of_mem g hother), hhk⟩

/-- After one pass no two groups fit together. -/
theorem pairwise_fold (gs : List Group) : (fold gs).Pairwise fun g h => g.fits h = false := by
  fun_induction fold gs with
  | case1 gs hnil => exact List.Pairwise.nil
  | case2 gs g others heq merged ih =>
    refine List.pairwise_cons.2 ⟨fun k hk => ?_, ih⟩
    obtain ⟨h, hh, hhk⟩ := exists_within_fold hk
    exact Group.not_fits_of_within (Group.Within.refl _) hhk
      ((absorb_within g others.reverse).2 h hh).2

theorem pairwise_foldAll (gs : List Group) :
    (foldAll gs).Pairwise fun g h => g.fits h = false := by
  fun_induction foldAll gs with
  | case1 gs folded _ ih => exact ih
  | case2 gs folded _ => exact pairwise_fold gs

end Fold

/-! ## The final groups -/

section Groups

variable {a : Automaton}

theorem nodup_members {g : Group} (hg : g ∈ groups a) : g.members.Nodup :=
  (List.nodup_flatMap.1 (nodup_groups a)).1 g hg

theorem mergeable_of_mem_groups {g : Group} (hg : g ∈ groups a) :
    mergeable a g.members = true :=
  (of_mem_groups hg).mergeable (nodup_members hg)

theorem pairwise_groups :
    (groups a).Pairwise fun g h => mergeable a (g.members ++ h.members) = false := by
  have hdisjoint := (List.nodup_flatMap.1 (nodup_groups a)).2
  refine (hdisjoint.and (pairwise_foldAll _)).imp_of_mem ?_
  rintro g h hg hh ⟨hdis, hfits⟩
  have hnodup : (g.members ++ h.members).Nodup :=
    List.nodup_append'.2 ⟨nodup_members hg, nodup_members hh, hdis⟩
  rw [Bool.eq_false_iff] at hfits ⊢
  exact mt ((of_mem_groups hg).fits_iff (of_mem_groups hh) hnodup).2 hfits

end Groups

end Packing

namespace Automaton

open Packing

variable {a : Automaton}

/-- The tables of an automaton, unless a group is in conflict with its own defaults. -/
def pack? (a : Automaton) : Option Packed :=
  if (groups a).all (mergeable a ·.members) then some a.pack else none

theorem pack?_eq : a.pack? = some a.pack :=
  if_pos (List.all_eq_true.2 fun _ hg => mergeable_of_mem_groups hg)

/-- Packing of a well-formed automaton finds no group in conflict with its defaults. Every state is
in exactly one group, no group is empty, no two groups may be combined, and the tables take every
step of the automaton and answer every path alike. -/
theorem pack_exact (ha : a.WellFormed) (hpos : 0 < a.size) :
    a.pack? = some a.pack ∧
      ((groups a).flatMap Group.members).Perm (List.range a.size) ∧
      (∀ g ∈ groups a, g.members ≠ [] ∧ mergeable a g.members = true) ∧
      1 ≤ (groups a).length ∧ (groups a).length ≤ a.size ∧
      (groups a).Pairwise (fun g h => mergeable a (g.members ++ h.members) = false) ∧
      (∀ s < a.size, ∀ c, a.pack.step s c = a.step s c) ∧ ∀ w, a.pack.lookup w = a.lookup w := by
  have hgroups := a.groups_pack
  refine ⟨pack?_eq, perm_groups a, fun g hg => ?_, ?_, ?_, pairwise_groups,
    fun s hs c => a.step_pack hs c, pack_lookup ha hpos⟩
  · exact ⟨(of_mem_groups hg).ne_nil, mergeable_of_mem_groups hg⟩
  · rw [← hgroups]
    exact groups_pack_pos hpos
  · rw [← hgroups]
    exact groups_pack_le

theorem pack_exact_tangled :
    tangled.WellFormed ∧ 0 < tangled.size ∧
      tangled.pack? = some tangled.pack ∧
      ((groups tangled).flatMap Group.members).Perm (List.range tangled.size) ∧
      (∀ g ∈ groups tangled, g.members ≠ [] ∧ mergeable tangled g.members = true) ∧
      1 ≤ (groups tangled).length ∧ (groups tangled).length ≤ tangled.size ∧
      (groups tangled).Pairwise (fun g h => mergeable tangled (g.members ++ h.members) = false) ∧
      (∀ s < tangled.size, ∀ c, tangled.pack.step s c = tangled.step s c) ∧
      ∀ w, tangled.pack.lookup w = tangled.lookup w :=
  ⟨wellFormed_tangled, by decide, pack_exact wellFormed_tangled (by decide)⟩

end Automaton

end PathPolicy
