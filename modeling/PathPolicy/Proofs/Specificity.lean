import Mathlib.Data.List.Infix
import Mathlib.Data.List.Pairwise
import PathPolicy.Rule.Table

/-!
# The order of patterns is total

`specificity` compares lengths, then kinds, then bytes. It is a total order on patterns, so a list
of rules for different patterns is sorted in one way only, and the first rule of a sorted list that
covers a path is the one that comes before all others that do (`find?_covers_eq_some`).
-/

namespace PathPolicy

namespace Pattern

/-! ## A lexicographic order -/

theorem specificity_eq_compareLex :
    specificity = compareLex (fun a b => compareOn (fun p : Pattern => p.bytes.length) b a)
      (compareLex (fun a b => compareOn Pattern.exact b a) (compareOn Pattern.bytes)) := rfl

instance : Std.TransCmp specificity := by
  have hl : Std.TransCmp fun a b : Pattern => compareOn (fun p : Pattern => p.bytes.length) b a :=
    Std.TransCmp.opposite
  have hk : Std.TransCmp fun a b : Pattern => compareOn Pattern.exact b a := Std.TransCmp.opposite
  rw [specificity_eq_compareLex]
  infer_instance

theorem specificity_eq_eq_iff {a b : Pattern} : a.specificity b = .eq ↔ a = b := by
  unfold specificity
  rw [Ordering.then_eq_eq, Ordering.then_eq_eq, Std.compare_eq_iff_eq, Std.compare_eq_iff_eq,
    Std.compare_eq_iff_eq]
  constructor
  · rintro ⟨-, he, hb⟩
    cases a
    cases b
    simp_all
  · rintro rfl
    exact ⟨rfl, rfl, rfl⟩

theorem isBefore_trans {a b c : Pattern} (hab : a.isBefore b) (hbc : b.isBefore c) :
    a.isBefore c :=
  Std.TransCmp.isLE_trans hab hbc

theorem specificity_swap (a b : Pattern) : b.specificity a = (a.specificity b).swap :=
  Std.OrientedCmp.eq_swap

theorem isBefore_total (a b : Pattern) : (a.isBefore b || b.isBefore a) = true := by
  unfold isBefore
  rw [specificity_swap a b]
  cases a.specificity b <;> rfl

theorem isBefore_refl (a : Pattern) : a.isBefore a := by
  have := isBefore_total a a
  rwa [Bool.or_self] at this

theorem isBefore_antisymm {a b : Pattern} (hab : a.isBefore b) (hba : b.isBefore a) : a = b := by
  unfold isBefore at hab hba
  rw [specificity_swap a b] at hba
  apply specificity_eq_eq_iff.1
  cases h : a.specificity b with
  | lt => rw [h] at hba; cases hba
  | eq => rfl
  | gt => rw [h] at hab; cases hab

/-! ## What comes first -/

theorem length_le_of_isBefore {a b : Pattern} (h : a.isBefore b) :
    b.bytes.length ≤ a.bytes.length := by
  by_contra hlt
  have hc : compare b.bytes.length a.bytes.length = .gt :=
    Nat.compare_eq_gt.2 (Nat.lt_of_not_le hlt)
  unfold isBefore specificity at h
  rw [hc] at h
  cases h

theorem isBefore_of_length_lt {a b : Pattern} (h : b.bytes.length < a.bytes.length) :
    a.isBefore b := by
  unfold isBefore specificity
  rw [Nat.compare_eq_lt.2 h]
  rfl

theorem isBefore_of_exact {a b : Pattern} (hb : a.bytes = b.bytes) (he : a.exact) :
    a.isBefore b := by
  unfold isBefore specificity
  rw [hb, he, Std.compare_self, Std.compare_self]
  cases b.exact <;> rfl

theorem exact_of_isBefore {a b : Pattern} (h : a.isBefore b) (hb : a.bytes = b.bytes)
    (he : b.exact) : a.exact := by
  cases ha : a.exact with
  | true => rfl
  | false =>
    unfold isBefore specificity at h
    rw [hb, ha, he, Std.compare_self] at h
    cases h

end Pattern

/-! ## Sorted lists -/

/-- A list without two entries with one key finds each of them by its key. -/
theorem find?_key_iff {ι κ : Type} [DecidableEq κ] (key : ι → κ) {l : List ι}
    (hd : l.Pairwise fun a b => key a ≠ key b) {p : κ} {r : ι} :
    l.find? (fun a => key a = p) = some r ↔ r ∈ l ∧ key r = p := by
  constructor
  · intro h
    exact ⟨List.mem_of_find?_eq_some h, by simpa using List.find?_some h⟩
  · rintro ⟨hr, rfl⟩
    induction l with
    | nil => cases hr
    | cons a rest ih =>
      obtain ⟨ha, hrest⟩ := List.pairwise_cons.1 hd
      rcases List.mem_cons.1 hr with rfl | hr
      · exact List.find?_cons_of_pos (decide_eq_true rfl)
      · rw [List.find?_cons_of_neg (by simpa using ha r hr)]
        exact ih hrest hr

/-- A list without two entries with one key holds no more than the first entry with a key. -/
theorem filter_key_eq {ι κ : Type} [DecidableEq κ] (key : ι → κ) {l : List ι}
    (hd : l.Pairwise fun a b => key a ≠ key b) (p : κ) :
    l.filter (fun a => key a = p) = (l.find? fun a => key a = p).toList := by
  induction l with
  | nil => rfl
  | cons a rest ih =>
    obtain ⟨ha, hrest⟩ := List.pairwise_cons.1 hd
    by_cases hp : key a = p
    · have hnone : rest.filter (fun b => key b = p) = [] :=
        List.filter_eq_nil_iff.2 fun b hb h => ha b hb (hp.trans (of_decide_eq_true h).symm)
      rw [List.filter_cons_of_pos (by simpa using hp), hnone,
        List.find?_cons_of_pos (by simpa using hp)]
      rfl
    · rw [List.filter_cons_of_neg (by simpa using hp), ih hrest,
        List.find?_cons_of_neg (by simpa using hp)]

section Sorted

variable {ι : Type} (pattern : ι → Pattern) {l : List ι}

/-- The first element of a sorted list that covers a path is the one that comes before all others
that do. -/
theorem find?_covers_eq_some (hs : l.Pairwise fun a b => (pattern a).isBefore (pattern b))
    (hinj : ∀ a ∈ l, ∀ b ∈ l, pattern a = pattern b → a = b) {w : Bytes} {r : ι} (hr : r ∈ l)
    (hw : (pattern r).covers w)
    (hbest : ∀ a ∈ l, (pattern a).covers w → (pattern r).isBefore (pattern a)) :
    l.find? (fun a => (pattern a).covers w) = some r := by
  cases hf : l.find? fun a => (pattern a).covers w with
  | none => exact absurd hw (List.find?_eq_none.1 hf r hr)
  | some a =>
    obtain ⟨ha, before, after, rfl, hnot⟩ := List.find?_eq_some_iff_append.1 hf
    have hal : a ∈ before ++ a :: after := List.mem_append_right _ List.mem_cons_self
    have hra := hbest a hal ha
    rcases List.mem_append.1 hr with hb | hb
    · have := hnot r hb
      rw [hw] at this
      cases this
    rcases List.mem_cons.1 hb with rfl | hb
    · rfl
    · have har := (List.pairwise_cons.1 (List.pairwise_append.1 hs).2.1).1 r hb
      exact congrArg some (hinj a hal r hr (Pattern.isBefore_antisymm har hra))

/-- A list in strict order is determined by what it holds for each pattern. -/
theorem eq_of_find?_eq {l' : List ι}
    (hl : l.Pairwise fun a b => (pattern a).isBefore (pattern b) ∧ pattern a ≠ pattern b)
    (hl' : l'.Pairwise fun a b => (pattern a).isBefore (pattern b) ∧ pattern a ≠ pattern b)
    (h : ∀ p, l.find? (fun a => pattern a = p) = l'.find? (fun a => pattern a = p)) : l = l' := by
  have hd := hl.imp fun h => h.2
  have hd' := hl'.imp fun h => h.2
  have hmem : ∀ a, a ∈ l ↔ a ∈ l' := by
    intro a
    have hiff := find?_key_iff pattern hd (p := pattern a) (r := a)
    rw [h, find?_key_iff pattern hd'] at hiff
    simpa using hiff.symm
  have hperm : l.Perm l' :=
    (List.perm_ext_iff_of_nodup (hd.imp fun h heq => h (congrArg pattern heq))
      (hd'.imp fun h heq => h (congrArg pattern heq))).2 hmem
  refine List.Perm.eq_of_pairwise (fun a b ha hb hab hba => ?_) (hl.imp fun h => h.1)
    (hl'.imp fun h => h.1) hperm
  have hpat : pattern a = pattern b := Pattern.isBefore_antisymm hab hba
  have hfind := (find?_key_iff pattern hd).2 ⟨ha, hpat⟩
  rw [(find?_key_iff pattern hd).2 ⟨(hmem b).2 hb, rfl⟩] at hfind
  exact (Option.some.inj hfind).symm

end Sorted

namespace RuleTable

variable (t : RuleTable)

theorem sorted_perm : t.sorted.Perm t.rules := List.mergeSort_perm _ _

theorem mem_sorted {r : Rule} : r ∈ t.sorted ↔ r ∈ t.rules := t.sorted_perm.mem_iff

theorem pairwise_sorted : t.sorted.Pairwise fun a b => a.pattern.isBefore b.pattern := by
  unfold sorted
  refine List.pairwise_mergeSort ?_ ?_ t.rules
  · intro a b c hab hbc
    exact Pattern.isBefore_trans hab hbc
  · intro a b
    exact Pattern.isBefore_total a.pattern b.pattern

theorem pairwise_sorted_ne : t.sorted.Pairwise fun a b => a.pattern ≠ b.pattern :=
  t.sorted_perm.symm.pairwise t.distinct fun h => Ne.symm h

theorem eq_of_pattern_eq {a b : Rule} (ha : a ∈ t.rules) (hb : b ∈ t.rules)
    (h : a.pattern = b.pattern) : a = b := by
  by_contra hne
  have : Std.Symm fun a b : Rule => a.pattern ≠ b.pattern := ⟨fun _ _ hab => hab.symm⟩
  exact t.distinct.forall ha hb hne h

/-! ## The first rule for each pattern -/

theorem find?_push (r : Rule) (p : Pattern) :
    (t.push r).rules.find? (fun a => a.pattern = p) =
      (t.rules.find? fun a => a.pattern = p).or ([r].find? fun a => a.pattern = p) := by
  unfold push
  split
  · rename_i h
    -- The table has a rule for the pattern already, and that one stays.
    simp only [has, List.any_eq_true, decide_eq_true_eq] at h
    obtain ⟨a, ha, har⟩ := h
    cases hf : t.rules.find? fun a => a.pattern = p with
    | some b => rfl
    | none =>
      have hap := List.find?_eq_none.1 hf a ha
      rw [har] at hap
      simpa using hap
  · exact List.find?_append

theorem find?_foldl_push (rules : List Rule) (p : Pattern) :
    (rules.foldl push t).rules.find? (fun a => a.pattern = p) =
      (t.rules.find? fun a => a.pattern = p).or (rules.find? fun a => a.pattern = p) := by
  induction rules generalizing t with
  | nil => exact (Option.or_none).symm
  | cons r rest ih =>
    rw [List.foldl_cons, ih, find?_push, Option.or_assoc, ← List.find?_append]
    rfl

/-- Of several rules for a pattern, a table has the first one. -/
theorem find?_ofList (rules : List Rule) (p : Pattern) :
    (ofList rules).rules.find? (fun a => a.pattern = p) = rules.find? fun a => a.pattern = p := by
  unfold ofList
  rw [find?_foldl_push]
  rfl

theorem find?_sorted (p : Pattern) :
    t.sorted.find? (fun a => a.pattern = p) = t.rules.find? fun a => a.pattern = p := by
  ext r
  rw [find?_key_iff Rule.pattern t.pairwise_sorted_ne,
    find?_key_iff Rule.pattern t.distinct,
    t.mem_sorted]

end RuleTable

end PathPolicy
