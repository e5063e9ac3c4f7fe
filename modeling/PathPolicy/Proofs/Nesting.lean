import PathPolicy.Proofs.Records

/-!
# The order of patterns follows what they cover

A pattern lies within another one if the other one covers all that it covers. That is so iff they
are the same, or the other one is about the beginning of paths and the bytes of the first one begin
so (`within_iff`). A pattern comes before all others that it lies within, and of two patterns that
cover one path the first one lies within the second one (`specificity_eq_lt_of_within`,
`within_of_isBefore`). So the patterns that cover a path, listed in their order, are nested, and the
first of them is the most specific one (`specificity_nested`).
-/

namespace PathPolicy

namespace Pattern

/-! ## What patterns cover -/

/-- All that `a` covers is covered by `b`. -/
def Within (a b : Pattern) : Prop := ∀ path, a.covers path → b.covers path

section Covers

variable {a b p : Pattern} {path : Bytes}

theorem covers_iff_of_exact (he : p.exact = true) : p.covers path ↔ path = p.bytes := by
  unfold covers
  rw [if_pos he, beq_iff_eq]

theorem covers_iff_of_not_exact (he : p.exact = false) : p.covers path ↔ p.bytes <+: path := by
  unfold covers
  rw [if_neg (by rw [he]; exact Bool.false_ne_true), List.isPrefixOf_iff_prefix]

theorem isPrefix_of_covers (h : p.covers path) : p.bytes <+: path := by
  cases he : p.exact with
  | true => rw [(covers_iff_of_exact he).1 h]
  | false => exact (covers_iff_of_not_exact he).1 h

theorem covers_bytes (p : Pattern) : p.covers p.bytes := by
  cases he : p.exact with
  | true => exact (covers_iff_of_exact he).2 rfl
  | false => exact (covers_iff_of_not_exact he).2 List.prefix_rfl

theorem eq_of_bytes (hb : a.bytes = b.bytes) (he : a.exact = b.exact) : a = b := by
  cases a
  cases b
  cases hb
  cases he
  rfl

/-- A pattern lies within itself, and within those about a beginning of its bytes. -/
theorem within_iff : a.Within b ↔ a = b ∨ b.exact = false ∧ b.bytes <+: a.bytes := by
  constructor
  · intro h
    cases hb : b.exact with
    | false => exact .inr ⟨rfl, (covers_iff_of_not_exact hb).1 (h _ a.covers_bytes)⟩
    | true =>
      have hbytes : a.bytes = b.bytes := (covers_iff_of_exact hb).1 (h _ a.covers_bytes)
      refine .inl (eq_of_bytes hbytes ?_)
      cases ha : a.exact with
      | true => exact hb.symm
      | false =>
        -- a longer path begins as `a` does, and is not the one that `b` covers
        have hlong := h (a.bytes ++ [0]) ((covers_iff_of_not_exact ha).2 (List.prefix_append _ _))
        have hlen := congrArg List.length ((covers_iff_of_exact hb).1 hlong)
        rw [← hbytes, List.length_append] at hlen
        exact absurd hlen (Nat.succ_ne_self _)
  · rintro (rfl | ⟨hb, hpre⟩) path hpath
    · exact hpath
    · exact (covers_iff_of_not_exact hb).2 (hpre.trans (isPrefix_of_covers hpath))

theorem within_antisymm (hab : a.Within b) (hba : b.Within a) : a = b := by
  rcases within_iff.1 hab with rfl | ⟨hb, hpre⟩
  · rfl
  rcases within_iff.1 hba with rfl | ⟨ha, hpre'⟩
  · rfl
  exact eq_of_bytes (hpre'.eq_of_length_le hpre.length_le) (ha.trans hb.symm)

end Covers

/-! ## What comes first -/

section First

variable {a b : Pattern} {path : Bytes}

theorem specificity_eq_lt_iff : a.specificity b = .lt ↔ a.isBefore b ∧ a ≠ b := by
  unfold isBefore
  rw [Ne, ← specificity_eq_eq_iff]
  cases a.specificity b <;> decide

theorem specificity_eq_lt_of_within (h : a.Within b) (hne : a ≠ b) : a.specificity b = .lt := by
  refine specificity_eq_lt_iff.2 ⟨?_, hne⟩
  obtain ⟨hb, hpre⟩ := (within_iff.1 h).resolve_left hne
  rcases Nat.lt_or_ge b.bytes.length a.bytes.length with hlt | hge
  · exact isBefore_of_length_lt hlt
  · have hbytes : a.bytes = b.bytes := (hpre.eq_of_length_le hge).symm
    refine isBefore_of_exact hbytes ?_
    rw [← Bool.not_eq_false]
    exact fun ha => hne (eq_of_bytes hbytes (ha.trans hb.symm))

/-- Of two patterns that cover one path the first one lies within the second one. -/
theorem within_of_isBefore (h : a.isBefore b) (ha : a.covers path) (hb : b.covers path) :
    a.Within b := by
  have hlen := length_le_of_isBefore h
  have hapre := isPrefix_of_covers ha
  cases hbe : b.exact with
  | false =>
    exact within_iff.2
      (.inr ⟨hbe, List.prefix_of_prefix_length_le (isPrefix_of_covers hb) hapre hlen⟩)
  | true =>
    obtain rfl := (covers_iff_of_exact hbe).1 hb
    have hbytes := hapre.eq_of_length_le hlen
    exact within_iff.2 (.inl (eq_of_bytes hbytes ((exact_of_isBefore h hbytes hbe).trans hbe.symm)))

end First

/-- The second one of two different patterns that cover one path is about its beginning. -/
theorem exact_eq_false_of_isBefore {a b : Pattern} {path : Bytes} (h : a.isBefore b) (hne : a ≠ b)
    (ha : a.covers path) (hb : b.covers path) : b.exact = false :=
  ((within_iff.1 (within_of_isBefore h ha hb)).resolve_left hne).1

/-! ## The patterns that cover a path -/

theorem beginnings_of_pairwise {path : Bytes} {ps : List Pattern}
    (hs : ps.Pairwise fun a b => a.isBefore b ∧ a ≠ b) (hc : ∀ p ∈ ps, p.covers path)
    (hexact : ∀ p ∈ ps, p.exact = false) :
    (∀ p ∈ ps, p.exact = false ∧ p.bytes <+: path) ∧
      ps.Pairwise fun p q => q.bytes.length < p.bytes.length := by
  refine ⟨fun p hp => ⟨hexact p hp, isPrefix_of_covers (hc p hp)⟩, hs.imp_of_mem ?_⟩
  intro p q hp hq h
  have hle := length_le_of_isBefore h.1
  have hpre : q.bytes <+: p.bytes := List.prefix_of_prefix_length_le
    (isPrefix_of_covers (hc q hq)) (isPrefix_of_covers (hc p hp)) hle
  refine Nat.lt_of_le_of_ne hle fun hlen => h.2 (eq_of_bytes (hpre.eq_of_length hlen).symm ?_)
  rw [hexact p hp, hexact q hq]

/-- Patterns that cover a path, each strictly within the next: first the path itself, if it is
there, and then ever shorter beginnings of it. -/
structure Nested (path : Bytes) (ps : List Pattern) : Prop where
  within : ps.Pairwise fun a b => a.Within b ∧ ¬ b.Within a
  shape : ∃ rest, (ps = rest ∨ ps = ⟨path, true⟩ :: rest) ∧
    (∀ p ∈ rest, p.exact = false ∧ p.bytes <+: path) ∧
    rest.Pairwise fun p q => q.bytes.length < p.bytes.length

/-- Patterns that cover a path are nested in their strict order. -/
theorem nested_of_pairwise {path : Bytes} {ps : List Pattern}
    (hs : ps.Pairwise fun a b => a.isBefore b ∧ a ≠ b) (hc : ∀ p ∈ ps, p.covers path) :
    Nested path ps where
  within := by
    refine hs.imp_of_mem fun ha hb h => ?_
    have hab := within_of_isBefore h.1 (hc _ ha) (hc _ hb)
    exact ⟨hab, fun hba => h.2 (within_antisymm hab hba)⟩
  shape := by
    cases ps with
    | nil => exact ⟨[], .inl rfl, nofun, .nil⟩
    | cons first rest =>
      obtain ⟨hfirst, hrest⟩ := List.pairwise_cons.1 hs
      obtain ⟨hcfirst, hcrest⟩ := List.forall_mem_cons.1 hc
      have hexact : ∀ p ∈ rest, p.exact = false := fun p hp =>
        exact_eq_false_of_isBefore (hfirst p hp).1 (hfirst p hp).2 hcfirst (hcrest p hp)
      cases he : first.exact with
      | true =>
        have hpath : first = ⟨path, true⟩ :=
          eq_of_bytes ((covers_iff_of_exact he).1 hcfirst).symm he
        exact ⟨rest, .inr (by rw [hpath]), beginnings_of_pairwise hrest hcrest hexact⟩
      | false =>
        exact ⟨first :: rest, .inl rfl,
          beginnings_of_pairwise hs hc (List.forall_mem_cons.2 ⟨he, hexact⟩)⟩

end Pattern

/-! ## Sorting -/

/-- A list of the same rules, sorted by their patterns. -/
structure IsSorting {ι : Type} (pattern : ι → Pattern) (rules sorted : List ι) : Prop where
  perm : sorted.Perm rules
  pairwise : sorted.Pairwise fun a b => (pattern a).isBefore (pattern b)

namespace IsSorting

variable {ι : Type} {pattern : ι → Pattern} {rules sorted sorted' : List ι}

theorem mergeSort (pattern : ι → Pattern) (rules : List ι) :
    IsSorting pattern rules (rules.mergeSort fun a b => (pattern a).isBefore (pattern b)) where
  perm := List.mergeSort_perm _ _
  pairwise := by
    refine List.pairwise_mergeSort (fun a b c hab hbc => ?_) (fun a b => ?_) rules
    · exact Pattern.isBefore_trans hab hbc
    · exact Pattern.isBefore_total (pattern a) (pattern b)

section Distinct

variable (hd : rules.Pairwise fun a b => pattern a ≠ pattern b)

include hd

theorem distinct (h : IsSorting pattern rules sorted) :
    sorted.Pairwise fun a b => pattern a ≠ pattern b :=
  h.perm.symm.pairwise hd fun h => Ne.symm h

theorem eq_of_pattern_eq {a b : ι} (ha : a ∈ rules) (hb : b ∈ rules)
    (h : pattern a = pattern b) : a = b := by
  have hfind := (find?_key_iff pattern hd).2 ⟨ha, h⟩
  rw [(find?_key_iff pattern hd).2 ⟨hb, rfl⟩] at hfind
  exact (Option.some.inj hfind).symm

theorem unique (h : IsSorting pattern rules sorted) (h' : IsSorting pattern rules sorted') :
    sorted = sorted' :=
  (h.perm.trans h'.perm.symm).eq_of_pairwise (fun _ _ ha hb hab hba =>
    eq_of_pattern_eq hd (h.perm.mem_iff.1 ha) (h'.perm.mem_iff.1 hb)
      (Pattern.isBefore_antisymm hab hba)) h.pairwise h'.pairwise

theorem nested (h : IsSorting pattern rules sorted) (path : Bytes) :
    Pattern.Nested path ((sorted.filter fun a => (pattern a).covers path).map pattern) := by
  refine Pattern.nested_of_pairwise ?_ ?_
  · rw [List.pairwise_map]
    exact ((h.pairwise.and (h.distinct hd)).sublist List.filter_sublist)
  · intro p hp
    obtain ⟨a, ha, rfl⟩ := List.mem_map.1 hp
    exact (List.mem_filter.1 ha).2

/-- The first rule that covers a path is the one within all others that do. -/
theorem find?_covers_iff (h : IsSorting pattern rules sorted) {path : Bytes} {r : ι} :
    (sorted.find? fun a => (pattern a).covers path) = some r ↔ r ∈ rules ∧
      (pattern r).covers path ∧
        ∀ a ∈ rules, (pattern a).covers path → (pattern r).Within (pattern a) := by
  constructor
  · intro hfind
    obtain ⟨hr, before, after, rfl, hnot⟩ := List.find?_eq_some_iff_append.1 hfind
    refine ⟨h.perm.mem_iff.1 (List.mem_append_right _ List.mem_cons_self), hr, fun a ha hc => ?_⟩
    rcases List.mem_append.1 (h.perm.mem_iff.2 ha) with hb | hb
    · have hcovers := hnot a hb
      rw [hc] at hcovers
      cases hcovers
    rcases List.mem_cons.1 hb with rfl | hb
    · exact fun _ => id
    · have hsorted := (List.pairwise_append.1 h.pairwise).2.1
      exact Pattern.within_of_isBefore ((List.pairwise_cons.1 hsorted).1 a hb) hr hc
  · rintro ⟨hr, hc, hbest⟩
    refine find?_covers_eq_some pattern h.pairwise (fun a ha b hb => ?_) (h.perm.mem_iff.2 hr) hc ?_
    · exact eq_of_pattern_eq hd (h.perm.mem_iff.1 ha) (h.perm.mem_iff.1 hb)
    · intro a ha hac
      by_cases heq : pattern r = pattern a
      · rw [heq]
        exact Pattern.isBefore_refl _
      · exact (Pattern.specificity_eq_lt_iff.1 (Pattern.specificity_eq_lt_of_within
          (hbest a (h.perm.mem_iff.1 ha) hac) heq)).1

end Distinct

end IsSorting

/-- The records of rules for different patterns are these rules, sorted. -/
theorem Protection.Blob.isSorting {rules : List Protection.Rule}
    (hd : rules.Pairwise fun a b => a.pattern ≠ b.pattern) :
    IsSorting Protection.Rule.pattern rules (sorted rules) where
  perm := by
    have hne : ∀ {a b : Protection.Rule}, a.pattern ≠ b.pattern → a ≠ b := fun h heq =>
      h (congrArg Rule.pattern heq)
    refine (List.perm_ext_iff_of_nodup ((pairwise_sorted rules).imp fun h => hne h.2)
      (hd.imp hne)).2 fun r => ?_
    rw [mem_sorted_iff, find?_key_iff Rule.pattern hd]
    exact and_iff_left rfl
  pairwise := (pairwise_sorted rules).imp fun h => h.1

/-- The order of patterns is total, and a pattern comes before all others that it lies within. So
rules for different patterns are sorted in one way only, as they are in a table and in the binary
form; those that cover a path are nested then, and the first one is the most specific one. -/
theorem Pattern.specificity_nested :
    (∀ a b c : Pattern,
      b.specificity a = (a.specificity b).swap ∧
      ((a.specificity b).isLE → (b.specificity c).isLE → (a.specificity c).isLE) ∧
      ((a.specificity b).isLE ∨ (b.specificity a).isLE) ∧
      (a.specificity b = .eq ↔ a = b) ∧
      (a.Within b → a ≠ b → a.specificity b = .lt)) ∧
    (∀ (ι : Type) (pattern : ι → Pattern) (rules : List ι),
      (rules.Pairwise fun a b => pattern a ≠ pattern b) →
        ∃ sorted, (∀ other, IsSorting pattern rules other ↔ other = sorted) ∧ ∀ path,
          Nested path ((sorted.filter fun a => (pattern a).covers path).map pattern) ∧
          ∀ r, (sorted.find? fun a => (pattern a).covers path) = some r ↔ r ∈ rules ∧
            (pattern r).covers path ∧
              ∀ a ∈ rules, (pattern a).covers path → (pattern r).Within (pattern a)) ∧
    (∀ t : RuleTable, IsSorting Rule.pattern t.rules t.sorted) ∧
    ∀ rules : List Protection.Rule, (rules.Pairwise fun a b => a.pattern ≠ b.pattern) →
      IsSorting Protection.Rule.pattern rules (Protection.Blob.sorted rules) := by
  refine ⟨fun a b c => ⟨specificity_swap a b, isBefore_trans, ?_, specificity_eq_eq_iff,
    specificity_eq_lt_of_within⟩, fun ι pattern rules hd => ?_, fun t => .mergeSort _ _,
    fun rules => Protection.Blob.isSorting⟩
  · exact (Bool.or_eq_true _ _).mp (isBefore_total a b)
  · have hsorted := IsSorting.mergeSort pattern rules
    refine ⟨_, fun other => ⟨fun h => h.unique hd hsorted, ?_⟩, fun path =>
      ⟨hsorted.nested hd path, fun r => hsorted.find?_covers_iff hd⟩⟩
    rintro rfl
    exact hsorted

/-- Patterns of which three cover `/a`. -/
def samplePatterns : List Pattern :=
  [⟨[], false⟩, ⟨[0x2f, 0x62], true⟩, ⟨[0x2f, 0x61], false⟩, ⟨[0x2f, 0x61], true⟩]

theorem Pattern.specificity_nested_sample :
    (⟨[0x2f, 0x61], true⟩ : Pattern).Within ⟨[0x2f, 0x61], false⟩ ∧
      specificity ⟨[0x2f, 0x61], true⟩ ⟨[0x2f, 0x61], false⟩ = .lt ∧
      (samplePatterns.Pairwise fun a b => a ≠ b) ∧
      ∃ sorted, (∀ other, IsSorting id samplePatterns other ↔ other = sorted) ∧
        Nested [0x2f, 0x61] ((sorted.filter fun a => a.covers [0x2f, 0x61]).map id) ∧
        (sorted.find? fun a => a.covers [0x2f, 0x61]) = some ⟨[0x2f, 0x61], true⟩ := by
  have hwithin : (⟨[0x2f, 0x61], true⟩ : Pattern).Within ⟨[0x2f, 0x61], false⟩ :=
    within_iff.2 (.inr ⟨rfl, List.prefix_rfl⟩)
  have hd : samplePatterns.Pairwise fun a b => id a ≠ id b := by decide
  obtain ⟨hlaws, hsorting, -⟩ := specificity_nested
  obtain ⟨sorted, hunique, hpaths⟩ := hsorting Pattern id samplePatterns hd
  obtain ⟨hnested, hfirst⟩ := hpaths [0x2f, 0x61]
  refine ⟨hwithin, (hlaws _ _ ⟨[], false⟩).2.2.2.2 hwithin (by decide), hd, sorted, hunique,
    hnested, (hfirst _).2 ⟨by decide, by decide, ?_⟩⟩
  intro a ha hc
  exact within_of_isBefore (by revert a; decide) (by decide) hc

end PathPolicy
