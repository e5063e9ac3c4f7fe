import PathPolicy.Proofs.Construction

/-!
# The orders in which rules may be inserted

A rule overrides what was inserted before it, so a rule about the beginning of paths has to come
before the rules about what lies below, and before the exact rule for the beginning itself. Any
other two rules may come in either order. In such an order (`Admissible`) the automaton answers,
after every single insertion, as the rules do that were inserted so far, and so all such orders of
the same rules give the same answers (`Admissible.lookup_insertAll`).
-/

namespace PathPolicy

open Builder (symbolsOf)

/-! ## Admissible orders -/

namespace Rule

/-- Rule `r` has to come before rule `a`: it is about the beginning of paths, and `a` is about
something that begins so, or about that path alone. -/
def Precedes (r a : Rule) : Prop :=
  r.pattern.exact = false ∧ r.pattern.bytes <+: a.pattern.bytes ∧
    (r.pattern.bytes ≠ a.pattern.bytes ∨ a.pattern.exact = true)

instance (r a : Rule) : Decidable (r.Precedes a) := inferInstanceAs (Decidable (_ ∧ _ ∧ _))

theorem word_isPrefix_iff {r a : Rule} :
    r.word <+: a.word ↔ r.pattern.bytes <+: a.pattern.bytes :=
  Builder.symbolsOf_isPrefix_iff r.zero_notMem a.zero_notMem

theorem mayFollow_iff {a r : Rule} : a.MayFollow r ↔ a.pattern ≠ r.pattern ∧ ¬ r.Precedes a := by
  refine and_congr_right fun hne => ?_
  rw [word_isPrefix_iff]
  constructor
  · rintro h ⟨he, hpre, -⟩
    exact h he hpre
  · intro h he hpre
    refine h ⟨he, hpre, ?_⟩
    cases hae : a.pattern.exact with
    | true => exact .inr rfl
    | false =>
      -- two rules about the beginning of paths have different bytes
      refine .inl fun hbytes => hne ?_
      cases ha : a.pattern
      cases hr : r.pattern
      simp_all

end Rule

/-- An order in which rules for different patterns may be inserted one by one. -/
structure Admissible (rules : List Rule) : Prop where
  distinct : rules.Pairwise fun a r => a.pattern ≠ r.pattern
  ordered : rules.Pairwise fun a r => ¬ r.Precedes a

theorem admissible_iff {rules : List Rule} : Admissible rules ↔ rules.Pairwise Rule.MayFollow := by
  constructor
  · rintro ⟨hd, ho⟩
    exact (hd.and ho).imp Rule.mayFollow_iff.2
  · intro h
    exact ⟨h.imp fun h => h.1, h.imp fun h => (Rule.mayFollow_iff.1 h).2⟩

theorem Admissible.isPrefix {done rules : List Rule} (h : Admissible rules) (hp : done <+: rules) :
    Admissible done :=
  ⟨h.distinct.sublist hp.sublist, h.ordered.sublist hp.sublist⟩

/-- From the least to the most specific rule is an admissible order. -/
theorem RuleTable.admissible_sorted (t : RuleTable) : Admissible t.sorted.reverse :=
  admissible_iff.2 t.pairwise_mayFollow

/-! ## The most specific rule -/

section Best

variable {rules : List Rule} {w : Bytes}

theorem Rule.IsBest.eq (hd : rules.Pairwise fun a r => a.pattern ≠ r.pattern) {a r : Rule}
    (ha : a.IsBest rules w) (hr : r.IsBest rules w) : a = r :=
  (RuleTable.mk rules hd).eq_of_pattern_eq ha.mem hr.mem <|
    Pattern.isBefore_antisymm (ha.isBefore r hr.mem hr.covers) (hr.isBefore a ha.mem ha.covers)

theorem answer_eq_some_iff (hd : rules.Pairwise fun a r => a.pattern ≠ r.pattern) (hw : 0 ∉ w)
    {v : Value} :
    answer rules (symbolsOf w) = some v ↔ ∃ r : Rule, r.IsBest rules w ∧ r.value = v := by
  rcases answer_cases rules hw with ⟨r, hr, heq⟩ | ⟨hnone, heq⟩
  · rw [heq, Option.some.injEq]
    constructor
    · intro hv
      exact ⟨r, hr, hv⟩
    · rintro ⟨a, ha, hv⟩
      rw [hr.eq hd ha, hv]
  · rw [heq]
    constructor
    · intro h
      cases h
    · rintro ⟨r, hr, -⟩
      exact absurd hr.covers (hnone r hr.mem)

theorem answer_eq_none_iff (hw : 0 ∉ w) :
    answer rules (symbolsOf w) = none ↔ ∀ r ∈ rules, ¬ r.covers w := by
  rcases answer_cases rules hw with ⟨r, hr, heq⟩ | ⟨hnone, heq⟩
  · rw [heq]
    constructor
    · intro h
      cases h
    · intro h
      exact absurd hr.covers (h r hr.mem)
  · exact iff_of_true heq hnone

end Best

/-! ## One insertion after the other -/

namespace Builder

theorem size_le_size_advance (k : Cursor) (c : Symbol) :
    k.builder.size ≤ (k.advance c).builder.size := by
  have hfork := Nat.le_of_eq (Cursor.size_fork (k := k.settle) c).symm
  rw [Cursor.advance_eq]
  split
  · exact Nat.le_of_succ_le hfork
  · split
    · exact Nat.le_of_succ_le hfork
    · exact Nat.le_refl _

theorem size_le_size_walk (b : Builder) (r : Rule) : b.size ≤ (b.walk r).builder.size := by
  have hwalk : ∀ (u : List Symbol) (k : Cursor),
      k.builder.size ≤ (u.foldl Cursor.advance k).builder.size := by
    intro u
    induction u with
    | nil => exact fun k => Nat.le_refl _
    | cons c rest ih => exact fun k => (size_le_size_advance k c).trans (ih _)
  exact hwalk r.word ⟨b, 0, none⟩

theorem size_le_size_insert (b : Builder) (r : Rule) : b.size ≤ (b.insert r).size := by
  refine (b.size_le_size_walk r).trans ?_
  rw [insert_eq_finish]
  cases he : r.pattern.exact with
  | true => rw [Cursor.size_finish_exact he]
  | false =>
    rw [Cursor.size_finish_close he]
    exact Nat.le_succ _

theorem size_le_size_insertAll (b : Builder) (rules : List Rule) :
    b.size ≤ (b.insertAll rules).size := by
  induction rules generalizing b with
  | nil => exact Nat.le_refl _
  | cons r rest ih => exact (b.size_le_size_insert r).trans (ih _)

/-- Insertions succeed one after the other as long as the last one leaves no more states than an
automaton can have. -/
theorem foldlM_insert?_eq {b : Builder} (hb : b.size ≤ capacity) (rules : List Rule) :
    rules.foldlM insert? b =
      if (b.insertAll rules).size ≤ capacity then some (b.insertAll rules) else none := by
  induction rules generalizing b with
  | nil => exact (if_pos hb).symm
  | cons r rest ih =>
    have hrest : b.insertAll (r :: rest) = (b.insert r).insertAll rest := rfl
    rw [List.foldlM_cons, hrest]
    unfold insert?
    dsimp only
    by_cases hr : (b.insert r).size ≤ capacity
    · rw [if_pos hr]
      exact ih hr
    · have hgrow := (b.insert r).size_le_size_insertAll rest
      rw [if_neg hr, if_neg fun h => hr (hgrow.trans h)]
      rfl

end Builder

namespace Admissible

variable {rules rules' : List Rule} (h : Admissible rules)

include h

theorem grown : (Builder.start.insertAll rules).Grown rules :=
  Builder.grown_start.insertAll (admissible_iff.1 h)

theorem lookup_perm (h' : Admissible rules') (hp : rules.Perm rules') (w : Bytes) :
    (Builder.start.insertAll rules).automaton.lookup w =
      (Builder.start.insertAll rules').automaton.lookup w := by
  by_cases hw : 0 ∈ w
  · rw [Automaton.lookup_eq_pathValue, Automaton.lookup_eq_pathValue, pathValue, pathValue,
      if_pos hw, if_pos hw]
  · rw [h.grown.lookup hw, h'.grown.lookup hw, answer_perm h.distinct hp]

/-- Rules that are inserted in an admissible order. After every insertion the automaton gives each
path the value of the most specific rule inserted so far that covers it, and none if there is none;
it is there unless it would have too many states. Every other admissible order of the same rules
gives the same answers, and the order of a table is one. -/
theorem lookup_insertAll :
    (∀ done, done <+: rules →
      (done.foldlM Builder.insert? Builder.start =
        if (Builder.start.insertAll done).size ≤ Builder.capacity then
          some (Builder.start.insertAll done) else none) ∧
      ∀ w, 0 ∉ w →
        (∀ v, (Builder.start.insertAll done).automaton.lookup w = some v ↔
          ∃ r : Rule, r.IsBest done w ∧ r.value = v) ∧
        ((Builder.start.insertAll done).automaton.lookup w = none ↔
          ∀ r ∈ done, ¬ r.covers w)) ∧
    (∀ rules', Admissible rules' → rules.Perm rules' → ∀ w,
      (Builder.start.insertAll rules).automaton.lookup w =
        (Builder.start.insertAll rules').automaton.lookup w) ∧
    ∀ t : RuleTable, t.rules.Perm rules → Admissible t.sorted.reverse ∧ ∀ w,
      (Automaton.ofTable t).lookup w = (Builder.start.insertAll rules).automaton.lookup w := by
  refine ⟨fun done hdone => ?_, fun rules' h' hp w => h.lookup_perm h' hp w, fun t ht => ?_⟩
  · have hd := h.isPrefix hdone
    refine ⟨Builder.foldlM_insert?_eq (by decide) done, fun w hw => ⟨fun v => ?_, ?_⟩⟩
    · rw [hd.grown.lookup hw]
      exact answer_eq_some_iff hd.distinct hw
    · rw [hd.grown.lookup hw]
      exact answer_eq_none_iff hw
  · refine ⟨t.admissible_sorted, fun w => ?_⟩
    have hp : t.sorted.reverse.Perm rules :=
      (List.reverse_perm _).trans (t.sorted_perm.trans ht)
    exact t.admissible_sorted.lookup_perm h hp w

end Admissible

/-- Rules in an order that is not that of a table: an exact rule and an unrelated rule come after
longer ones. -/
def mixedRules : List Rule :=
  [(⟨[0x2f], false⟩, 1), (⟨[0x2f, 0x61, 0x62], false⟩, 2), (⟨[0x2f, 0x61], true⟩, 3),
    (⟨[0x2f, 0x62], false⟩, 4), (⟨[0x2f, 0x62], true⟩, 5)].filterMap fun (pattern, value) =>
      (Rule.make pattern value).toOption

theorem admissible_mixedRules : Admissible mixedRules := ⟨by decide, by decide⟩

theorem Admissible.lookup_insertAll_mixed :
    Admissible mixedRules ∧
      (∀ done, done <+: mixedRules →
        (done.foldlM Builder.insert? Builder.start =
          if (Builder.start.insertAll done).size ≤ Builder.capacity then
            some (Builder.start.insertAll done) else none) ∧
        ∀ w, 0 ∉ w →
          (∀ v, (Builder.start.insertAll done).automaton.lookup w = some v ↔
            ∃ r : Rule, r.IsBest done w ∧ r.value = v) ∧
          ((Builder.start.insertAll done).automaton.lookup w = none ↔
            ∀ r ∈ done, ¬ r.covers w)) ∧
      (∀ rules', Admissible rules' → mixedRules.Perm rules' → ∀ w,
        (Builder.start.insertAll mixedRules).automaton.lookup w =
          (Builder.start.insertAll rules').automaton.lookup w) ∧
      ∀ t : RuleTable, t.rules.Perm mixedRules → Admissible t.sorted.reverse ∧ ∀ w,
        (Automaton.ofTable t).lookup w =
          (Builder.start.insertAll mixedRules).automaton.lookup w :=
  ⟨admissible_mixedRules, admissible_mixedRules.lookup_insertAll⟩

end PathPolicy
