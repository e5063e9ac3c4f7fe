import PathPolicy.Proofs.Specificity
import PathPolicy.Proofs.Words

/-!
# What a list of rules answers

`answer rules u` is the value that a list of rules for different patterns gives the word `u`: that
of the exact rule for `u`, or else that of the rule about the longest beginning of `u`. It does not
depend on the order of the list. `lookup_eq_answer`: the first rule of a sorted table that covers a
path is the one that `answer` finds.
-/

namespace PathPolicy

open Builder (symbolsOf)

namespace Rule

def word (r : Rule) : List Symbol := symbolsOf r.pattern.bytes

theorem map_byteOf_word (r : Rule) : r.word.map byteOf = r.pattern.bytes :=
  Builder.map_byteOf_symbolsOf r.zero_notMem

theorem length_word (r : Rule) : r.word.length = r.pattern.bytes.length := by
  rw [← r.map_byteOf_word, List.length_map]

theorem pattern_eq {a b : Rule} (hw : a.word = b.word) (he : a.pattern.exact = b.pattern.exact) :
    a.pattern = b.pattern := by
  have hb : a.pattern.bytes = b.pattern.bytes := by
    rw [← a.map_byteOf_word, ← b.map_byteOf_word, hw]
  cases ha : a.pattern
  cases hb' : b.pattern
  simp_all

theorem covers_of_exact {r : Rule} {w : Bytes} (hw : 0 ∉ w) (he : r.pattern.exact = true) :
    r.covers w ↔ r.word = symbolsOf w := by
  unfold covers Pattern.covers
  rw [if_pos he, beq_iff_eq]
  constructor
  · rintro rfl
    rfl
  · exact fun h => (Builder.symbolsOf_inj r.zero_notMem hw h).symm

theorem covers_of_not_exact {r : Rule} {w : Bytes} (hw : 0 ∉ w) (he : r.pattern.exact = false) :
    r.covers w ↔ r.word <+: symbolsOf w := by
  unfold covers Pattern.covers word
  rw [if_neg (by rw [he]; exact Bool.false_ne_true), List.isPrefixOf_iff_prefix]
  exact (Builder.symbolsOf_isPrefix_iff r.zero_notMem hw).symm

end Rule

/-! ## The rule with a given pattern -/

/-- The rule of a list for a word, of the given kind. -/
def ruleAt (rules : List Rule) (exact : Bool) (u : List Symbol) : Option Rule :=
  rules.find? fun r => decide (r.pattern.exact = exact ∧ r.word = u)

theorem ruleAt_eq_some {rules : List Rule} {exact : Bool} {u : List Symbol} {r : Rule}
    (h : ruleAt rules exact u = some r) : r ∈ rules ∧ r.pattern.exact = exact ∧ r.word = u := by
  have hp := List.find?_some h
  rw [decide_eq_true_eq] at hp
  exact ⟨List.mem_of_find?_eq_some h, hp.1, hp.2⟩

theorem ruleAt_eq_none {rules : List Rule} {exact : Bool} {u : List Symbol}
    (h : ruleAt rules exact u = none) {r : Rule} (hr : r ∈ rules)
    (he : r.pattern.exact = exact) : r.word ≠ u := by
  intro hu
  have := List.find?_eq_none.1 h r hr
  rw [decide_eq_true_eq] at this
  exact this ⟨he, hu⟩

theorem ruleAt_eq_none_iff {rules : List Rule} {exact : Bool} {u : List Symbol} :
    ruleAt rules exact u = none ↔ ∀ r ∈ rules, r.pattern.exact = exact → r.word ≠ u := by
  refine ⟨fun h r hr he => ruleAt_eq_none h hr he, fun h => List.find?_eq_none.2 fun r hr => ?_⟩
  rw [decide_eq_true_eq]
  exact fun hp => h r hr hp.1 hp.2

theorem ruleAt_append (rules : List Rule) (r : Rule) (exact : Bool) (u : List Symbol) :
    ruleAt (rules ++ [r]) exact u =
      (ruleAt rules exact u).or
        (if r.pattern.exact = exact ∧ r.word = u then some r else none) := by
  unfold ruleAt
  rw [List.find?_append]
  by_cases h : r.pattern.exact = exact ∧ r.word = u <;> simp [h]

/-- The value that a list of rules for different patterns gives a word. -/
def answer (rules : List Rule) (u : List Symbol) : Option Value :=
  ((ruleAt rules true u).or (nearest (ruleAt rules false) u)).map (·.value)

/-! ## The first rule of a sorted table -/

section Lookup

variable {rules : List Rule} {w : Bytes}

/-- An exact rule for a path comes before every other rule that covers it. -/
theorem isBefore_of_ruleAt_exact (hw : 0 ∉ w) {r : Rule}
    (h : ruleAt rules true (symbolsOf w) = some r) {a : Rule} (ha : a.covers w) :
    r.pattern.isBefore a.pattern := by
  obtain ⟨-, he, hu⟩ := ruleAt_eq_some h
  have hbytes : r.pattern.bytes = w := Builder.symbolsOf_inj r.zero_notMem hw hu
  have hpre : a.pattern.bytes <+: w := by
    unfold Rule.covers Pattern.covers at ha
    split at ha
    · rw [eq_of_beq ha]
    · exact List.isPrefixOf_iff_prefix.1 ha
  rcases Nat.lt_or_ge a.pattern.bytes.length w.length with hlt | hge
  · exact Pattern.isBefore_of_length_lt (hbytes ▸ hlt)
  · exact Pattern.isBefore_of_exact (hbytes.trans (hpre.eq_of_length_le hge).symm) he

/-- The rule about the longest beginning of a path comes before every other rule that covers it, if
no exact rule does. -/
theorem isBefore_of_nearest (hw : 0 ∉ w) (hex : ruleAt rules true (symbolsOf w) = none) {r : Rule}
    (h : nearest (ruleAt rules false) (symbolsOf w) = some r) {a : Rule} (har : a ∈ rules)
    (ha : a.covers w) : r.pattern.isBefore a.pattern := by
  obtain ⟨v, hv, hr, hlong⟩ := nearest_eq_some h
  obtain ⟨-, he, rfl⟩ := ruleAt_eq_some hr
  cases hae : a.pattern.exact with
  | true => exact absurd ((Rule.covers_of_exact hw hae).1 ha) (ruleAt_eq_none hex har hae)
  | false =>
    have hau := (Rule.covers_of_not_exact hw hae).1 ha
    have hle : a.word.length ≤ r.word.length := by
      by_contra hlt
      exact ruleAt_eq_none (hlong _ hau (Nat.lt_of_not_le hlt)) har hae rfl
    rcases Nat.lt_or_eq_of_le hle with hlt | heq
    · rw [a.length_word, r.length_word] at hlt
      exact Pattern.isBefore_of_length_lt hlt
    · have hword : r.word = a.word :=
        (List.prefix_of_prefix_length_le hv hau heq.ge).eq_of_length heq.symm
      rw [Rule.pattern_eq hword (he.trans hae.symm)]
      exact Pattern.isBefore_refl _

theorem not_covers_of_nearest (hw : 0 ∉ w) (hex : ruleAt rules true (symbolsOf w) = none)
    (h : nearest (ruleAt rules false) (symbolsOf w) = none) {a : Rule} (har : a ∈ rules) :
    ¬ a.covers w := by
  intro ha
  cases hae : a.pattern.exact with
  | true => exact ruleAt_eq_none hex har hae ((Rule.covers_of_exact hw hae).1 ha)
  | false =>
    have hau := (Rule.covers_of_not_exact hw hae).1 ha
    exact ruleAt_eq_none (nearest_eq_none_iff.1 h _ hau) har hae rfl

/-- Rule `r` is the most specific rule of a list that covers a path. -/
structure Rule.IsBest (rules : List Rule) (w : Bytes) (r : Rule) : Prop where
  mem : r ∈ rules
  covers : r.covers w
  isBefore : ∀ a ∈ rules, a.covers w → r.pattern.isBefore a.pattern

/-- A path is answered by the most specific rule that covers it, or no rule covers it. -/
theorem answer_cases (rules : List Rule) (hw : 0 ∉ w) :
    (∃ r : Rule, r.IsBest rules w ∧ answer rules (symbolsOf w) = some r.value) ∨
      (∀ r ∈ rules, ¬ r.covers w) ∧ answer rules (symbolsOf w) = none := by
  unfold answer
  cases hex : ruleAt rules true (symbolsOf w) with
  | some r =>
    obtain ⟨hr, he, hu⟩ := ruleAt_eq_some hex
    have hcov : r.covers w := (Rule.covers_of_exact hw he).2 hu
    exact .inl ⟨r, ⟨hr, hcov, fun a _ ha => isBefore_of_ruleAt_exact hw hex ha⟩, rfl⟩
  | none =>
    rw [Option.none_or]
    cases hn : nearest (ruleAt rules false) (symbolsOf w) with
    | some r =>
      obtain ⟨v, hv, hat, -⟩ := nearest_eq_some hn
      obtain ⟨hr, he, rfl⟩ := ruleAt_eq_some hat
      have hcov : r.covers w := (Rule.covers_of_not_exact hw he).2 hv
      exact .inl ⟨r, ⟨hr, hcov, fun a har ha => isBefore_of_nearest hw hex hn har ha⟩, rfl⟩
    | none => exact .inr ⟨fun a ha => not_covers_of_nearest hw hex hn ha, rfl⟩

end Lookup

namespace RuleTable

variable (t : RuleTable)

theorem find?_sorted_eq_some {w : Bytes} {r : Rule} (hr : r.IsBest t.rules w) :
    t.sorted.find? (·.covers w) = some r :=
  find?_covers_eq_some Rule.pattern t.pairwise_sorted
    (fun _ ha _ hb => t.eq_of_pattern_eq (t.mem_sorted.1 ha) (t.mem_sorted.1 hb))
    (t.mem_sorted.2 hr.mem) hr.covers fun a ha => hr.isBefore a (t.mem_sorted.1 ha)

theorem lookup_eq_answer {w : Bytes} (hw : 0 ∉ w) : t.lookup w = answer t.rules (symbolsOf w) := by
  have hc : w.contains 0 = false := by simpa using hw
  unfold lookup
  rw [if_neg (by rw [hc]; exact Bool.false_ne_true)]
  rcases answer_cases t.rules hw with ⟨r, hr, heq⟩ | ⟨hnone, heq⟩
  · rw [heq, t.find?_sorted_eq_some hr]
    rfl
  · have hfind : t.sorted.find? (·.covers w) = none :=
      List.find?_eq_none.2 fun a ha => hnone a (t.mem_sorted.1 ha)
    rw [heq, hfind]
    rfl

end RuleTable

end PathPolicy
