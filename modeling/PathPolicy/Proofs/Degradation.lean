import PathPolicy.Proofs.Columns

/-!
# Words without trampolines

A rule that asks for emulated trampolines is read as another word where there are none. That word
does not ask for them, and it has nothing that the first one has not (`Flags.Degrades`): either
everything else, or only what passes the word on to other programs (`Column.wordOf_degrade`).
-/

namespace PathPolicy.Protection

/-! ## Words bit by bit -/

namespace Flags

def has (f : Flags) (i : Nat) : Bool := f.bits.toNat.testBit i

variable {f g m : Flags}

theorem ext_has (h : ∀ i, f.has i = g.has i) : f = g :=
  congrArg mk (UInt16.toNat_inj.1 (Nat.eq_of_testBit_eq h))

theorem has_none (i : Nat) : none.has i = false := Nat.zero_testBit i

theorem has_and (f g : Flags) (i : Nat) :
    (mk (f.bits &&& g.bits)).has i = (f.has i && g.has i) := by
  unfold has
  rw [UInt16.toNat_and, Nat.testBit_and]

theorem has_union (f g : Flags) (i : Nat) : (f ∪ g).has i = (f.has i || g.has i) := by
  show (f.bits ||| g.bits).toNat.testBit i = _
  rw [UInt16.toNat_or, Nat.testBit_or]
  rfl

theorem has_without (f g : Flags) (i : Nat) : (f.without g).has i = (f.has i && !g.has i) := by
  by_cases hi : i < 16
  · have hsize : UInt16.size - 1 - g.bits.toNat = 2 ^ 16 - (g.bits.toNat + 1) := by
      rw [Nat.sub_sub, Nat.add_comm 1]
      rfl
    have hnot : (mk (~~~g.bits)).has i = !g.has i := by
      unfold has
      rw [UInt16.toNat_not, hsize, Nat.testBit_two_pow_sub_succ g.bits.toNat_lt]
      simp [hi]
    rw [without, has_and f ⟨~~~g.bits⟩, hnot]
  · have hhigh : ∀ f : Flags, f.has i = false := fun f =>
      Nat.testBit_lt_two_pow (Nat.lt_of_lt_of_le f.bits.toNat_lt
        (Nat.pow_le_pow_right (by decide) (Nat.not_lt.1 hi)))
    rw [hhigh, hhigh, Bool.false_and]

theorem contains_iff : f.contains m = true ↔ ∀ i, m.has i = true → f.has i = true := by
  have hand : f.contains m = true ↔ mk (f.bits &&& m.bits) = m := by
    obtain ⟨bits⟩ := m
    simp [contains]
  rw [hand]
  refine ⟨fun h i hi => ?_, fun h => ext_has fun i => ?_⟩
  · rw [← h, has_and, Bool.and_eq_true] at hi
    exact hi.1
  · rw [has_and]
    cases hm : m.has i with
    | false => exact Bool.and_false _
    | true => rw [h i hm, Bool.and_self]

theorem not_meets_iff : f.meets m = false ↔ ∀ i, f.has i = true → m.has i = false := by
  have hand : f.meets m = false ↔ mk (f.bits &&& m.bits) = none := by
    rw [meets_eq_false_iff, none, mk.injEq]
  rw [hand]
  refine ⟨fun h i hf => ?_, fun h => ext_has fun i => ?_⟩
  · have hi := has_and f m i
    rw [h, has_none, hf, Bool.true_and] at hi
    exact hi.symm
  · rw [has_and, has_none]
    cases hf : f.has i with
    | false => rfl
    | true => exact h i hf

theorem meets_iff : f.meets m = true ↔ ∃ i, f.has i = true ∧ m.has i = true := by
  rw [← Bool.not_eq_false, not_meets_iff]
  simp

/-! ## Joining words -/

theorem none_union (f : Flags) : none ∪ f = f := congrArg mk UInt16.zero_or

theorem union_assoc (f g m : Flags) : f ∪ g ∪ m = f ∪ (g ∪ m) := congrArg mk (UInt16.or_assoc ..)

theorem union_without (f g m : Flags) : (f ∪ g).without m = f.without m ∪ g.without m := by
  refine ext_has fun i => ?_
  simp only [has_without, has_union, Bool.and_or_distrib_right]

theorem without_union (h : g.meets f = false) : (f ∪ g).without f = g := by
  refine ext_has fun i => ?_
  rw [has_without, has_union]
  cases hg : g.has i with
  | false => simp
  | true => rw [not_meets_iff.1 h i hg, Bool.or_true, Bool.not_false, Bool.and_self]

end Flags

namespace Column

theorem wordOf_cons (t : Token) (rest : List Token) :
    wordOf (t :: rest) = t.bits ∪ wordOf rest := by
  have hfold : ∀ (tokens : List Token) (f : Flags),
      tokens.foldl (fun f t => f ∪ t.bits) f = f ∪ wordOf tokens := by
    intro tokens
    induction tokens with
    | nil => exact fun f => congrArg Flags.mk UInt16.or_zero.symm
    | cons u more ih =>
      intro f
      rw [wordOf, List.foldl_cons, List.foldl_cons, ih, ih, Flags.none_union, Flags.union_assoc]
  rw [wordOf, List.foldl_cons, hfold, Flags.none_union]

theorem wordOf_kept (tokens : List Token) :
    wordOf (tokens.filter fun t => t == .transfer || t == .none) =
      ⟨(wordOf tokens).bits &&& Flags.transfer.bits⟩ := by
  induction tokens with
  | nil => rfl
  | cons t rest ih =>
    rw [wordOf_cons, Flags.union_and]
    by_cases ht : (t == .transfer || t == .none) = true
    · have hbits : t.bits.bits &&& Flags.transfer.bits = t.bits.bits := by
        cases t <;> first | rfl | cases ht
      rw [List.filter_cons, if_pos ht, wordOf_cons, ih, hbits]
      rfl
    · have hbits : t.bits.bits &&& Flags.transfer.bits = 0 := by
        cases t <;> first | rfl | exact absurd rfl ht
      rw [List.filter_cons, if_neg ht, ih, hbits, UInt16.zero_or]

end Column

/-! ## With and without trampolines -/

/-- What a word that asks for emulated trampolines makes of its rule where there are none. -/
def Token.fallback (fallback : Fallback) : Token → Fallback
  | .emutrampOrMprotect => .mprotect
  | .emutrampOrNone => .none
  | _ => fallback

/-- What is left of a protection word. -/
def Fallback.weaken : Fallback → Flags → Flags
  | .mprotect, f => f.without Flags.emutramp
  | .none, f => ⟨f.bits &&& Flags.transfer.bits⟩

namespace Flags

/-- What a word becomes where trampolines are not emulated. -/
structure Degrades (f g : Flags) : Prop where
  meets : g.meets emutramp = false
  same : f.meets emutramp = false → g = f
  less : f.meets emutramp = true → g = f.without emutramp ∨ g = ⟨f.bits &&& transfer.bits⟩

theorem emutramp_union_meets (f : Flags) : (emutramp ∪ f).meets emutramp = true :=
  meets_iff.2 ⟨8, by rw [has_union]; rfl, rfl⟩

/-- A valid word that asks for emulated trampolines has every restriction of memory already. -/
theorem mprotect_union_without {f : Flags} (hf : f.isValid = true) (hem : f.meets emutramp = true) :
    Token.mprotect.bits ∪ f.without emutramp = f.without emutramp := by
  refine holds_of_isValid (P := fun f => f.meets emutramp = true →
    Token.mprotect.bits ∪ f.without emutramp = f.without emutramp) ?_ hf hem
  decide +kernel

end Flags

/-- What the words besides the one that asks for emulated trampolines mean where there are none. -/
theorem Column.wordOf_degrade {rest : List Token} (fallback : Fallback) (variant : Token)
    (hrest : (wordOf rest).meets Flags.emutramp = false)
    (hvalid : (Flags.emutramp ∪ wordOf rest).isValid = true) :
    wordOf (degrade fallback variant rest) =
      (variant.fallback fallback).weaken (Flags.emutramp ∪ wordOf rest) := by
  have hwithout := Flags.without_union hrest
  have hkept : wordOf (rest.filter fun t => t == .transfer || t == .none) =
      Fallback.none.weaken (Flags.emutramp ∪ wordOf rest) := by
    rw [wordOf_kept, Fallback.weaken, Flags.union_and]
    exact congrArg Flags.mk UInt16.zero_or.symm
  have hjoined : wordOf (.mprotect :: rest) =
      Fallback.mprotect.weaken (Flags.emutramp ∪ wordOf rest) := by
    have hfull := Flags.mprotect_union_without hvalid (Flags.emutramp_union_meets _)
    rw [hwithout, ← wordOf_cons] at hfull
    rw [hfull, Fallback.weaken, hwithout]
  cases variant
  case emutrampOrNone => exact hkept
  case emutrampOrMprotect => exact hjoined
  all_goals
    cases fallback with
    | mprotect => exact hwithout.symm
    | none => exact hkept

end PathPolicy.Protection
