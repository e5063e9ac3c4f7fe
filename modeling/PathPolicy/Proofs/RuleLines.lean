import PathPolicy.Proofs.Wire
import PathPolicy.Protection.Rule

/-!
# Rules of lines

What is known of a rule that was read from a line: the first word of the line is how its pattern is
written, its path is short and absolute, its word is valid, and trampolines are emulated only where
the kernel can do so (`Reader.reads_of_read`).
-/

namespace PathPolicy.Protection

/-! ## Words without emulated trampolines -/

namespace Flags

theorem union_and (f g m : Flags) :
    (f ∪ g).bits &&& m.bits = f.bits &&& m.bits ||| g.bits &&& m.bits := by
  show (f.bits ||| g.bits) &&& m.bits = _
  apply UInt16.toBitVec_inj.1
  simp only [UInt16.toBitVec_and, UInt16.toBitVec_or]
  ext i
  simp [Bool.and_or_distrib_right]

theorem meets_eq_false_iff {f g : Flags} : f.meets g = false ↔ f.bits &&& g.bits = 0 := by
  simp [meets]

theorem meets_union {f g m : Flags} (hf : f.meets m = false) (hg : g.meets m = false) :
    (f ∪ g).meets m = false := by
  rw [meets_eq_false_iff] at hf hg ⊢
  rw [union_and, hf, hg]
  rfl

end Flags

namespace Column

theorem meets_bits {t : Token} (h : t.isEmutramp = false) :
    t.bits.meets Flags.emutramp = false := by
  cases t <;> first | rfl | cases h

theorem meets_wordOf {tokens : List Token} (h : ∀ t ∈ tokens, t.isEmutramp = false) :
    (wordOf tokens).meets Flags.emutramp = false := by
  have hfold : ∀ (tokens : List Token) (f : Flags), (∀ t ∈ tokens, t.isEmutramp = false) →
      f.meets Flags.emutramp = false →
        (tokens.foldl (fun f t => f ∪ t.bits) f).meets Flags.emutramp = false := by
    intro tokens
    induction tokens with
    | nil => exact fun f _ hf => hf
    | cons t rest ih =>
      intro f ht hf
      obtain ⟨ht, hrest⟩ := List.forall_mem_cons.1 ht
      exact ih _ hrest (Flags.meets_union hf (meets_bits ht))
  exact hfold tokens Flags.none h rfl

theorem isEmutramp_degrade {fallback : Fallback} {variant : Token} {rest : List Token}
    (h : ∀ t ∈ rest, t.isEmutramp = false) {t : Token} (ht : t ∈ degrade fallback variant rest) :
    t.isEmutramp = false := by
  have hkept : ∀ t ∈ rest.filter (fun t => t == .transfer || t == .none), t.isEmutramp = false :=
    fun t ht => h t (List.mem_filter.1 ht).1
  unfold degrade at ht
  split at ht
  · exact hkept t ht
  · rcases List.mem_cons.1 ht with rfl | ht
    · rfl
    · exact h t ht
  · split at ht
    · exact hkept t ht
    · exact h t ht

theorem isEmutramp_of_filter_eq {tokens : List Token} {variant : Token}
    (hone : tokens.filter Token.isEmutramp = [variant]) :
    ∀ t ∈ tokens.filter (· ≠ variant), t.isEmutramp = false := by
  intro t ht
  obtain ⟨ht, hne⟩ := List.mem_filter.1 ht
  cases hem : t.isEmutramp with
  | false => rfl
  | true =>
    have hmem := List.mem_filter.2 ⟨ht, hem⟩
    rw [hone, List.mem_singleton] at hmem
    exact absurd hmem (of_decide_eq_true hne)

theorem isEmutramp_resolve {support : Support} {tokens resolved : List Token}
    (h : resolve support tokens = .ok resolved) (hs : support.available = false) :
    ∀ t ∈ resolved, t.isEmutramp = false := by
  intro t ht
  unfold resolve at h
  split at h
  · rename_i hnone
    injection h with h
    subst h
    cases hem : t.isEmutramp with
    | false => rfl
    | true =>
      have hmem := List.mem_filter.2 ⟨ht, hem⟩
      rw [hnone] at hmem
      cases hmem
  · rename_i variant hone
    simp only [hs, Bool.false_eq_true, if_false] at h
    injection h with h
    subst h
    exact isEmutramp_degrade (isEmutramp_of_filter_eq hone) ht
  · cases h

end Column

namespace Flags

variable {columns : List String} {support : Support} {f : Flags}

/-- A protection word that was read is that of the words of the columns, which may stand together,
resolved, and valid. -/
theorem exists_of_parse (h : parse columns support = .ok f) :
    ∃ tokens resolved, Column.tokenize columns = .ok tokens ∧ Column.noneAllowed tokens = true ∧
      Column.resolve support tokens = .ok resolved ∧ f = Column.wordOf resolved ∧
        f.isValid = true := by
  unfold parse at h
  cases htokens : Column.tokenize columns with
  | error fault =>
    rw [htokens] at h
    cases h
  | ok tokens =>
    rw [htokens] at h
    simp only [bind, Except.bind] at h
    split at h
    · cases h
    · rename_i hnone
      cases hresolved : Column.resolve support tokens with
      | error fault =>
        rw [hresolved] at h
        cases h
      | ok resolved =>
        rw [hresolved] at h
        dsimp only at h
        split at h
        · exact ⟨tokens, resolved, rfl, by simpa using hnone, hresolved, (Except.ok.inj h).symm,
            Except.ok.inj h ▸ ‹_›⟩
        · cases h

theorem parse_eq_ok (h : parse columns support = .ok f) :
    f.isValid = true ∧ (f.meets emutramp = true → support.available = true) := by
  obtain ⟨tokens, resolved, -, -, hresolved, rfl, hvalid⟩ := exists_of_parse h
  refine ⟨hvalid, fun hmeets => ?_⟩
  cases hs : support.available with
  | true => rfl
  | false =>
    rw [Column.meets_wordOf (Column.isEmutramp_resolve hresolved hs)] at hmeets
    cases hmeets

end Flags

/-! ## Lines -/

theorem Rule.written_eq {a b : Rule} (h : a.pattern = b.pattern) : a.written = b.written := by
  have hpath : a.path = b.path := Bytes.ofString_inj (congrArg Pattern.bytes h)
  have hexact : a.exact = b.exact := congrArg Pattern.exact h
  unfold Rule.written
  rw [hpath, hexact]

theorem checkImage_congr {inspector inspector' : Image.Inspector} {path : String}
    (h : (inspector path).traits? = (inspector' path).traits?) (flags : Flags) :
    checkImage inspector path flags = checkImage inspector' path flags := by
  unfold checkImage
  rw [h]

theorem checkImage_of_unknown {inspector : Image.Inspector} {path : String}
    (h : (inspector path).traits? = none) (flags : Flags) :
    checkImage inspector path flags = .ok () := by
  unfold checkImage
  rw [h]
  exact ite_self _

/-- A rule that was read from the words of a line. -/
structure Reader.Reads (r : Reader) (tokens : List String) (rule : Rule) : Prop where
  head : tokens.head? = some rule.written
  size_le : rule.path.utf8ByteSize ≤ Rule.pathLimit
  absolute : r.absolutePaths = true →
    rule.path.toList.head? = some '/' ∨ rule.path = "" ∧ rule.exact = false
  flags : Flags.parse tokens.tail r.support = .ok rule.flags

namespace Reader

/-- A word is how the pattern that it is split into is written. -/
theorem written_splitPattern (word : String) (flags : Flags) :
    (⟨(splitPattern word).1, flags, (splitPattern word).2⟩ : Rule).written = word := by
  unfold splitPattern Rule.written
  by_cases h : word.toList.getLast? = some '*'
  · simp only [h, if_true, Bool.false_eq_true, if_false]
    apply String.toList_inj.1
    obtain ⟨front, hfront⟩ := List.getLast?_eq_some_iff.1 h
    simp [hfront]
  · simp only [if_neg h, if_true]

theorem splitPattern_star : splitPattern "*" = ("", false) := by
  decide

section Read

variable {r : Reader} {word : String} {columns tokens : List String} {rule : Rule}

/-- When a line is a rule, without regard to the program that it is about. -/
theorem readText_cons_eq_ok : r.readText (word :: columns) = .ok rule ↔
    columns ≠ [] ∧ (rule.path, rule.exact) = splitPattern word ∧
      rule.path.utf8ByteSize ≤ Rule.pathLimit ∧
      (r.absolutePaths = true → rule.path.toList.head? = some '/' ∨ word = "*") ∧
      Flags.parse columns r.support = .ok rule.flags := by
  obtain ⟨path, flags, exact⟩ := rule
  cases columns with
  | nil => simp [readText]
  | cons column more =>
    simp only [readText, bind, Except.bind, pure, Except.pure]
    split
    · rename_i hsize
      refine ⟨fun h => (nomatch h), fun ⟨_, hsplit, hle, _⟩ => ?_⟩
      rw [← hsplit] at hsize
      exact absurd hle (Nat.not_le.2 hsize)
    · rename_i hsize
      split
      · rename_i habs
        refine ⟨fun h => (nomatch h), fun ⟨_, hsplit, _, hslash, _⟩ => ?_⟩
        rw [← hsplit] at habs
        exact absurd (hslash habs.1) (not_or.2 habs.2)
      · rename_i habs
        have hslash : r.absolutePaths = true →
            (splitPattern word).1.toList.head? = some '/' ∨ word = "*" := fun ha =>
          Decidable.byContradiction fun hnot => habs ⟨ha, not_or.1 hnot⟩
        cases hparse : Flags.parse (column :: more) r.support with
        | error fault => simp
        | ok found =>
          simp only [Except.ok.injEq, Rule.mk.injEq]
          constructor
          · rintro ⟨rfl, rfl, rfl⟩
            exact ⟨List.cons_ne_nil column more, rfl, Nat.not_lt.1 hsize, hslash, rfl⟩
          · rintro ⟨-, hsplit, -, -, rfl⟩
            rw [← hsplit]
            exact ⟨rfl, rfl, rfl⟩

/-- When a line is a rule: its program has to bear the word. -/
theorem read_eq_ok : r.read tokens = .ok rule ↔ r.readText tokens = .ok rule ∧
    (rule.exact = true → checkImage r.inspector rule.path rule.flags = .ok ()) := by
  unfold read
  cases r.readText tokens with
  | error fault => simp [bind, Except.bind]
  | ok found =>
    simp only [bind, Except.bind, pure, Except.pure, Except.ok.injEq]
    by_cases hexact : found.exact = true
    · rw [if_pos hexact]
      cases hcheck : checkImage r.inspector found.path found.flags with
      | error fault =>
        refine ⟨fun h => (nomatch h), fun ⟨heq, himage⟩ => ?_⟩
        subst heq
        cases hcheck.symm.trans (himage hexact)
      | ok u =>
        refine ⟨fun h => ?_, fun h => h.1 ▸ rfl⟩
        obtain rfl := Except.ok.inj h
        exact ⟨rfl, fun _ => hcheck⟩
    · rw [if_neg hexact]
      refine ⟨fun h => ?_, fun h => h.1 ▸ rfl⟩
      obtain rfl := Except.ok.inj h
      exact ⟨rfl, fun h => absurd h hexact⟩

theorem reads_of_readText (h : r.readText tokens = .ok rule) : r.Reads tokens rule := by
  cases tokens with
  | nil => cases h
  | cons word columns =>
    obtain ⟨-, hsplit, hsize, habsolute, hflags⟩ := readText_cons_eq_ok.1 h
    have hwritten := written_splitPattern word rule.flags
    rw [← hsplit] at hwritten
    refine ⟨congrArg some hwritten.symm, hsize, fun ha => (habsolute ha).imp_right ?_, hflags⟩
    rintro rfl
    rw [splitPattern_star] at hsplit
    exact Prod.mk.inj hsplit

theorem reads_of_read (h : r.read tokens = .ok rule) : r.Reads tokens rule :=
  reads_of_readText (read_eq_ok.1 h).1

end Read

end Reader

end PathPolicy.Protection
