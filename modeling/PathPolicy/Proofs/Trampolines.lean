import PathPolicy.Proofs.Degradation
import PathPolicy.Proofs.Strictness

/-!
# Rules that ask for trampolines

Where trampolines are emulated, columns mean the bits of all their words. Where they are not, the
word that asks for trampolines says what is left of that (`Flags.parse_weakens`): everything else,
or only what passes the word on to other programs.

Columns that are read with trampolines are read without them. The converse holds just if the other
words bring every restriction of memory along, and the columns are refused with trampolines
otherwise (`Flags.parse_available_iff`): the requirements are those of the word that is left, and
the words for trampolines bring the restrictions along only where there are none.
-/

namespace PathPolicy.Protection

open Config (Line)

/-! ## What the words of columns bring along -/

namespace Flags

variable {f g m : Flags}

theorem isValid_iff :
    f.isValid = true ↔ ∀ r, Requirement.holds (f.without transfer) r = true := by
  have hall : ∀ r : Requirement, r ∈ Requirement.all := by
    intro r
    cases r <;> decide
  unfold isValid violated?
  rw [Option.isNone_iff_eq_none, List.find?_eq_none]
  simp [hall]

theorem contains_union_left (h : f.contains m = true) : (f ∪ g).contains m = true := by
  rw [contains_iff] at h ⊢
  intro i hi
  rw [has_union, h i hi, Bool.true_or]

theorem contains_union_right (h : g.contains m = true) : (f ∪ g).contains m = true := by
  rw [contains_iff] at h ⊢
  intro i hi
  rw [has_union, h i hi, Bool.or_true]

theorem contains_eq_meets {i : Nat} (hm : m.bits.toNat = 2 ^ i) : f.contains m = f.meets m := by
  have hbit : ∀ j, m.has j = true ↔ i = j := by
    intro j
    rw [has, hm, Nat.testBit_two_pow, decide_eq_true_eq]
  rw [Bool.eq_iff_iff, contains_iff, meets_iff]
  simp [hbit]

theorem contains_without (hm : m.meets g = false) : (f.without g).contains m = f.contains m := by
  rw [not_meets_iff] at hm
  rw [Bool.eq_iff_iff, contains_iff, contains_iff]
  simp only [has_without, Bool.and_eq_true, Bool.not_eq_true']
  exact forall₂_congr fun i hi => and_iff_left (hm i hi)

theorem mprotect_of_isValid (hf : f.isValid = true) (hem : f.meets emutramp = true) :
    f.contains mprotect = true := by
  have hholds := isValid_iff.1 hf .emutrampNeedsMprotect
  have hbit : emutramp.bits.toNat = 2 ^ 8 := rfl
  rw [Requirement.holds, contains_without rfl, contains_without rfl, contains_eq_meets hbit,
    hem] at hholds
  exact hholds

/-- The requirements that no word of a column breaks. -/
def inherent : List Requirement := [.knownBits, .restrictionsNeedWxorx, .mmapNeedsOther]

theorem holds_union {r : Requirement} (hr : r ∈ inherent) (hf : Requirement.holds f r = true)
    (hg : Requirement.holds g r = true) : Requirement.holds (f ∪ g) r = true := by
  unfold Requirement.holds at hf hg ⊢
  cases r with
  | knownBits =>
    simp only [contains_iff, has_union, Bool.or_eq_true] at hf hg ⊢
    exact fun i hi => hi.elim (hf i) (hg i)
  | restrictionsNeedWxorx =>
    simp only [Bool.or_eq_true, Bool.not_eq_true'] at hf hg ⊢
    rcases hf with hf | hf
    · rcases hg with hg | hg
      · exact .inl (meets_union hf hg)
      · exact .inr (contains_union_right hg)
    · exact .inr (contains_union_left hf)
  | mmapNeedsOther =>
    simp only [Bool.or_eq_true, Bool.not_eq_true'] at hf hg ⊢
    rcases hf with hf | hf
    · rcases hg with hg | hg
      · left
        have hbit : mmap.bits.toNat = 2 ^ 6 := rfl
        rw [contains_eq_meets hbit] at hf hg ⊢
        exact meets_union hf hg
      · exact .inr (contains_union_right hg)
    · exact .inr (contains_union_left hf)
  | reportsNeedRestriction => exact absurd hr (by decide)
  | emutrampNeedsMprotect => exact absurd hr (by decide)

end Flags

namespace Column

/-- Words bring along what they need, but for reports and trampolines. -/
theorem holds_wordOf {r : Flags.Requirement} (hr : r ∈ Flags.inherent) (tokens : List Token) :
    Flags.Requirement.holds ((wordOf tokens).without Flags.transfer) r = true := by
  have hnone : ∀ r ∈ Flags.inherent,
      Flags.Requirement.holds (Flags.none.without Flags.transfer) r = true := by decide
  have hbits : ∀ r ∈ Flags.inherent, ∀ t ∈ Token.all,
      Flags.Requirement.holds (t.bits.without Flags.transfer) r = true := by decide
  induction tokens with
  | nil => exact hnone r hr
  | cons t rest ih =>
    rw [wordOf_cons, Flags.union_without]
    exact Flags.holds_union hr (hbits r hr t (by cases t <;> decide)) ih

theorem isValid_wordOf {tokens : List Token}
    (h : (wordOf tokens).contains Flags.mprotect = true) : (wordOf tokens).isValid = true := by
  rw [← Flags.contains_without (g := Flags.transfer) rfl] at h
  refine Flags.isValid_iff.2 fun r => ?_
  cases r with
  | knownBits => exact holds_wordOf (by decide) tokens
  | restrictionsNeedWxorx => exact holds_wordOf (by decide) tokens
  | mmapNeedsOther => exact holds_wordOf (by decide) tokens
  | reportsNeedRestriction =>
    have hmeets : ((wordOf tokens).without Flags.transfer).meets
        (Flags.mprotect ∪ Flags.wxorx ∪ Flags.mmap) = true :=
      Flags.meets_iff.2 ⟨0, Flags.contains_iff.1 h 0 rfl, rfl⟩
    rw [Flags.Requirement.holds, hmeets, Bool.or_true]
  | emutrampNeedsMprotect => rw [Flags.Requirement.holds, h, Bool.or_true]

/-! ## Words that may stand together -/

variable {columns : List String} {tokens resolved : List Token} {support : Support} {t : Token}

/-- The columns name a word. -/
def Names (columns : List String) (t : Token) : Prop :=
  ∃ tokens, tokenize columns = .ok tokens ∧ t ∈ tokens

/-- The columns are words that may stand together. -/
structure Combines (columns : List String) (tokens : List Token) : Prop where
  tokenize : tokenize columns = .ok tokens
  noneAllowed : noneAllowed tokens = true
  variants : (tokens.filter Token.isEmutramp).length ≤ 1

theorem Combines.names_iff (h : Combines columns tokens) : Names columns t ↔ t ∈ tokens := by
  unfold Names
  rw [h.tokenize]
  simp

theorem resolve_of_forall (h : ∀ t ∈ tokens, t.isEmutramp = false) :
    resolve support tokens = .ok tokens := by
  have hnone : tokens.filter Token.isEmutramp = [] := by
    rw [List.filter_eq_nil_iff]
    exact fun t ht => by rw [h t ht]; exact Bool.false_ne_true
  unfold resolve
  rw [hnone]

/-- A word asks for trampolines, or none does. -/
theorem isEmutramp_cases (tokens : List Token) :
    (∃ t ∈ tokens, t.isEmutramp = true) ∨ ∀ t ∈ tokens, t.isEmutramp = false := by
  by_cases hany : ∃ t ∈ tokens, t.isEmutramp = true
  · exact .inl hany
  · exact .inr fun t ht => Bool.eq_false_iff.2 fun hem => hany ⟨t, ht, hem⟩

theorem combines_of_parse {f : Flags} (h : Flags.parse columns support = .ok f) :
    ∃ tokens, Combines columns tokens := by
  obtain ⟨tokens, resolved, htokens, hnone, hresolved, -⟩ := Flags.exists_of_parse h
  refine ⟨tokens, htokens, hnone, ?_⟩
  unfold resolve at hresolved
  split at hresolved
  · rename_i hfilter
    rw [hfilter]
    exact Nat.zero_le 1
  · rename_i hfilter
    rw [hfilter]
    exact Nat.le_refl 1
  · cases hresolved

/-- One of the words that may stand together is the only one that asks for trampolines. -/
theorem Combines.filter_eq (h : Combines columns tokens) (ht : t ∈ tokens)
    (hem : t.isEmutramp = true) : tokens.filter Token.isEmutramp = [t] := by
  have hmem := List.mem_filter.2 ⟨ht, hem⟩
  obtain ⟨variant, hvariant⟩ := List.length_eq_one_iff.1
    (Nat.le_antisymm h.variants (List.length_pos_of_mem hmem))
  rw [hvariant] at hmem ⊢
  rw [List.mem_singleton.1 hmem]

theorem Combines.parse (h : Combines columns tokens)
    (hresolve : resolve support tokens = .ok resolved) : Flags.parse columns support =
      if (wordOf resolved).isValid then .ok (wordOf resolved) else .error .invalidFlags := by
  unfold Flags.parse
  rw [h.tokenize]
  simp only [bind, Except.bind, h.noneAllowed, hresolve, Bool.not_true, Bool.false_eq_true,
    if_false]
  rfl

theorem has_wordOf (tokens : List Token) (i : Nat) :
    (wordOf tokens).has i = tokens.any (·.bits.has i) := by
  induction tokens with
  | nil => exact Flags.has_none i
  | cons t rest ih => rw [wordOf_cons, Flags.has_union, ih, List.any_cons]

/-- All words but one that asks for trampolines, and the bit that it sets. -/
theorem wordOf_eq_union (ht : t ∈ tokens) (hem : t.isEmutramp = true) :
    wordOf tokens = Flags.emutramp ∪ wordOf (tokens.filter (· ≠ t)) := by
  have hbits : t.bits = Flags.emutramp := by
    cases t <;> first | rfl | cases hem
  refine Flags.ext_has fun i => ?_
  rw [Flags.has_union, has_wordOf, has_wordOf, ← hbits, Bool.eq_iff_iff]
  simp only [Bool.or_eq_true, List.any_eq_true, List.mem_filter, decide_eq_true_eq]
  constructor
  · rintro ⟨u, hu, hi⟩
    by_cases hut : u = t
    · exact .inl (hut ▸ hi)
    · exact .inr ⟨u, ⟨hu, hut⟩, hi⟩
  · rintro (hi | ⟨u, ⟨hu, -⟩, hi⟩)
    · exact ⟨t, ht, hi⟩
    · exact ⟨u, hu, hi⟩

/-- With trampolines, columns are read as the bits of all their words. -/
theorem Combines.parse_available (h : Combines columns tokens) (fallback : Fallback) :
    Flags.parse columns ⟨true, fallback⟩ =
      if (wordOf tokens).isValid then .ok (wordOf tokens) else .error .invalidFlags := by
  rcases isEmutramp_cases tokens with ⟨t, ht, hem⟩ | hnone
  · have hresolve : resolve ⟨true, fallback⟩ tokens =
        .ok (.emutramp :: tokens.filter (· ≠ t)) := by
      unfold resolve
      rw [h.filter_eq ht hem]
      rfl
    rw [h.parse hresolve, wordOf_cons, wordOf_eq_union ht hem]
    rfl
  · exact h.parse (resolve_of_forall hnone)

end Column

theorem Flags.isValid_weaken {f : Flags} (hf : f.isValid = true)
    (hem : f.meets Flags.emutramp = true) (fallback : Fallback) :
    (fallback.weaken f).isValid = true := by
  have hall : ∀ fallback ∈ [Fallback.mprotect, Fallback.none],
      (fallback.weaken f).isValid = true := by
    refine Flags.holds_of_isValid (P := fun f => f.meets Flags.emutramp = true →
      ∀ fallback ∈ [Fallback.mprotect, Fallback.none], (fallback.weaken f).isValid = true) ?_ hf hem
    decide +kernel
  exact hall fallback (by cases fallback <;> decide)

namespace Column

variable {columns : List String} {tokens : List Token} {fallback : Fallback} {t : Token}

theorem meets_wordOf_of_mem (ht : t ∈ tokens) (hem : t.isEmutramp = true) :
    (wordOf tokens).meets Flags.emutramp = true := by
  rw [wordOf_eq_union ht hem]
  exact Flags.emutramp_union_meets _

/-- Without trampolines, a word that asks for them says what is left of a valid word. -/
theorem Combines.parse_unavailable (h : Combines columns tokens)
    (hvalid : (wordOf tokens).isValid = true) (ht : t ∈ tokens) (hem : t.isEmutramp = true)
    (fallback : Fallback) : Flags.parse columns ⟨false, fallback⟩ =
      .ok ((t.fallback fallback).weaken (wordOf tokens)) := by
  have hone := h.filter_eq ht hem
  have hresolve : resolve ⟨false, fallback⟩ tokens =
      .ok (degrade fallback t (tokens.filter (· ≠ t))) := by
    unfold resolve
    rw [hone]
    rfl
  have hleft : wordOf (degrade fallback t (tokens.filter (· ≠ t))) =
      (t.fallback fallback).weaken (wordOf tokens) := by
    rw [wordOf_eq_union ht hem] at hvalid ⊢
    exact wordOf_degrade fallback t (meets_wordOf (isEmutramp_of_filter_eq hone)) hvalid
  rw [h.parse hresolve, hleft, if_pos]
  exact Flags.isValid_weaken hvalid (meets_wordOf_of_mem ht hem) _

/-- What is read with trampolines is the valid word of all words. -/
theorem exists_combines_of_parse {f : Flags}
    (hf : Flags.parse columns ⟨true, fallback⟩ = .ok f) :
    ∃ tokens, Combines columns tokens ∧ (wordOf tokens).isValid = true ∧ f = wordOf tokens := by
  obtain ⟨tokens, h⟩ := combines_of_parse hf
  rw [h.parse_available] at hf
  split at hf
  · exact ⟨tokens, h, ‹_›, (Except.ok.inj hf).symm⟩
  · cases hf

end Column

/-! ## What is left without trampolines -/

namespace Flags

theorem meets_of_parse_unavailable {columns : List String} {fallback : Fallback} {g : Flags}
    (hg : parse columns ⟨false, fallback⟩ = .ok g) : g.meets emutramp = false := by
  cases hem : g.meets emutramp with
  | false => rfl
  | true => cases (parse_eq_ok hg).2 hem

/-- What columns are read as where trampolines are not emulated, by what they are read as where they
are. -/
theorem parse_degrades {columns : List String} {fallback : Fallback} {f g : Flags}
    (hf : parse columns ⟨true, fallback⟩ = .ok f) (hg : parse columns ⟨false, fallback⟩ = .ok g) :
    f.Degrades g := by
  obtain ⟨tokens, h, hvalid, rfl⟩ := Column.exists_combines_of_parse hf
  have hmeets := meets_of_parse_unavailable hg
  rcases Column.isEmutramp_cases tokens with ⟨t, ht, hem⟩ | hnone
  · have hleft := Except.ok.inj (hg.symm.trans (h.parse_unavailable hvalid ht hem fallback))
    refine ⟨hmeets, fun hnot => ?_, fun _ => ?_⟩
    · rw [Column.meets_wordOf_of_mem ht hem] at hnot
      cases hnot
    · rw [hleft]
      cases t.fallback fallback with
      | mprotect => exact .inl rfl
      | none => exact .inr rfl
  · rw [h.parse (Column.resolve_of_forall hnone), if_pos hvalid] at hg
    refine ⟨hmeets, fun _ => (Except.ok.inj hg).symm, fun hem => ?_⟩
    rw [Column.meets_wordOf hnone] at hem
    cases hem

/-- What columns that are read with trampolines mean without them. If no word asks for trampolines,
it is the same; otherwise the word that asks for them decides. No word that is read without
trampolines asks for them. -/
theorem parse_weakens (columns : List String) :
    (∀ fallback f, parse columns ⟨true, fallback⟩ = .ok f →
      (∀ fallback', parse columns ⟨true, fallback'⟩ = .ok f) ∧
      ((∀ t, Column.Names columns t → t.isEmutramp = false) →
        f.meets emutramp = false ∧ ∀ support, parse columns support = .ok f) ∧
      ∀ t, Column.Names columns t → t.isEmutramp = true →
        f.meets emutramp = true ∧ ∀ fallback',
          parse columns ⟨false, fallback'⟩ = .ok ((t.fallback fallback').weaken f)) ∧
    ∀ fallback g, parse columns ⟨false, fallback⟩ = .ok g → g.meets emutramp = false := by
  refine ⟨fun fallback f hf => ?_, fun _ _ => meets_of_parse_unavailable⟩
  obtain ⟨tokens, h, hvalid, rfl⟩ := Column.exists_combines_of_parse hf
  simp only [h.names_iff]
  refine ⟨fun fallback' => ?_, fun hnone => ⟨Column.meets_wordOf hnone, fun support => ?_⟩,
    fun t ht hem => ⟨Column.meets_wordOf_of_mem ht hem, h.parse_unavailable hvalid ht hem⟩⟩
  · rw [h.parse_available, if_pos hvalid]
  · rw [h.parse (Column.resolve_of_forall hnone), if_pos hvalid]

/-- Restrictions with trampolines, by a word that says what becomes of them without. -/
theorem parse_weakens_full :
    parse ["Full,", "emutramp_or_mprotect"] ⟨true, .none⟩ = .ok (full ∪ emutramp) ∧
      parse ["Full,", "emutramp_or_mprotect"] ⟨false, .none⟩ = .ok full := by
  have hf : parse ["Full,", "emutramp_or_mprotect"] ⟨true, .none⟩ = .ok (full ∪ emutramp) := by
    decide +kernel
  have hnames : Column.Names ["Full,", "emutramp_or_mprotect"] .emutrampOrMprotect :=
    ⟨[.full, .emutrampOrMprotect], by decide +kernel, by decide⟩
  obtain ⟨hread, -⟩ := parse_weakens ["Full,", "emutramp_or_mprotect"]
  obtain ⟨-, -, hvariant⟩ := hread .none _ hf
  exact ⟨hf, (hvariant _ hnames rfl).2 .none⟩

end Flags

/-! ## Columns that are read with trampolines and without them -/

namespace Column

/-- If the columns ask for trampolines, their words bring every restriction of memory along. -/
def Restricts (columns : List String) : Prop :=
  ∀ tokens, tokenize columns = .ok tokens → (∃ t ∈ tokens, t.isEmutramp = true) →
    (wordOf tokens).contains Flags.mprotect = true

variable {columns : List String} {tokens : List Token} {fallback : Fallback}

theorem Combines.restricts (h : Combines columns tokens) (hvalid : (wordOf tokens).isValid = true) :
    Restricts columns := by
  rintro tokens' htokens' ⟨t, ht, hem⟩
  obtain rfl := Except.ok.inj (h.tokenize.symm.trans htokens')
  exact Flags.mprotect_of_isValid hvalid (meets_wordOf_of_mem ht hem)

/-- Columns that are read without trampolines are a valid word with them just if their words bring
every restriction along. -/
theorem Combines.isValid_iff (h : Combines columns tokens) {g : Flags}
    (hg : Flags.parse columns ⟨false, fallback⟩ = .ok g) :
    (wordOf tokens).isValid = true ↔ Restricts columns := by
  refine ⟨h.restricts, fun hrestricts => ?_⟩
  rcases isEmutramp_cases tokens with hany | hnone
  · exact isValid_wordOf (hrestricts tokens h.tokenize hany)
  · rw [h.parse (resolve_of_forall hnone)] at hg
    split at hg
    · assumption
    · cases hg

end Column

namespace Flags

/-- Columns are read with trampolines just if they are read without them and their words bring
every restriction of memory along where they ask for trampolines. -/
theorem exists_parse_available_iff (columns : List String) (fallback : Fallback) :
    (∃ f, parse columns ⟨true, fallback⟩ = .ok f) ↔
      (∃ g, parse columns ⟨false, fallback⟩ = .ok g) ∧ Column.Restricts columns := by
  constructor
  · rintro ⟨f, hf⟩
    obtain ⟨tokens, h, hvalid, -⟩ := Column.exists_combines_of_parse hf
    refine ⟨?_, h.restricts hvalid⟩
    rcases Column.isEmutramp_cases tokens with ⟨t, ht, hem⟩ | hnone
    · exact ⟨_, h.parse_unavailable hvalid ht hem fallback⟩
    · exact ⟨_, (h.parse (Column.resolve_of_forall hnone)).trans (if_pos hvalid)⟩
  · rintro ⟨⟨g, hg⟩, hrestricts⟩
    obtain ⟨tokens, h⟩ := Column.combines_of_parse hg
    exact ⟨_, (h.parse_available fallback).trans (if_pos ((h.isValid_iff hg).2 hrestricts))⟩

/-- Columns that are read without trampolines only break the requirements with them. -/
theorem parse_available_error {columns : List String} {fallback : Fallback} {g : Flags}
    (hg : parse columns ⟨false, fallback⟩ = .ok g) (hnot : ¬ Column.Restricts columns) :
    parse columns ⟨true, fallback⟩ = .error .invalidFlags := by
  obtain ⟨tokens, h⟩ := Column.combines_of_parse hg
  rw [h.parse_available, if_neg fun hvalid => hnot (h.restricts hvalid)]

end Flags

namespace Reader

/-- The reader of a kernel that emulates trampolines, or does not. -/
def withEmulation (r : Reader) (available : Bool) : Reader :=
  { r with support := { r.support with available } }

variable {r : Reader} {available : Bool} {word : String} {columns : List String}

theorem exists_readText_iff : (∃ rule, (r.withEmulation available).readText (word :: columns) =
      .ok rule) ↔
    (columns ≠ [] ∧ (splitPattern word).1.utf8ByteSize ≤ Rule.pathLimit ∧
      (r.absolutePaths = true → (splitPattern word).1.toList.head? = some '/' ∨ word = "*")) ∧
      ∃ f, Flags.parse columns ⟨available, r.support.fallback⟩ = .ok f := by
  constructor
  · rintro ⟨rule, hrule⟩
    obtain ⟨hne, hsplit, hsize, habsolute, hflags⟩ := readText_cons_eq_ok.1 hrule
    rw [← hsplit]
    exact ⟨⟨hne, hsize, habsolute⟩, rule.flags, hflags⟩
  · rintro ⟨⟨hne, hsize, habsolute⟩, f, hf⟩
    exact ⟨⟨(splitPattern word).1, f, (splitPattern word).2⟩,
      readText_cons_eq_ok.2 ⟨hne, rfl, hsize, habsolute, hf⟩⟩

theorem isRule_withEmulation (h : ∀ path, (r.inspector path).traits? = none) {line : Line} :
    (r.withEmulation available).isRule line = true ↔
      ∃ rule, (r.withEmulation available).readText line.tokens = .ok rule := by
  rw [isRule_iff]
  exact exists_congr fun rule => read_eq_ok.trans
    (and_iff_left fun _ => checkImage_of_unknown (h rule.path) rule.flags)

end Reader

/-- Columns are read with trampolines just if they are read without them and their words bring
every restriction of memory along where they ask for trampolines; what is read without them only
breaks the requirements with them. The same holds of lines, and of rules where nothing is known of
images. -/
theorem Flags.parse_available_iff (columns : List String) (fallback : Fallback) :
    ((∃ f, parse columns ⟨true, fallback⟩ = .ok f) ↔
      (∃ g, parse columns ⟨false, fallback⟩ = .ok g) ∧ Column.Restricts columns) ∧
    ((∃ g, parse columns ⟨false, fallback⟩ = .ok g) → ¬ Column.Restricts columns →
      parse columns ⟨true, fallback⟩ = .error .invalidFlags) ∧
    ∀ (r : Reader) (location word : String), r.support.fallback = fallback →
      ((∃ rule, (r.withEmulation true).readText (word :: columns) = .ok rule) ↔
        (∃ rule, (r.withEmulation false).readText (word :: columns) = .ok rule) ∧
          Column.Restricts columns) ∧
      ((∀ path, (r.inspector path).traits? = Option.none) →
        ((r.withEmulation true).isRule ⟨location, word :: columns⟩ = true ↔
          (r.withEmulation false).isRule ⟨location, word :: columns⟩ = true ∧
            Column.Restricts columns)) := by
  refine ⟨exists_parse_available_iff columns fallback,
    fun ⟨g, hg⟩ => parse_available_error hg, fun r location word hfallback => ?_⟩
  subst hfallback
  have hline : (∃ rule, (r.withEmulation true).readText (word :: columns) = .ok rule) ↔
      (∃ rule, (r.withEmulation false).readText (word :: columns) = .ok rule) ∧
        Column.Restricts columns := by
    rw [Reader.exists_readText_iff, Reader.exists_readText_iff, exists_parse_available_iff]
    exact and_assoc.symm
  refine ⟨hline, fun hunknown => ?_⟩
  rw [Reader.isRule_withEmulation hunknown, Reader.isRule_withEmulation hunknown]
  exact hline

theorem Flags.parse_available_iff_sample :
    ((∃ g, parse ["WXORX,", "EMUTRAMP_OR_NONE"] ⟨false, .mprotect⟩ = .ok g) ∧
      ¬ Column.Restricts ["WXORX,", "EMUTRAMP_OR_NONE"] ∧
      parse ["WXORX,", "EMUTRAMP_OR_NONE"] ⟨true, .mprotect⟩ = .error .invalidFlags) ∧
    (∀ path, (Image.Inspector.blind path).traits? = Option.none) ∧
      ((Reader.mk ⟨true, .none⟩ .blind true).withEmulation true).isRule
        ⟨"", ["/a", "FULL,", "EMUTRAMP"]⟩ = true := by
  have hparse : parse ["WXORX,", "EMUTRAMP_OR_NONE"] ⟨false, .mprotect⟩ = .ok Flags.none := by
    decide +kernel
  have hnot : ¬ Column.Restricts ["WXORX,", "EMUTRAMP_OR_NONE"] := by
    intro h
    have hword := h [.wxorx, .emutrampOrNone] (by decide +kernel) ⟨.emutrampOrNone, by decide, rfl⟩
    exact absurd hword (by decide)
  have hrestricts : Column.Restricts ["FULL,", "EMUTRAMP"] := by
    intro tokens htokens _
    have hnames : Column.tokenize ["FULL,", "EMUTRAMP"] = .ok [.full, .emutramp] := by
      decide +kernel
    obtain rfl := Except.ok.inj (hnames.symm.trans htokens)
    decide
  obtain ⟨-, hrefused, -⟩ := Flags.parse_available_iff ["WXORX,", "EMUTRAMP_OR_NONE"] .mprotect
  obtain ⟨-, -, hlines⟩ := Flags.parse_available_iff ["FULL,", "EMUTRAMP"] .none
  refine ⟨⟨⟨_, hparse⟩, hnot, hrefused ⟨_, hparse⟩ hnot⟩, fun _ => rfl, ?_⟩
  exact ((hlines ⟨⟨true, .none⟩, .blind, true⟩ "" "/a" rfl).2 fun _ => rfl).2
    ⟨by decide +kernel, hrestricts⟩

/-! ## A rule that only asks for trampolines -/

/-- A rule that restricts its program where there are no trampolines, and asks for them where there
are. -/
def trampolineLine : Line := ⟨"wxprot.conf:1", ["/usr/lib/jvm/bin/java", "EMUTRAMP_OR_MPROTECT"]⟩

/-- A strict reading for a kernel that says whether it emulates trampolines. -/
def trampolineContext (available : String) : Context :=
  { strictContext with features := Kernel.Features.empty.set name emutrampFeature available }

/-- The rule is refused just where trampolines are emulated. -/
theorem trampolineLine_refused :
    (∃ p, (compile [trampolineLine] (trampolineContext "0")).result = .ok p ∧
      p.text = "/usr/lib/jvm/bin/java EMUTRAMP_OR_MPROTECT\n") ∧
    (compile [trampolineLine] (trampolineContext "1")).result =
      .error (lineError "wxprot.conf:1" .invalidFlags) ∧
    (∃ g, Flags.parse ["EMUTRAMP_OR_MPROTECT"] ⟨false, .mprotect⟩ = .ok g) ∧
      ¬ ∃ f, Flags.parse ["EMUTRAMP_OR_MPROTECT"] ⟨true, .mprotect⟩ = .ok f := by
  have hwithout := @compile_strict (trampolineContext "0") [trampolineLine] rfl
  have haccepted : (Reader.ofContext (trampolineContext "0")).refused? [trampolineLine] = none := by
    decide +kernel
  rw [haccepted] at hwithout
  have hwith := @compile_strict (trampolineContext "1") [trampolineLine] rfl
  have hrefused : (Reader.ofContext (trampolineContext "1")).refused? [trampolineLine] =
      some trampolineLine := by decide +kernel
  rw [hrefused] at hwith
  obtain ⟨fault, hread, herror⟩ := hwith
  have hfault : (Reader.ofContext (trampolineContext "1")).read trampolineLine.tokens =
      .error .invalidFlags := by decide +kernel
  obtain rfl := Except.error.inj (hfault.symm.trans hread)
  have hparse : Flags.parse ["EMUTRAMP_OR_MPROTECT"] ⟨true, .mprotect⟩ = .error .invalidFlags := by
    decide +kernel
  refine ⟨hwithout, herror, ⟨Flags.mprotect ∪ Flags.wxorx, by decide +kernel⟩, ?_⟩
  rintro ⟨f, hf⟩
  rw [hparse] at hf
  cases hf

end PathPolicy.Protection
