import PathPolicy.Proofs.RuleLines

/-!
# Columns are read back

What `Flags.render` writes, `Flags.parse` reads back (`Flags.parse_wordsOf`): the column of a valid
word is read as the same word, wherever it was split at its blanks, as long as the kernel has
emulated trampolines if the word asks for them.

That is shown in two steps. The text of a list of words of the table is read as the set of these
words, whatever they are. What the set means is a matter of the bits, of which there are few.
-/

namespace PathPolicy.Protection

/-! ## The words of a column -/

namespace Token

theorem comma_notMem_name (t : Token) : ',' ∉ t.name.toList := by
  cases t <;> decide +kernel

theorem name_ne_nil (t : Token) : t.name.toList ≠ [] := by
  cases t <;> decide +kernel

theorem head?_name_append_ne (t : Token) (rest : List Char) :
    (t.name.toList ++ rest).head? ≠ some ',' := by
  obtain ⟨c, name, hname⟩ := List.exists_cons_of_ne_nil t.name_ne_nil
  rw [hname]
  exact fun hc => t.comma_notMem_name (hname ▸ Option.some.inj hc ▸ List.mem_cons_self)

theorem ofName?_name (t : Token) : ofName? t.name = some t := by
  cases t <;> decide +kernel

theorem mapM_ofName? (ts : List Token) : (ts.map name).mapM ofName? = some ts := by
  induction ts with
  | nil => rfl
  | cons t rest ih => simp [ofName?_name, ih]

end Token

namespace Column

/-- The words that a column consists of, between blanks. -/
def wordsOf : List Token → List String
  | [] => []
  | [t] => [t.name]
  | t :: rest => (t.name ++ ",") :: wordsOf rest

/-- The names of words between commas. -/
def joined : List Token → List Char
  | [] => []
  | [t] => t.name.toList
  | t :: rest => t.name.toList ++ ',' :: joined rest

theorem joined_cons (t : Token) {ts : List Token} (hts : ts ≠ []) :
    joined (t :: ts) = t.name.toList ++ ',' :: joined ts := by
  cases ts with
  | nil => exact absurd rfl hts
  | cons u more => rfl

theorem wordsOf_ne_nil {ts : List Token} (hts : ts ≠ []) : wordsOf ts ≠ [] := by
  cases ts with
  | nil => exact absurd rfl hts
  | cons t rest => cases rest <;> exact List.cons_ne_nil _ _

theorem intercalate_wordsOf (ts : List Token) :
    " ".intercalate (wordsOf ts) = ", ".intercalate (ts.map Token.name) := by
  induction ts with
  | nil => rfl
  | cons t rest ih =>
    cases rest with
    | nil => rfl
    | cons u more =>
      rw [wordsOf, String.intercalate_cons_of_ne_nil (wordsOf_ne_nil (List.cons_ne_nil u more)), ih]
      · simp [String.append_assoc]
      · simp

theorem normalize_cons (column : String) (columns : List String) :
    normalize (column :: columns) = normalize [column] ++ normalize columns := by
  simp [normalize, List.flatMap_append]

theorem normalize_name (t : Token) : normalize [t.name] = t.name.toList := by
  cases t <;> decide +kernel

theorem normalize_name_comma (t : Token) : normalize [t.name ++ ","] = t.name.toList ++ [','] := by
  cases t <;> decide +kernel

theorem normalize_wordsOf (ts : List Token) : normalize (wordsOf ts) = joined ts := by
  induction ts with
  | nil => rfl
  | cons t rest ih =>
    cases rest with
    | nil => exact normalize_name t
    | cons u more =>
      rw [wordsOf, normalize_cons, normalize_name_comma, ih]
      · simp [joined]
      · simp

theorem collapse_append {a : List Char} (ha : ',' ∉ a) (rest : List Char) :
    collapse (a ++ rest) = a ++ collapse rest := by
  induction a with
  | nil => rfl
  | cons c a ih =>
    have hc : c ≠ ',' := fun h => ha (h ▸ List.mem_cons_self)
    have ih := ih fun h => ha (List.mem_cons_of_mem c h)
    cases hrest : a ++ rest with
    | nil =>
      obtain ⟨rfl, rfl⟩ := List.append_eq_nil_iff.1 hrest
      rfl
    | cons d more =>
      rw [List.cons_append, List.cons_append, hrest, collapse, if_neg fun h => hc h.1, ← hrest, ih]

theorem collapse_comma {text : List Char} (h : text.head? ≠ some ',') :
    collapse (',' :: text) = ',' :: collapse text := by
  cases text with
  | nil => rfl
  | cons c rest => rw [collapse, if_neg fun hc => h (congrArg some hc.2)]

/-- No two commas follow each other between names. -/
theorem collapse_joined (ts : List Token) : collapse (joined ts) = joined ts := by
  induction ts with
  | nil => rfl
  | cons t rest ih =>
    cases rest with
    | nil =>
      have h := collapse_append t.comma_notMem_name []
      rwa [List.append_nil, collapse, List.append_nil] at h
    | cons u more =>
      have hhead : (joined (u :: more)).head? ≠ some ',' := by
        cases more with
        | nil => simpa [joined] using u.head?_name_append_ne []
        | cons v more => exact u.head?_name_append_ne _
      rw [joined_cons t (List.cons_ne_nil u more), collapse_append t.comma_notMem_name,
        collapse_comma hhead, ih]

theorem parts_eq_splitOn (text : List Char) : parts text = text.splitOn ',' := by
  induction text with
  | nil => rfl
  | cons c rest ih =>
    rw [List.splitOn_eq_splitOnP, List.splitOnP_cons_eq_if_modifyHead, ← List.splitOn_eq_splitOnP,
      ← ih, parts]
    simp only [beq_iff_eq]
    split
    · rfl
    · cases hrest : parts rest with
      | nil => exact absurd (ih ▸ hrest) (List.splitOn_ne_nil ',' rest)
      | cons part more => rfl

theorem joined_eq_intercalate (ts : List Token) :
    joined ts = [','].intercalate (ts.map (·.name.toList)) := by
  induction ts with
  | nil => rfl
  | cons t rest ih =>
    cases rest with
    | nil => simp [joined]
    | cons u more =>
      rw [joined_cons t (List.cons_ne_nil u more), ih]
      simp [List.intercalate_cons_cons]

/-- The parts of a text are the names of words iff the text is these names between commas. -/
theorem map_parts_eq_iff {text : List Char} {ts : List Token} :
    (parts text).map String.ofList = ts.map Token.name ↔ ts ≠ [] ∧ text = joined ts := by
  have hnames : ts.map Token.name = (ts.map (·.name.toList)).map String.ofList := by simp
  rw [hnames, List.map_inj_right fun _ _ => String.ofList_inj.1, parts_eq_splitOn,
    joined_eq_intercalate]
  constructor
  · refine fun h => ⟨?_, ?_⟩
    · rintro rfl
      exact List.splitOn_ne_nil ',' text h
    · rw [← h, List.intercalate_splitOn]
  · rintro ⟨hts, rfl⟩
    refine List.splitOn_intercalate ',' (fun name hname => ?_) (by simpa using hts)
    obtain ⟨t, -, rfl⟩ := List.mem_map.1 hname
    exact t.comma_notMem_name

theorem tokenize_wordsOf {ts : List Token} (hts : ts ≠ []) :
    tokenize (wordsOf ts) = .ok (setOf ts) := by
  unfold tokenize
  rw [normalize_wordsOf, collapse_joined, map_parts_eq_iff.2 ⟨hts, rfl⟩]
  simp only [Token.mapM_ofName?]

end Column

/-! ## The bits of a valid word -/

namespace Flags

theorem toNat_lt_of_isValid {f : Flags} (h : f.isValid = true) : f.bits.toNat < 2 ^ 10 := by
  have hknown : known.contains (f.without transfer) = true := by
    have hnone : f.violated? = Option.none := Option.isNone_iff_eq_none.1 h
    simpa [Requirement.holds] using List.find?_eq_none.1 hnone .knownBits (by decide)
  have hand : known.bits &&& (f.bits &&& ~~~transfer.bits) = f.bits &&& ~~~transfer.bits :=
    eq_of_beq hknown
  have hsplit : f.bits = (f.bits &&& ~~~transfer.bits) ||| (f.bits &&& transfer.bits) := by
    apply UInt16.toBitVec_inj.1
    ext i
    simp only [UInt16.toBitVec_or, UInt16.toBitVec_and, UInt16.toBitVec_not, BitVec.getElem_or,
      BitVec.getElem_and, BitVec.getElem_not]
    cases f.bits.toBitVec[i] <;> cases transfer.bits.toBitVec[i] <;> rfl
  rw [hsplit, ← hand, UInt16.toNat_or, UInt16.toNat_and, UInt16.toNat_and]
  refine Nat.or_lt_two_pow ?_ ?_
  · exact Nat.lt_of_le_of_lt Nat.and_le_left (by decide)
  · exact Nat.lt_of_le_of_lt Nat.and_le_right (by decide)

/-- The words of a protection word say what it is: they are not empty, may stand together, ask for
emulated trampolines only as the word does, and have its bits. -/
structure Told (f : Flags) (tokens : List Token) : Prop where
  ne_nil : f.tokens ≠ []
  noneAllowed : Column.noneAllowed tokens = true
  trampolines : tokens.filter Token.isEmutramp = if f.meets emutramp then [.emutramp] else []
  bits : Column.wordOf (tokens.filter Token.isEmutramp ++ tokens.filter (!·.isEmutramp)) = f

instance (f : Flags) (tokens : List Token) : Decidable (f.Told tokens) :=
  decidable_of_iff (f.tokens ≠ [] ∧ Column.noneAllowed tokens = true ∧
      (tokens.filter Token.isEmutramp = if f.meets emutramp then [.emutramp] else []) ∧
      Column.wordOf (tokens.filter Token.isEmutramp ++ tokens.filter (!·.isEmutramp)) = f)
    ⟨fun ⟨h₁, h₂, h₃, h₄⟩ => ⟨h₁, h₂, h₃, h₄⟩, fun ⟨h₁, h₂, h₃, h₄⟩ => ⟨h₁, h₂, h₃, h₄⟩⟩

/-- What holds of all valid words with few bits holds of all valid words. -/
theorem holds_of_isValid {P : Flags → Prop}
    (h : ∀ n < 2 ^ 10, (mk (UInt16.ofNat n)).isValid = true → P (mk (UInt16.ofNat n))) {f : Flags}
    (hf : f.isValid = true) : P f := by
  have hofNat : mk (UInt16.ofNat f.bits.toNat) = f := by
    rw [UInt16.ofNat_toNat]
  have hall := h f.bits.toNat (toNat_lt_of_isValid hf)
  rw [hofNat] at hall
  exact hall hf

theorem told_of_isValid {f : Flags} (h : f.isValid = true) : f.Told (Column.setOf f.tokens) := by
  refine holds_of_isValid (P := fun f => f.Told (Column.setOf f.tokens)) ?_ h
  decide +kernel

/-- Words that say what a protection word is are resolved to it. -/
theorem Told.resolve {f : Flags} {tokens : List Token} (h : f.Told tokens) {support : Support}
    (hs : f.meets emutramp = true → support.available = true) :
    ∃ resolved, Column.resolve support tokens = .ok resolved ∧ Column.wordOf resolved = f := by
  have hfilter := h.trampolines
  have hbits := h.bits
  unfold Column.resolve
  by_cases hem : f.meets emutramp = true
  · rw [if_pos hem] at hfilter
    rw [hfilter] at hbits ⊢
    simp only [hs hem, if_true]
    refine ⟨_, rfl, ?_⟩
    -- The only word that asks for trampolines is `emutramp`.
    have hrest : tokens.filter (fun t => !t.isEmutramp) = tokens.filter (· ≠ .emutramp) := by
      refine List.filter_congr fun t ht => ?_
      cases htramp : t.isEmutramp with
      | true =>
        have hmem := List.mem_filter.2 ⟨ht, htramp⟩
        rw [hfilter, List.mem_singleton] at hmem
        simp [hmem]
      | false =>
        have hne : t ≠ .emutramp := fun heq => by
          rw [heq] at htramp
          cases htramp
        simp [hne]
    rwa [hrest] at hbits
  · rw [if_neg hem] at hfilter
    rw [hfilter] at hbits ⊢
    refine ⟨_, rfl, ?_⟩
    have hrest : tokens.filter (fun t => !t.isEmutramp) = tokens := by
      rw [List.filter_eq_self]
      intro t ht
      have hnone := List.filter_eq_nil_iff.1 hfilter t ht
      simpa using hnone
    rwa [hrest, List.nil_append] at hbits

/-- The column of a valid word is read as the word, if trampolines are emulated where it asks for
them. -/
theorem parse_wordsOf {f : Flags} (hf : f.isValid = true) {support : Support}
    (hs : f.meets emutramp = true → support.available = true) :
    parse (Column.wordsOf f.tokens) support = .ok f := by
  have htold := told_of_isValid hf
  obtain ⟨resolved, hresolve, hword⟩ := htold.resolve hs
  unfold parse
  rw [Column.tokenize_wordsOf htold.ne_nil]
  simp [bind, Except.bind, htold.noneAllowed, hresolve, hword, hf, pure, Except.pure]

end Flags

end PathPolicy.Protection
