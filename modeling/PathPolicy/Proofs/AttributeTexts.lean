import PathPolicy.Proofs.Attributes
import PathPolicy.Proofs.Hexadecimal
import PathPolicy.Proofs.Rereading

/-!
# Values as text

A value of an extended attribute may be written in many ways: in three bases, with digits of either
case, and with blanks around it (`Attribute.IsNumeral`). All of them are read as the value
(`Attribute.IsNumeral.parse_eq`). A value that was made of columns has a text, and this text as the
only column makes the value again (`Loader.encodeAttribute_decode`): the word of the value is valid,
and asks for trampolines only where there are some.
-/

namespace PathPolicy

namespace Text

/-! ## Blanks and case -/

theorem toList_lower {s : String} (h : ∀ c ∈ s.toList, c.toNat < 0x80) :
    (lower s).toList = s.toList.map Char.toLower := by
  have hchars : ∀ (cs before : List Char), (∀ c ∈ cs, c.toNat < 0x80) →
      lowerChars before cs = cs.map Char.toLower := by
    intro cs
    induction cs with
    | nil => exact fun _ _ => rfl
    | cons c rest ih =>
      intro before h
      obtain ⟨hc, hrest⟩ := List.forall_mem_cons.1 h
      have hsigma : c.toNat ≠ 0x3a3 := by omega
      rw [lowerChars, if_neg hsigma, lowerChar, if_pos hc, ih _ hrest]
      rfl
  unfold lower
  rw [String.toList_ofList, hchars _ _ h]

namespace Numeral

/-! ## Digits -/

/-- A character stands for a digit, in either case. -/
structure IsDigit (base d : Nat) (c : Char) : Prop where
  lt : d < base
  char : c = d.digitChar ∨ c = d.digitChar.toUpper

/-- Characters write a number: they are a digit, or write the number of all digits but the last. -/
inductive Writes (base : Nat) : Nat → List Char → Prop
  | digit {d : Nat} {c : Char} : IsDigit base d c → Writes base d [c]
  | concat {n d : Nat} {cs : List Char} {c : Char} :
      Writes base n cs → IsDigit base d c → Writes base (base * n + d) (cs ++ [c])

variable {base d n : Nat} {c : Char} {cs : List Char}

/-- What holds of all digits in both cases holds of a digit. -/
theorem IsDigit.of_forall {m : Nat} {P : Nat → Char → Prop} (h : IsDigit base d c)
    (hbase : base ≤ m) (hall : ∀ d < m, P d d.digitChar ∧ P d d.digitChar.toUpper) : P d c := by
  obtain ⟨hlower, hupper⟩ := hall d (lt_of_lt_of_le h.lt hbase)
  rcases h.char with rfl | rfl
  · exact hlower
  · exact hupper

theorem IsDigit.plain (h : IsDigit base d c) (hbase : base ≤ 16) :
    c.toNat < 0x80 ∧ isBlank c = false ∧ c ≠ '+' :=
  h.of_forall (P := fun _ c => c.toNat < 0x80 ∧ isBlank c = false ∧ c ≠ '+') hbase
    (by decide)

theorem IsDigit.toLower (h : IsDigit base d c) (hbase : base ≤ 16) : IsDigit base d c.toLower :=
  ⟨h.lt, .inl (h.of_forall (P := fun d c => c.toLower = d.digitChar) hbase (by decide))⟩

theorem digitValue?_eq_filter (hbase : base ≤ 16) (c : Char) :
    digitValue? base c = (digitValue? 16 c).filter (· < base) := by
  unfold digitValue?
  dsimp only
  rw [Option.filter_filter]
  congr 1
  funext d
  rw [Bool.eq_iff_iff, Bool.and_eq_true, decide_eq_true_eq, decide_eq_true_eq]
  omega

theorem IsDigit.value (h : IsDigit base d c) (hbase : base ≤ 16) : digitValue? base c = some d := by
  have hvalue := h.of_forall (P := fun d c => digitValue? 16 c = some d) hbase (by decide)
  rw [digitValue?_eq_filter hbase, hvalue, Option.filter_some, if_pos (decide_eq_true h.lt)]

theorem Writes.toLower (h : Writes base n cs) (hbase : base ≤ 16) :
    Writes base n (cs.map Char.toLower) := by
  induction h with
  | digit hd => exact .digit (hd.toLower hbase)
  | concat _ hd ih =>
    rw [List.map_append]
    exact ih.concat (hd.toLower hbase)

theorem Writes.exists_isDigit (h : Writes base n cs) : ∀ c ∈ cs, ∃ d, IsDigit base d c := by
  induction h with
  | digit hd =>
    intro c hc
    rw [List.mem_singleton.1 hc]
    exact ⟨_, hd⟩
  | concat _ hd ih =>
    intro c hc
    rcases List.mem_append.1 hc with hc | hc
    · exact ih c hc
    · rw [List.mem_singleton.1 hc]
      exact ⟨_, hd⟩

theorem Writes.exists_cons (h : Writes base n cs) :
    ∃ d c rest, IsDigit base d c ∧ cs = c :: rest := by
  have hne : cs ≠ [] := by
    cases h with
    | digit hd => exact List.cons_ne_nil _ _
    | concat _ _ => exact List.append_ne_nil_of_right_ne_nil _ (List.cons_ne_nil _ _)
  obtain ⟨c, rest, rfl⟩ := List.exists_cons_of_ne_nil hne
  obtain ⟨d, hd⟩ := h.exists_isDigit c List.mem_cons_self
  exact ⟨d, c, rest, hd, rfl⟩

theorem writes_toDigits (hbase : 1 < base) (n : Nat) : Writes base n (Nat.toDigits base n) := by
  induction n using Nat.strong_induction_on with
  | _ n ih =>
    rcases lt_or_ge n base with hlt | hge
    · rw [Nat.toDigits_of_lt_base hlt]
      exact .digit ⟨hlt, .inl rfl⟩
    · have hdiv : n / base < n := Nat.div_lt_self (by omega) hbase
      have hwrites := (ih _ hdiv).concat ⟨Nat.mod_lt n (by omega), .inl rfl⟩
      rw [Nat.toDigits_of_base_le hbase hge]
      rwa [Nat.div_add_mod] at hwrites

theorem head?_toDigits (hbase : 1 < base) (hbase' : base ≤ 16) (hn : 0 < n) :
    (Nat.toDigits base n).head? ≠ some '0' := by
  have hall : ∀ d < 16, 0 < d → some d.digitChar ≠ some '0' := by decide
  induction n using Nat.strong_induction_on with
  | _ n ih =>
    rcases lt_or_ge n base with hlt | hge
    · rw [Nat.toDigits_of_lt_base hlt]
      exact hall n (by omega) hn
    · have hfront := ih (n / base) (Nat.div_lt_self hn hbase) (Nat.div_pos hge (by omega))
      obtain ⟨_, c, rest, -, hcons⟩ := (writes_toDigits hbase (n / base)).exists_cons
      rw [Nat.toDigits_of_base_le hbase hge]
      rw [hcons] at hfront ⊢
      exact hfront

/-- Digits up to nine have no case. -/
theorem Writes.map_toLower (h : Writes base n cs) (hbase : base ≤ 10) :
    cs.map Char.toLower = cs := by
  rw [List.map_congr_left fun c hc => ?_, List.map_id]
  obtain ⟨d, hd⟩ := h.exists_isDigit c hc
  exact hd.of_forall (P := fun _ c => c.toLower = c) hbase (by decide)

theorem digits_append (value : Nat) (cs more : List Char) :
    digits base value (cs ++ more) =
      digits base value cs >>= fun read => digits base read more := by
  induction cs generalizing value with
  | nil => rfl
  | cons c rest ih =>
    simp only [List.cons_append, digits]
    split
    · rfl
    · split
      · exact ih _
      · rfl

theorem Writes.digits_eq (h : Writes base n cs) (hbase : base ≤ 16) (hn : n < 2 ^ 32) :
    digits base 0 cs = .ok n := by
  induction h with
  | digit hd =>
    have hlt := hd.lt
    rw [digits, hd.value hbase]
    dsimp only
    rw [if_pos (by omega)]
    simp [digits]
  | @concat n d cs c hcs hd ih =>
    have hle : n ≤ base * n := Nat.le_mul_of_pos_left n (Nat.zero_lt_of_lt hd.lt)
    rw [digits_append, ih (by omega)]
    show digits base n [c] = _
    rw [digits, hd.value hbase]
    dsimp only
    rw [if_pos (by omega)]
    rfl

theorem Writes.ofChars_eq (h : Writes base n cs) (hbase : base ≤ 16) (hn : n < 2 ^ 32) :
    ofChars base cs = .ok n := by
  obtain ⟨d, c, rest, hd, rfl⟩ := h.exists_cons
  have hplus : c ≠ '+' := (hd.plain hbase).2.2
  unfold ofChars
  split
  · contradiction
  · exact absurd (List.cons.inj ‹_›).1 hplus
  · exact absurd (List.cons.inj ‹_›).1 hplus
  · exact h.digits_eq hbase hn

end Numeral

end Text

/-! ## Numerals -/

namespace Attribute

open Text.Numeral (Writes)

/-- Characters write a number as the value of an attribute: in decimal without zeros before it, in
hexadecimal after `0x`, or in octal after `0`. -/
inductive Spells (n : Nat) : List Char → Prop
  | decimal {cs : List Char} : Writes 10 n cs → (cs.head? = some '0' → cs = ['0']) → Spells n cs
  | hexadecimal {cs : List Char} {x : Char} :
      Writes 16 n cs → x = 'x' ∨ x = 'X' → Spells n ('0' :: x :: cs)
  | octal {cs : List Char} : Writes 8 n cs → Spells n ('0' :: cs)

/-- A text that is a value of an attribute, with any blanks around it. -/
def IsNumeral (value : UInt32) (text : String) : Prop :=
  ∃ (before after : List Char) (core : String), text.toList = before ++ core.toList ++ after ∧
    (∀ c ∈ before, Text.isBlank c = true) ∧ (∀ c ∈ after, Text.isBlank c = true) ∧
      Spells value.toNat core.toList

variable {n : Nat} {cs : List Char}

theorem Spells.plain (h : Spells n cs) :
    ∀ c ∈ cs, c.toNat < 0x80 ∧ Text.isBlank c = false := by
  have hdigits : ∀ {base : Nat} {cs : List Char}, Writes base n cs → base ≤ 16 →
      ∀ c ∈ cs, c.toNat < 0x80 ∧ Text.isBlank c = false := by
    intro base cs h hbase c hc
    obtain ⟨d, hd⟩ := h.exists_isDigit c hc
    obtain ⟨hascii, hblank, -⟩ := hd.plain hbase
    exact ⟨hascii, hblank⟩
  cases h with
  | decimal hcs _ => exact hdigits hcs (by decide)
  | hexadecimal hcs hx =>
    refine List.forall_mem_cons.2 ⟨by decide, List.forall_mem_cons.2 ⟨?_, hdigits hcs (by decide)⟩⟩
    rcases hx with rfl | rfl <;> decide
  | octal hcs => exact List.forall_mem_cons.2 ⟨by decide, hdigits hcs (by decide)⟩

theorem Spells.parse_eq (h : Spells n cs) (hn : n < 2 ^ 32) {s : String}
    (hs : s.toList = cs.map Char.toLower) : parse s = .ok (UInt32.ofNat n) := by
  unfold parse
  rw [hs]
  cases h with
  | decimal hcs hzero =>
    have hread := congrArg (Except.map UInt32.ofNat) (hcs.ofChars_eq (by decide) hn)
    rw [hcs.map_toLower (by decide)]
    split
    · cases hzero rfl
    · cases hzero rfl
    · exact hread
  | @hexadecimal digits x hcs hx =>
    have hx' : x.toLower = 'x' := by rcases hx with rfl | rfl <;> rfl
    have hread := (hcs.toLower (by decide)).ofChars_eq (by decide) hn
    rw [List.map_cons, List.map_cons, hx']
    exact congrArg (Except.map UInt32.ofNat) hread
  | @octal digits hcs =>
    have hread := hcs.ofChars_eq (by decide) hn
    obtain ⟨d, c, rest, hd, rfl⟩ := hcs.exists_cons
    have hx : c ≠ 'x' := by
      rintro rfl
      have hvalue := hd.value (by decide)
      cases hvalue
    rw [List.map_cons, hcs.map_toLower (by decide)]
    split
    · rename_i heq
      obtain ⟨-, htail⟩ := List.cons.inj heq
      exact absurd (List.cons.inj htail).1 hx
    · rename_i heq
      obtain ⟨-, htail⟩ := List.cons.inj heq
      rw [← htail, hread]
      rfl
    · rename_i hnot
      exact absurd rfl (hnot c rest)

theorem IsNumeral.parse_eq {value : UInt32} {text : String} (h : IsNumeral value text) :
    parse (Text.lower (Text.trim text)) = .ok value := by
  obtain ⟨before, after, core, htext, hbefore, hafter, hcore⟩ := h
  have htrim : Text.trim text = core :=
    Text.trim_eq htext hbefore hafter fun c hc => (hcore.plain c hc).2
  rw [htrim, hcore.parse_eq value.toNat_lt (Text.toList_lower fun c hc => (hcore.plain c hc).1),
    UInt32.ofNat_toNat]

theorem isNumeral_repr (value : UInt32) : IsNumeral value value.toNat.repr := by
  refine ⟨[], [], value.toNat.repr, by simp, List.forall_mem_nil _, List.forall_mem_nil _, ?_⟩
  rw [Nat.toList_repr]
  refine .decimal (Text.Numeral.writes_toDigits (by decide) _) fun hhead => ?_
  rcases Nat.eq_zero_or_pos value.toNat with hzero | hpos
  · rw [hzero]
    rfl
  · exact absurd hhead (Text.Numeral.head?_toDigits (by decide) (by decide) hpos)

end Attribute

/-! ## The text of a value -/

namespace Protection

/-- A valid word has a text, which is the words that say it. -/
theorem Flags.exists_render {f : Flags} (hf : f.isValid = true) : ∃ text,
    renderValue f.bits.toUInt32 = .ok text ∧
      Text.ShellWords.split text = some (Column.wordsOf f.tokens) := by
  have hword : wordOfValue? f.bits.toUInt32 = some f := by
    unfold wordOfValue?
    rw [if_pos, UInt16.toUInt16_toUInt32]
    rw [UInt16.toNat_toUInt32]
    exact f.bits.toNat_lt
  refine ⟨" ".intercalate (Column.wordsOf f.tokens), ?_,
    Config.split_intercalate fun word hmem => Column.isPlain_of_mem_wordsOf hmem⟩
  unfold renderValue
  rw [hword]
  dsimp only
  unfold Flags.render
  rw [if_pos hf, Column.intercalate_wordsOf]

end Protection

namespace Loader

open Files (Path)
open Text.Numeral (Writes)

variable {l : Loader} {w : World} {submodule : String} {columns : List String}
  {file : Option Path} {support : Protection.Support} {value : UInt32}

/-- A value is told by a text that gives it again. -/
theorem attributeValue_again (h : l.attributeValue w support columns file = .ok value) :
    ∃ text, Protection.renderValue value = .ok text ∧
      l.attributeValue w support [text] file = .ok value := by
  obtain ⟨words, flags, -, -, hflags, rfl, hadmits⟩ := attributeValue_eq_ok.1 h
  obtain ⟨hvalid, havailable⟩ := Protection.Flags.parse_eq_ok hflags
  obtain ⟨text, hrender, hsplit⟩ := Protection.Flags.exists_render hvalid
  have hone : " ".intercalate [text] = text := String.intercalate_singleton
  have hne := Protection.Column.wordsOf_ne_nil (Protection.Flags.told_of_isValid hvalid).ne_nil
  exact ⟨text, hrender, attributeValue_eq_ok.2 ⟨_, flags, hone ▸ hsplit, hne,
    Protection.Flags.parse_wordsOf hvalid havailable, rfl, hadmits⟩⟩

theorem decodeAttribute_eq {numeral text : String} (h : Attribute.IsNumeral value numeral)
    (hrender : Protection.renderValue value = .ok text) :
    decodeAttribute "wxp" numeral = .ok text := by
  have hname : Submodule.ofAttribute? "wxp" = some .protection := by decide +kernel
  have hrender' : Submodule.protection.renderValue value = .ok text := hrender
  unfold decodeAttribute
  rw [hname]
  dsimp only
  rw [h.parse_eq]
  dsimp only
  rw [hrender']

/-- A value that was made of columns has one text, however the value is written, and the text as
the only column makes the value again. -/
theorem encodeAttribute_decode (l : Loader) (w : World) (columns : List String)
    (file : Option Path) (value : UInt32)
    (h : (w.run (l.encodeAttribute Protection.name columns file)).1 = .ok value) :
    ∃ text, (∀ numeral, Attribute.IsNumeral value numeral →
        decodeAttribute "wxp" numeral = .ok text) ∧
      (w.run (l.encodeAttribute Protection.name [text] file)).1 = .ok value := by
  rw [encodeAttribute_eq] at h
  simp only [encodeAttribute_eq]
  cases hrun : w.run (l.attributeSupport Protection.name) with
  | mk r w₁ =>
    rw [hrun] at h
    cases r with
    | error e => cases h
    | ok support =>
      obtain ⟨text, hrender, hagain⟩ := attributeValue_again h
      exact ⟨text, fun numeral hnumeral => decodeAttribute_eq hnumeral hrender, hagain⟩

/-- A value of the sample, written in each base. -/
theorem encodeAttribute_decode_sample :
    (sampleWorld.run (sampleLoader.encodeAttribute Protection.name ["full,", "'emutramp'"]
      none)).1 = .ok 335 ∧ ∃ text,
    (∀ numeral ∈ ["335", " 0X14f\n", "0517"], decodeAttribute "wxp" numeral = .ok text) ∧
      (sampleWorld.run (sampleLoader.encodeAttribute Protection.name [text] none)).1 = .ok 335 := by
  have hvalue : (sampleWorld.run (sampleLoader.encodeAttribute Protection.name
      ["full,", "'emutramp'"] none)).1.toOption = some 335 := by decide +kernel
  obtain ⟨w', hrun⟩ := World.run_of_toOption hvalue
  have hencode := congrArg Prod.fst hrun
  obtain ⟨text, hdecode, hagain⟩ := sampleLoader.encodeAttribute_decode sampleWorld
    ["full,", "'emutramp'"] none 335 hencode
  refine ⟨hencode, text, fun numeral hnumeral => hdecode numeral ?_, hagain⟩
  have hhexadecimal : Writes 16 (16 * (16 * 1 + 4) + 15) (['1'] ++ ['4'] ++ ['f']) :=
    .concat (.concat (.digit ⟨by decide, .inl rfl⟩) ⟨by decide, .inl rfl⟩) ⟨by decide, .inl rfl⟩
  have hoctal : Writes 8 (8 * (8 * 5 + 1) + 7) (['5'] ++ ['1'] ++ ['7']) :=
    .concat (.concat (.digit ⟨by decide, .inl rfl⟩) ⟨by decide, .inl rfl⟩) ⟨by decide, .inl rfl⟩
  simp only [List.mem_cons, List.not_mem_nil, or_false] at hnumeral
  rcases hnumeral with rfl | rfl | rfl
  · exact Attribute.isNumeral_repr 335
  · exact ⟨[' '], ['\n'], "0X14f", rfl, List.forall_mem_singleton.2 rfl,
      List.forall_mem_singleton.2 rfl, .hexadecimal hhexadecimal (.inr rfl)⟩
  · exact ⟨[], [], "0517", rfl, List.forall_mem_nil _, List.forall_mem_nil _, .octal hoctal⟩

end Loader

end PathPolicy
