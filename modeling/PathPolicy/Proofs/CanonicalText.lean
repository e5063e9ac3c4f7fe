import PathPolicy.Proofs.Compilation
import PathPolicy.Proofs.RuleTexts
import PathPolicy.Text.Numeral

/-!
# The canonical text identifies a table

The canonical text has a line for each rule. A line feed stands at the end of a line only, the last
blank of a line stands before the value, and what is before the blank is read byte by byte: no
escaped byte is the beginning of another, and none begins with an asterisk. So the text determines
the rules, and the rules, sorted, determine the text. Everything that is made of a table is made of
its sorted rules, so it does not depend on the order in which the rules came either
(`RuleTable.render_eq_iff`).
-/

namespace PathPolicy.RuleTable

/-! ## Escaped bytes -/

/-- The byte that an escaped byte stands for. A backslash does not stand alone. -/
def unescape : List Char → Option Nat
  | ['\\', 't'] => some 0x09
  | ['\\', 'r'] => some 0x0d
  | ['\\', 'n'] => some 0x0a
  | ['\\', 'x', high, low] => (Text.Numeral.digits 16 0 [high, low]).toOption
  | ['\\', c] => if c = 'x' then none else some c.toNat
  | [c] => if c = '\\' then none else some c.toNat
  | _ => none

theorem unescape_escapeByte (b : UInt8) : unescape (escapeByte b) = some b.toNat := by
  have hall : ∀ n < 256, unescape (escapeByte (UInt8.ofNat n)) = some n := by decide +kernel
  have hb := hall b.toNat b.toNat_lt
  rwa [UInt8.ofNat_toNat] at hb

theorem escapeByte_inj {a b : UInt8} (h : escapeByte a = escapeByte b) : a = b := by
  apply UInt8.toNat.inj
  apply Option.some.inj
  rw [← unescape_escapeByte, ← unescape_escapeByte, h]

/-- How many characters the escaped byte takes that a text begins with: its first two tell. -/
def codeLength : List Char → Nat
  | [] => 1
  | c :: rest => if c ≠ '\\' then 1 else if rest.head? = some 'x' then 4 else 2

theorem codeLength_append {word : List Char} (h : codeLength word = word.length)
    (rest : List Char) : codeLength (word ++ rest) = word.length := by
  match word with
  | [] => cases h
  | [c] =>
    have hc : c ≠ '\\' := by
      rintro rfl
      cases h
    exact if_pos hc
  | _ :: _ :: _ => exact h

theorem codeLength_escapeByte (b : UInt8) : codeLength (escapeByte b) = (escapeByte b).length := by
  have hall : ∀ n < 256, codeLength (escapeByte (UInt8.ofNat n)) =
      (escapeByte (UInt8.ofNat n)).length := by decide +kernel
  have hb := hall b.toNat b.toNat_lt
  rwa [UInt8.ofNat_toNat] at hb

theorem escapeByte_append_inj {a b : UInt8} {x y : List Char}
    (h : escapeByte a ++ x = escapeByte b ++ y) : a = b ∧ x = y := by
  have hlen : (escapeByte a).length = (escapeByte b).length := by
    rw [← codeLength_append (codeLength_escapeByte a) x, h,
      codeLength_append (codeLength_escapeByte b) y]
  obtain ⟨hab, hxy⟩ := List.append_inj h hlen
  exact ⟨escapeByte_inj hab, hxy⟩

theorem escapeByte_eq_cons (b : UInt8) : ∃ c rest, escapeByte b = c :: rest ∧ c ≠ '*' := by
  have hall : ∀ n < 256, (escapeByte (UInt8.ofNat n)).head?.any (· ≠ '*') = true := by
    decide +kernel
  have hb := hall b.toNat b.toNat_lt
  rw [UInt8.ofNat_toNat] at hb
  cases hesc : escapeByte b with
  | nil =>
    rw [hesc] at hb
    cases hb
  | cons c rest =>
    rw [hesc] at hb
    exact ⟨c, rest, rfl, of_decide_eq_true hb⟩

theorem lineFeed_notMem_escapeByte (b : UInt8) : '\n' ∉ escapeByte b := by
  have hall : ∀ n < 256, '\n' ∉ escapeByte (UInt8.ofNat n) := by decide +kernel
  have hb := hall b.toNat b.toNat_lt
  rwa [UInt8.ofNat_toNat] at hb

/-! ## Lines -/

/-- What stands after the escaped pattern: an asterisk, if it is the beginning of a path. -/
def star (exact : Bool) : List Char := if exact then [] else ['*']

/-- No escaped pattern begins as an asterisk or the end of one does. -/
theorem star_ne (exact : Bool) (b : UInt8) (rest : List Char) :
    star exact ≠ escapeByte b ++ rest := by
  obtain ⟨c, more, hesc, hc⟩ := escapeByte_eq_cons b
  rw [hesc]
  cases exact with
  | true => exact nofun
  | false => exact fun h => hc (List.cons.inj h).1.symm

def written (p : Pattern) : List Char := p.bytes.flatMap escapeByte ++ star p.exact

theorem written_inj {p q : Pattern} (h : written p = written q) : p = q := by
  obtain ⟨a, e⟩ := p
  obtain ⟨b, f⟩ := q
  simp only [written] at h
  have hboth : a = b ∧ star e = star f := by
    induction a generalizing b with
    | nil =>
      cases b with
      | nil => exact ⟨rfl, h⟩
      | cons y ys =>
        rw [List.flatMap_cons, List.append_assoc] at h
        exact absurd h (star_ne e y _)
    | cons x xs ih =>
      cases b with
      | nil =>
        rw [List.flatMap_cons, List.append_assoc] at h
        exact absurd h.symm (star_ne f x _)
      | cons y ys =>
        rw [List.flatMap_cons, List.flatMap_cons, List.append_assoc, List.append_assoc] at h
        obtain ⟨rfl, hrest⟩ := escapeByte_append_inj h
        obtain ⟨rfl, hstar⟩ := ih ys hrest
        exact ⟨rfl, hstar⟩
  obtain ⟨rfl, hstar⟩ := hboth
  cases e <;> cases f
  · rfl
  · cases hstar
  · cases hstar
  · rfl

theorem not_digit_notMem_toDigits {c : Char} (hc : c.isDigit = false) (n : Nat) :
    c ∉ Nat.toDigits 10 n := by
  intro h
  have hdigit := Nat.isDigit_of_mem_toDigits (by decide) (by decide) h
  rw [hc] at hdigit
  cases hdigit

theorem toDigits_inj {m n : Nat} (h : Nat.toDigits 10 m = Nat.toDigits 10 n) : m = n := by
  rw [← Nat.ofDigitChars_ten_toDigits (n := m), h, Nat.ofDigitChars_ten_toDigits]

/-- The line of a rule without its line feed. -/
def bodyOf (r : Rule) : List Char := written r.pattern ++ ' ' :: Nat.toDigits 10 r.value.toNat

theorem lineOf_eq : lineOf = fun r => bodyOf r ++ ['\n'] := by
  funext r
  simp only [lineOf, bodyOf, written, star, List.append_assoc, List.cons_append, List.nil_append]

theorem lineFeed_notMem_bodyOf (r : Rule) : '\n' ∉ bodyOf r := by
  unfold bodyOf written
  simp only [List.mem_append, List.mem_cons, List.mem_flatMap, not_or, not_exists, not_and]
  refine ⟨⟨fun b _ => lineFeed_notMem_escapeByte b, ?_⟩, by decide,
    not_digit_notMem_toDigits (by decide) _⟩
  cases r.pattern.exact <;> decide

/-- The last blank of a line stands before the value, so the line determines the rule. -/
theorem bodyOf_inj {a b : Rule} (h : bodyOf a = bodyOf b) : a = b := by
  have hback := congrArg List.reverse h
  simp only [bodyOf, List.reverse_append, List.reverse_cons, List.append_assoc,
    List.singleton_append] at hback
  have hblank : ∀ r : Rule, ' ' ∉ (Nat.toDigits 10 r.value.toNat).reverse := fun r hr =>
    not_digit_notMem_toDigits (by decide) _ (List.mem_reverse.1 hr)
  obtain ⟨hvalue, hpattern⟩ := Text.append_separator_inj (hblank a) (hblank b) hback
  have hpat : a.pattern = b.pattern := written_inj (List.reverse_injective hpattern)
  have hval : a.value = b.value :=
    UInt32.toNat.inj (toDigits_inj (List.reverse_injective hvalue))
  cases a
  cases b
  simp_all

theorem sorted_eq_of_render_eq {t u : RuleTable} (h : t.render = u.render) :
    t.sorted = u.sorted := by
  have htext := String.ofList_injective h
  rw [lineOf_eq] at htext
  have hlines := Text.map_eq_of_flatMap_eq (fun r _ => lineFeed_notMem_bodyOf r)
    (fun r _ => lineFeed_notMem_bodyOf r) htext
  exact List.map_injective_iff.2 (fun _ _ => bodyOf_inj) hlines

/-! ## Tables with the same rules -/

section SameRules

variable {t u : RuleTable}

/-- The order in which the rules came does not matter once they are sorted. -/
theorem sorted_eq_iff : t.sorted = u.sorted ↔ ∀ r, r ∈ t.rules ↔ r ∈ u.rules := by
  constructor
  · intro h r
    rw [← t.mem_sorted, h, u.mem_sorted]
  · intro h
    refine eq_of_find?_eq Rule.pattern (t.pairwise_sorted.and t.pairwise_sorted_ne)
      (u.pairwise_sorted.and u.pairwise_sorted_ne) fun p => ?_
    ext r
    rw [find?_key_iff Rule.pattern t.pairwise_sorted_ne,
      find?_key_iff Rule.pattern u.pairwise_sorted_ne, t.mem_sorted, u.mem_sorted, h]

theorem ofTable_eq_of_sorted_eq (h : t.sorted = u.sorted) :
    Automaton.ofTable t = Automaton.ofTable u := by
  rw [Automaton.ofTable, h, Automaton.ofTable]

theorem compile?_eq_of_sorted_eq (h : t.sorted = u.sorted) : t.compile? = u.compile? := by
  rw [compile?, compile?, raw?, raw?, ofTable_eq_of_sorted_eq h]

theorem digest_eq_of_sorted_eq (h : t.sorted = u.sorted) : t.digest = u.digest := by
  rw [digest, digest, render, render, h]

end SameRules

/-- The binary form of a compiled table, under the digest of its canonical text. -/
def blob? (t : RuleTable) : Option Bytes := t.compile?.map fun c => c.tables.encode t.digest

/-- Two tables have the same canonical text just if they hold the same rules, in whatever order the
rules came. Then they have the same automaton, and compile to the same tables and the same binary
form. -/
theorem render_eq_iff (t u : RuleTable) :
    (t.render = u.render ↔ ∀ r, r ∈ t.rules ↔ r ∈ u.rules) ∧
      ((∀ r, r ∈ t.rules ↔ r ∈ u.rules) →
        Automaton.ofTable t = Automaton.ofTable u ∧ t.compile? = u.compile? ∧
          t.blob? = u.blob?) := by
  refine ⟨⟨fun h => sorted_eq_iff.1 (sorted_eq_of_render_eq h), fun h => ?_⟩, fun h => ?_⟩
  · rw [render, sorted_eq_iff.2 h, render]
  · have hsorted := sorted_eq_iff.2 h
    refine ⟨ofTable_eq_of_sorted_eq hsorted, compile?_eq_of_sorted_eq hsorted, ?_⟩
    rw [blob?, compile?_eq_of_sorted_eq hsorted, digest_eq_of_sorted_eq hsorted, blob?]

/-- The rules of `nested` in the opposite order. -/
def nestedReversed : RuleTable := ofList nested.rules.reverse

theorem render_eq_iff_nested :
    (∀ r, r ∈ nested.rules ↔ r ∈ nestedReversed.rules) ∧ nested.render = nestedReversed.render ∧
      nested.blob? = nestedReversed.blob? := by
  have hsame : ∀ r, r ∈ nested.rules ↔ r ∈ nestedReversed.rules := by
    have hrules : nestedReversed.rules = nested.rules.reverse := by decide
    intro r
    rw [hrules, List.mem_reverse]
  exact ⟨hsame, (render_eq_iff nested nestedReversed).1.2 hsame,
    ((render_eq_iff nested nestedReversed).2 hsame).2.2⟩

end PathPolicy.RuleTable
