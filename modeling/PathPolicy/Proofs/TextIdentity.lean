import PathPolicy.Proofs.Acceptance
import PathPolicy.Proofs.RuleTexts

/-!
# What the text of a policy tells

The text of a policy, and so its digest, has the words of each accepted line between single blanks.
What it does not tell is where the first word of a line ends, for a word may have blanks of its own.
That is all it does not tell: with the first words, it determines the binary form of the policy
(`compile_text_identifies`). The columns do not matter one by one, since they are read without
blanks.
-/

namespace PathPolicy

/-! ## First words -/

namespace Config

/-- The first word of a line ends where the first blank of its text is. -/
def Line.IsSeparable (line : Line) : Prop :=
  ∀ word, line.tokens.head? = some word → ' ' ∉ word.toList

theorem Line.IsSeparable.takeWhile_text {line : Line} (h : line.IsSeparable) {word : String}
    (hword : line.tokens.head? = some word) :
    line.text.toList.takeWhile (· ≠ ' ') = word.toList := by
  obtain ⟨location, tokens⟩ := line
  cases tokens with
  | nil => cases hword
  | cons first columns =>
    obtain rfl := Option.some.inj hword
    have hplain : ∀ c ∈ first.toList, decide (c ≠ ' ') = true := by
      intro c hc
      simp only [decide_eq_true_eq]
      rintro rfl
      exact h first rfl hc
    rw [Line.toList_text_cons, List.takeWhile_append_of_pos hplain]
    cases columns <;> simp

end Config

namespace Protection

open Config (Line)

/-! ## Columns -/

namespace Column

/-- Columns are read as what is written of them in the text of a line. -/
theorem normalize_eq (columns : List String) :
    normalize columns = ((columns.flatMap fun column => ' ' :: column.toList).filter
      fun c => !Text.isBlank c).flatMap Text.upperChar := by
  have hblank : Text.isBlank ' ' = true := rfl
  unfold normalize
  congr 1
  induction columns with
  | nil => rfl
  | cons column rest ih => simp [List.filter_append, hblank, ih]

end Column

theorem Flags.parse_congr {columns columns' : List String}
    (h : Column.normalize columns = Column.normalize columns') (support : Support) :
    Flags.parse columns support = Flags.parse columns' support := by
  unfold Flags.parse Column.tokenize
  rw [h]

namespace Reader

variable {r : Reader}

theorem read_congr {line line' : Line} (htext : line.text = line'.text)
    (hhead : line.tokens.head? = line'.tokens.head?) :
    r.read line.tokens = r.read line'.tokens := by
  obtain ⟨location, tokens⟩ := line
  obtain ⟨location', tokens'⟩ := line'
  cases tokens with
  | nil =>
    cases tokens' with
    | nil => rfl
    | cons word' columns' => cases hhead
  | cons word columns =>
    cases tokens' with
    | nil => cases hhead
    | cons word' columns' =>
      obtain rfl := Option.some.inj hhead
      have hcolumns := congrArg String.toList htext
      rw [Line.toList_text_cons, Line.toList_text_cons, List.append_cancel_left_eq] at hcolumns
      have hparse : ∀ support, Flags.parse columns support = Flags.parse columns' support := by
        refine Flags.parse_congr ?_
        rw [Column.normalize_eq, Column.normalize_eq, hcolumns]
      cases columns with
      | nil =>
        cases columns' with
        | nil => rfl
        | cons column' more' => cases hcolumns
      | cons column more =>
        cases columns' with
        | nil => cases hcolumns
        | cons column' more' =>
          unfold read readText
          simp only [hparse]

theorem gives_of_text {lines lines' : List Line}
    (h : (r.accepted lines).map (fun line => (line.text, line.tokens.head?)) =
      (r.accepted lines').map fun line => (line.text, line.tokens.head?)) (rule : Rule) :
    r.Gives lines rule ↔ r.Gives lines' rule := by
  unfold Gives
  generalize r.accepted lines = a at h
  generalize r.accepted lines' = b at h
  induction a generalizing b with
  | nil =>
    cases b with
    | nil => rfl
    | cons line' rest' => cases h
  | cons line rest ih =>
    cases b with
    | nil => cases h
    | cons line' rest' =>
      obtain ⟨hline, hrest⟩ := List.cons.inj h
      obtain ⟨htext, hhead⟩ := Prod.mk.inj hline
      by_cases hw : line.tokens.head? = some rule.written
      · have hw' : line'.tokens.head? = some rule.written := hhead ▸ hw
        simp [hw, hw', read_congr htext hhead]
      · have hw' : ¬ line'.tokens.head? = some rule.written := hhead ▸ hw
        simpa [hw, hw'] using ih rest' hrest

theorem map_head?_eq {lines lines' : List Line}
    (hlines : ∀ line ∈ r.accepted lines, line.IsSeparable)
    (hlines' : ∀ line ∈ r.accepted lines', line.IsSeparable)
    (h : (r.accepted lines).map Line.text = (r.accepted lines').map Line.text) :
    (r.accepted lines).map (·.tokens.head?) = (r.accepted lines').map (·.tokens.head?) := by
  have hhead : ∀ {lines : List Line}, (∀ line ∈ r.accepted lines, line.IsSeparable) →
      (r.accepted lines).map (·.tokens.head?) = ((r.accepted lines).map Line.text).map fun text =>
        some (String.ofList (text.toList.takeWhile (· ≠ ' '))) := by
    intro lines hlines
    rw [List.map_map]
    refine List.map_congr_left fun line hline => ?_
    obtain ⟨word, hword⟩ := head?_of_mem_accepted hline
    rw [Function.comp_apply, (hlines line hline).takeWhile_text hword, String.ofList_toList, hword]
  rw [hhead hlines, hhead hlines', h]

end Reader

/-! ## Policies with one text -/

section Policies

variable {lines lines' : List Line} {ctx : Context} {p p' : Policy}

theorem digest_eq_of_text (hp : (compile lines ctx).result = .ok p)
    (hp' : (compile lines' ctx).result = .ok p') (htext : p.text = p'.text) :
    p.digest = p'.digest := by
  obtain ⟨d, -, rfl⟩ := draft_of_compile hp
  obtain ⟨d', -, rfl⟩ := draft_of_compile hp'
  exact congrArg Digest.ofText htext

theorem map_text_of_compile (hlines : ∀ line ∈ lines, line.IsSingle)
    (hlines' : ∀ line ∈ lines', line.IsSingle) (hp : (compile lines ctx).result = .ok p)
    (hp' : (compile lines' ctx).result = .ok p') (htext : p.text = p'.text) :
    ((Reader.ofContext ctx).accepted lines).map Line.text =
      ((Reader.ofContext ctx).accepted lines').map Line.text := by
  obtain ⟨d, -, rfl⟩ := draft_of_compile hp
  obtain ⟨d', -, rfl⟩ := draft_of_compile hp'
  refine Config.map_text_eq_of_textOf_eq (fun line hline => ?_) (fun line hline => ?_) htext
  · exact hlines line ((Reader.acceptedAfter_sublist [] lines).subset hline)
  · exact hlines' line ((Reader.acceptedAfter_sublist [] lines').subset hline)

/-- The first words are all that the text of a policy does not tell of its binary form. -/
theorem binary_eq_of_text (hp : (compile lines ctx).result = .ok p)
    (hp' : (compile lines' ctx).result = .ok p') (htext : p.text = p'.text)
    (htexts : ((Reader.ofContext ctx).accepted lines).map Line.text =
      ((Reader.ofContext ctx).accepted lines').map Line.text)
    (hheads : ((Reader.ofContext ctx).accepted lines).map (·.tokens.head?) =
      ((Reader.ofContext ctx).accepted lines').map (·.tokens.head?)) :
    p.binary = p'.binary := by
  refine (binary_eq_iff hp hp').2 ⟨digest_eq_of_text hp hp' htext, Reader.gives_of_text ?_⟩
  rw [← List.zip_map', ← List.zip_map', htexts, hheads]

end Policies

/-- Policies of rule texts with the same text have the same binary form iff their lines give the
same rules. They have so many accepted lines with the same texts one by one, and the same binary
form if these lines have the same first words, in particular if no first word has a blank. -/
theorem compile_text_identifies {ctx : Context} {source source' text text' : String} {p p' : Policy}
    (hp : (compile (Config.read source text).lines ctx).result = .ok p)
    (hp' : (compile (Config.read source' text').lines ctx).result = .ok p')
    (htext : p.text = p'.text) :
    let r := Reader.ofContext ctx
    let accepted := r.accepted (Config.read source text).lines
    let accepted' := r.accepted (Config.read source' text').lines
    accepted.map Line.text = accepted'.map Line.text ∧
      (p.binary = p'.binary ↔ ∀ rule, r.Gives (Config.read source text).lines rule ↔
        r.Gives (Config.read source' text').lines rule) ∧
      (accepted.map (·.tokens.head?) = accepted'.map (·.tokens.head?) → p.binary = p'.binary) ∧
      ((∀ line ∈ accepted, line.IsSeparable) → (∀ line ∈ accepted', line.IsSeparable) →
        p.binary = p'.binary) := by
  have htexts := map_text_of_compile (fun _ => Config.isSingle_of_mem_read)
    (fun _ => Config.isSingle_of_mem_read) hp hp' htext
  have hbinary := binary_eq_of_text hp hp' htext htexts
  have hdigest := digest_eq_of_text hp hp' htext
  refine ⟨htexts, (binary_eq_iff hp hp').trans (and_iff_right hdigest), hbinary, ?_⟩
  exact fun hsep hsep' => hbinary (Reader.map_head?_eq hsep hsep' htexts)

/-- A program whose heap and stack are protected. -/
def plainText : String := "/a HEAP, STACK\n"

/-- Another program, with a blank in its name, whose stack is protected. -/
def quotedText : String := "'/a HEAP,' STACK\n"

/-- The first program with its columns in quotes. -/
def quotedColumns : String := "/a 'HEAP, STACK'\n"

/-- The text of a policy alone does not tell its binary form. -/
theorem quotedText_not_identified :
    ∃ p p', (compile (Config.read name plainText).lines sampleContext).result = .ok p ∧
      (compile (Config.read name quotedText).lines sampleContext).result = .ok p' ∧
      p.text = p'.text ∧ p.binary ≠ p'.binary := by
  obtain ⟨p, hp, htext, -⟩ :=
    @compile_lenient (Config.read name plainText).lines sampleContext rfl
  obtain ⟨p', hp', htext', -⟩ :=
    @compile_lenient (Config.read name quotedText).lines sampleContext rfl
  refine ⟨p, p', hp, hp', ?_, fun hbinary => ?_⟩
  · rw [htext, htext']
    decide +kernel
  · obtain ⟨-, hgives⟩ := (binary_eq_iff hp hp').1 hbinary
    obtain ⟨line, hfind, -⟩ := (hgives ⟨"/a HEAP,", ⟨0x000a⟩, true⟩).2
      ⟨⟨"wxprot:1", ["/a HEAP,", "STACK"]⟩, by decide +kernel, by decide +kernel⟩
    have hnone : ((Reader.ofContext sampleContext).accepted
        (Config.read name plainText).lines).find? (fun a => a.tokens.head? = some "/a HEAP,") =
          none := by decide +kernel
    cases hfind.symm.trans hnone

theorem compile_text_identifies_sample :
    ∃ p p', (compile (Config.read name plainText).lines sampleContext).result = .ok p ∧
      (compile (Config.read name quotedColumns).lines sampleContext).result = .ok p' ∧
      p.text = p'.text ∧ p.binary = p'.binary := by
  obtain ⟨p, hp, htext, -⟩ :=
    @compile_lenient (Config.read name plainText).lines sampleContext rfl
  obtain ⟨p', hp', htext', -⟩ :=
    @compile_lenient (Config.read name quotedColumns).lines sampleContext rfl
  have hsame : p.text = p'.text := by
    rw [htext, htext']
    decide +kernel
  obtain ⟨-, -, hheads, -⟩ := compile_text_identifies hp hp' hsame
  exact ⟨p, p', hp, hp', hsame, hheads (by decide +kernel)⟩

end Protection

end PathPolicy
