import Mathlib.Data.List.Flatten
import PathPolicy.Config.Line

/-!
# Texts of rule lines

What the text of a list of lines tells about the lines: how many there are and what the text of each
of them is, as long as no word has a line feed (`map_text_eq_of_textOf_eq`). The words of lines that
were read have none, for they are made of the characters of one line of a text
(`isSingle_of_mem_read`). Lines whose words need no quotes are read back from their text
(`read_textOf`).
-/

namespace PathPolicy

/-! ## Words -/

namespace Text.ShellWords

/-- The characters that are kept for the current word. -/
def Mode.kept : Mode → List Char
  | .gap | .comment => []
  | .bare word | .escape word | .single word | .double word => word
  | .doubleEscape word => '\\' :: word

theorem mem_kept_bare {word : Part} {c d : Char} (h : d ∈ (bare word c).kept) :
    d ∈ c :: word := by
  unfold bare at h
  split at h
  · exact List.mem_cons_of_mem c h
  · split at h
    · exact List.mem_cons_of_mem c h
    · split at h
      · exact List.mem_cons_of_mem c h
      · exact h

/-- A step keeps nothing but what was kept and what it reads. -/
theorem mem_kept_step {mode : Mode} {c d : Char} (h : d ∈ (step mode c).2.kept) :
    d ∈ c :: mode.kept := by
  cases mode with
  | gap =>
    simp only [step] at h
    split at h
    · cases h
    · split at h
      · cases h
      · exact mem_kept_bare h
  | comment =>
    simp only [step] at h
    split at h <;> cases h
  | bare word =>
    simp only [step] at h
    split at h
    · cases h
    · exact mem_kept_bare h
  | escape word | single word =>
    simp only [step] at h
    split at h
    · exact List.mem_cons_of_mem c h
    · exact h
  | double word =>
    simp only [step] at h
    split at h
    · exact List.mem_cons_of_mem c h
    · split at h
      · rename_i hc
        rwa [hc]
      · exact h
  | doubleEscape word =>
    simp only [step] at h
    split at h
    · exact List.cons_subset_cons c (List.subset_cons_self _ _) h
    · split at h
      · exact List.mem_cons_of_mem c (List.mem_cons_of_mem _ h)
      · exact h

theorem step_ended {mode : Mode} {c : Char} {word : Part} (h : (step mode c).1 = some word) :
    word = mode.kept := by
  cases mode with
  | bare kept =>
    simp only [step] at h
    split at h
    · exact (Option.some.inj h).symm
    · cases h
  | _ => cases h

theorem finish_ended {mode : Mode} {word : Part} (h : finish mode = some (some word)) :
    word = mode.kept := by
  cases mode with
  | bare kept => exact (Option.some.inj (Option.some.inj h)).symm
  | _ => cases h

theorem mem_wordOf {part : Part} {d : Char} : d ∈ (wordOf part).toList ↔ d ∈ part := by
  simp [wordOf]

theorem scan_cons (done : List String) (mode : Mode) (c : Char) (rest : List Char) :
    scan done mode (c :: rest) =
      scan (((step mode c).1.map wordOf).toList ++ done) (step mode c).2 rest := rfl

/-- Words are made of what was kept and of what is read. -/
theorem mem_of_scan {done words : List String} {mode : Mode} {cs : List Char}
    (h : scan done mode cs = some words) {word : String} (hword : word ∈ words) :
    word ∈ done ∨ ∀ d ∈ word.toList, d ∈ mode.kept ++ cs := by
  induction cs generalizing done mode with
  | nil =>
    obtain ⟨last, hlast, rfl⟩ := Option.map_eq_some_iff.1 h
    rcases List.mem_append.1 (List.mem_reverse.1 hword) with hw | hw
    · cases last with
      | none => cases hw
      | some part =>
        obtain rfl := List.mem_singleton.1 hw
        rw [finish_ended hlast, List.append_nil]
        exact .inr fun d hd => mem_wordOf.1 hd
    · exact .inl hw
  | cons c rest ih =>
    rw [scan_cons] at h
    rcases ih h with hdone | hread
    · rcases List.mem_append.1 hdone with hw | hw
      · cases hended : (step mode c).1 with
        | none =>
          rw [hended] at hw
          cases hw
        | some part =>
          rw [hended] at hw
          obtain rfl := List.mem_singleton.1 hw
          rw [step_ended hended]
          exact .inr fun d hd => List.mem_append_left _ (mem_wordOf.1 hd)
      · exact .inl hw
    · refine .inr fun d hd => ?_
      have := hread d hd
      rw [List.mem_append] at this
      rw [List.mem_append, List.mem_cons]
      rcases this with hkept | hrest
      · rcases List.mem_cons.1 (mem_kept_step hkept) with rfl | hkept
        · exact .inr (.inl rfl)
        · exact .inl hkept
      · exact .inr (.inr hrest)

theorem mem_of_split {text : String} {words : List String} (h : split text = some words)
    {word : String} (hword : word ∈ words) {d : Char} (hd : d ∈ word.toList) : d ∈ text.toList :=
  (mem_of_scan h hword).elim (fun hnil => nomatch hnil) fun hread => hread d hd

/-! ### Words that stand for themselves -/

/-- A character that a word may have outside quotes. -/
def isOrdinary (c : Char) : Bool := !isSeparator c && c ≠ '\x22' && c ≠ '\x27' && c ≠ '\\'

/-- A word that is written without quotes. -/
structure IsPlain (word : String) : Prop where
  ne_nil : word.toList ≠ []
  head : word.toList.head? ≠ some '#'
  ordinary : ∀ c ∈ word.toList, isOrdinary c = true

theorem isSeparator_of_isOrdinary {c : Char} (h : isOrdinary c = true) : isSeparator c = false := by
  simp only [isOrdinary, Bool.and_eq_true, Bool.not_eq_true'] at h
  exact h.1.1.1

theorem bare_of_isOrdinary (part : Part) {c : Char} (h : isOrdinary c = true) :
    bare part c = .bare (c :: part) := by
  simp only [isOrdinary, Bool.and_eq_true, decide_eq_true_eq] at h
  obtain ⟨⟨⟨-, hdouble⟩, hsingle⟩, hescape⟩ := h
  simp [bare, hdouble, hsingle, hescape]

theorem scan_ordinary {cs : List Char} (h : ∀ c ∈ cs, isOrdinary c = true) (done : List String)
    (part : Part) (rest : List Char) :
    scan done (.bare part) (cs ++ rest) = scan done (.bare (cs.reverse ++ part)) rest := by
  induction cs generalizing part with
  | nil => rfl
  | cons c cs ih =>
    obtain ⟨hc, hcs⟩ := List.forall_mem_cons.1 h
    have hstep : step (.bare part) c = (none, .bare (c :: part)) := by
      simp [step, isSeparator_of_isOrdinary hc, bare_of_isOrdinary part hc]
    rw [List.cons_append, scan_cons, hstep]
    simpa using ih hcs (c :: part)

theorem scan_plain {word : String} (h : IsPlain word) (done : List String) (rest : List Char) :
    scan done .gap (word.toList ++ rest) = scan done (.bare word.toList.reverse) rest := by
  obtain ⟨c, cs, hword⟩ := List.exists_cons_of_ne_nil h.ne_nil
  have hhead := h.head
  have hordinary := h.ordinary
  rw [hword] at hhead hordinary ⊢
  obtain ⟨hc, hcs⟩ := List.forall_mem_cons.1 hordinary
  have hstep : step .gap c = (none, .bare [c]) := by
    have hcomment : c ≠ '#' := fun heq => hhead (congrArg some heq)
    simp [step, isSeparator_of_isOrdinary hc, hcomment, bare_of_isOrdinary [] hc]
  rw [List.cons_append, scan_cons, hstep]
  simpa using scan_ordinary hcs done [c] rest

theorem wordOf_reverse (word : String) : wordOf word.toList.reverse = word := by
  simp [wordOf]

/-- Plain words between single blanks are read back. -/
theorem scan_words {words : List String} (h : ∀ word ∈ words, IsPlain word) (done : List String)
    (word : String) :
    scan done (.bare word.toList.reverse) (words.flatMap fun word => ' ' :: word.toList) =
      some (done.reverse ++ word :: words) := by
  induction words generalizing done word with
  | nil => simp [scan, finish, wordOf_reverse]
  | cons next rest ih =>
    obtain ⟨hnext, hrest⟩ := List.forall_mem_cons.1 h
    have hstep : step (.bare word.toList.reverse) ' ' = (some word.toList.reverse, .gap) := rfl
    rw [List.flatMap_cons, List.cons_append, scan_cons, hstep]
    simp only [Option.map_some, Option.toList_some, List.singleton_append, wordOf_reverse]
    rw [scan_plain hnext, ih hrest]
    simp

end Text.ShellWords

namespace Text

theorem mem_of_mem_dropReturn {line : List Char} {c : Char} (h : c ∈ dropReturn line) :
    c ∈ line := by
  unfold dropReturn at h
  split at h
  · exact List.dropLast_subset line h
  · exact h

theorem lineFeed_notMem_linesFrom {line cs : List Char} (hline : '\n' ∉ line) :
    ∀ l ∈ linesFrom line cs, '\n' ∉ l := by
  induction cs generalizing line with
  | nil =>
    unfold linesFrom
    split
    · exact fun l hl => nomatch hl
    · intro l hl
      rw [List.mem_singleton.1 hl, List.mem_reverse]
      exact hline
  | cons c rest ih =>
    unfold linesFrom
    split
    · intro l hl
      rcases List.mem_cons.1 hl with rfl | hl
      · exact fun h => hline (List.mem_reverse.1 (mem_of_mem_dropReturn h))
      · exact ih List.not_mem_nil l hl
    · rename_i hc
      exact ih fun h => (List.mem_cons.1 h).elim (fun heq => hc heq.symm) hline

theorem linesFrom_append {a : List Char} (ha : '\n' ∉ a) (line rest : List Char) :
    linesFrom line (a ++ '\n' :: rest) = dropReturn (line.reverse ++ a) :: linesFrom [] rest := by
  induction a generalizing line with
  | nil => simp [linesFrom]
  | cons c a ih =>
    simp only [List.mem_cons, not_or] at ha
    rw [List.cons_append, linesFrom, if_neg (Ne.symm ha.1), ih ha.2]
    simp

theorem lineFeed_notMem_lines {s line : String} (h : line ∈ lines s) : '\n' ∉ line.toList := by
  obtain ⟨l, hl, rfl⟩ := List.mem_map.1 h
  rw [String.toList_ofList]
  exact lineFeed_notMem_linesFrom List.not_mem_nil l hl

theorem append_separator_inj {c : Char} {a b : List Char} (ha : c ∉ a) (hb : c ∉ b)
    {x y : List Char} (h : a ++ c :: x = b ++ c :: y) : a = b ∧ x = y := by
  induction a generalizing b with
  | nil =>
    cases b with
    | nil => exact ⟨rfl, (List.cons.inj h).2⟩
    | cons d b => exact absurd (List.cons.inj h).1 fun hd => hb (hd ▸ List.mem_cons_self)
  | cons d a ih =>
    cases b with
    | nil => exact absurd (List.cons.inj h).1 fun hd => ha (hd ▸ List.mem_cons_self)
    | cons e b =>
      obtain ⟨rfl, hrest⟩ := List.cons.inj h
      obtain ⟨rfl, rfl⟩ := ih (fun hc => ha (List.mem_cons_of_mem d hc))
        (fun hc => hb (List.mem_cons_of_mem d hc)) hrest
      exact ⟨rfl, rfl⟩

/-- A text of lines that hold no line feed tells the lines. -/
theorem map_eq_of_flatMap_eq {ι : Type} {line : ι → List Char} {xs ys : List ι}
    (hxs : ∀ x ∈ xs, '\n' ∉ line x) (hys : ∀ y ∈ ys, '\n' ∉ line y)
    (h : (xs.flatMap fun x => line x ++ ['\n']) = ys.flatMap fun y => line y ++ ['\n']) :
    xs.map line = ys.map line := by
  induction xs generalizing ys with
  | nil =>
    cases ys with
    | nil => rfl
    | cons y ys => simp at h
  | cons x xs ih =>
    cases ys with
    | nil => simp at h
    | cons y ys =>
      obtain ⟨hx, hxs⟩ := List.forall_mem_cons.1 hxs
      obtain ⟨hy, hys⟩ := List.forall_mem_cons.1 hys
      simp only [List.flatMap_cons, List.append_assoc, List.singleton_append] at h
      obtain ⟨hfirst, hmore⟩ := append_separator_inj hx hy h
      rw [List.map_cons, List.map_cons, hfirst, ih hxs hys hmore]

end Text

/-! ## Lines -/

namespace Config

/-- The words of a line stand on one line of a text. -/
def Line.IsSingle (line : Line) : Prop := ∀ word ∈ line.tokens, '\n' ∉ word.toList

theorem exists_of_mem_readFrom {source : String} {n : Nat} {raws : List String} {line : Line}
    (h : line ∈ (readFrom source n raws).lines) :
    ∃ raw ∈ raws, Text.ShellWords.split raw = some line.tokens := by
  induction raws generalizing n with
  | nil => cases h
  | cons raw rest ih =>
    have hlater : line ∈ (readFrom source (n + 1) rest).lines →
        ∃ a ∈ raw :: rest, Text.ShellWords.split a = some line.tokens := fun hline =>
      let ⟨a, ha, hsplit⟩ := ih hline
      ⟨a, List.mem_cons_of_mem raw ha, hsplit⟩
    unfold readFrom at h
    split at h
    · exact hlater h
    · exact hlater h
    · rename_i tokens _ hsplit
      rcases List.mem_cons.1 h with rfl | hline
      · exact ⟨raw, List.mem_cons_self, hsplit⟩
      · exact hlater hline

theorem isSingle_of_mem_read {source text : String} {line : Line}
    (h : line ∈ (read source text).lines) : line.IsSingle := by
  obtain ⟨raw, hraw, hsplit⟩ := exists_of_mem_readFrom h
  exact fun word hword hfeed =>
    Text.lineFeed_notMem_lines hraw (Text.ShellWords.mem_of_split hsplit hword hfeed)

theorem toList_textOf (lines : List Line) :
    (textOf lines).toList = lines.flatMap fun line => line.text.toList ++ ['\n'] := by
  have hfold : ∀ (lines : List Line) (text : String),
      (lines.foldl (fun text line => text ++ line.text ++ "\n") text).toList =
        text.toList ++ lines.flatMap fun line => line.text.toList ++ ['\n'] := by
    intro lines
    induction lines with
    | nil => intro text; simp
    | cons line rest ih =>
      intro text
      rw [List.foldl_cons, ih]
      simp
  exact hfold lines ""

theorem Line.toList_text_cons (location word : String) (columns : List String) :
    (⟨location, word :: columns⟩ : Line).text.toList =
      word.toList ++ columns.flatMap fun column => ' ' :: column.toList := by
  unfold Line.text
  induction columns generalizing word with
  | nil => simp
  | cons column rest ih => simp [ih]

theorem Line.IsSingle.lineFeed_notMem {line : Line} (h : line.IsSingle) :
    '\n' ∉ line.text.toList := by
  obtain ⟨location, tokens⟩ := line
  cases tokens with
  | nil => simp [Line.text]
  | cons word columns =>
    obtain ⟨hword, hcolumns⟩ := List.forall_mem_cons.1 h
    rw [Line.toList_text_cons, List.mem_append, List.mem_flatMap]
    rintro (hfeed | ⟨column, hcolumn, hfeed⟩)
    · exact hword hfeed
    · rcases List.mem_cons.1 hfeed with hblank | hfeed
      · cases hblank
      · exact hcolumns column hcolumn hfeed

/-- Single lines with one text have the same texts one by one. -/
theorem map_text_eq_of_textOf_eq {lines lines' : List Line}
    (hlines : ∀ line ∈ lines, line.IsSingle) (hlines' : ∀ line ∈ lines', line.IsSingle)
    (h : textOf lines = textOf lines') : lines.map Line.text = lines'.map Line.text := by
  have htext := congrArg String.toList h
  rw [toList_textOf, toList_textOf] at htext
  have hmap := Text.map_eq_of_flatMap_eq (fun line hline => (hlines line hline).lineFeed_notMem)
    (fun line hline => (hlines' line hline).lineFeed_notMem) htext
  have htexts := congrArg (List.map String.ofList) hmap
  simpa only [List.map_map, Function.comp_def, String.ofList_toList] using htexts

/-- Lines of which some were left out have another text. -/
theorem eq_of_sublist_of_textOf_eq {lines lines' : List Line} (hsub : lines.Sublist lines')
    (h : textOf lines = textOf lines') : lines = lines' := by
  have hlen := congrArg (fun text : String => text.toList.length) h
  simp only [toList_textOf] at hlen
  clear h
  induction hsub with
  | slnil => rfl
  | @cons rest rest' line hsub _ =>
    have hle := (List.Sublist.flatMap hsub fun line => line.text.toList ++ ['\n']).length_le
    simp only [List.flatMap_cons, List.length_append, List.length_singleton] at hlen
    omega
  | @cons_cons rest rest' line hsub ih =>
    simp only [List.flatMap_cons, List.length_append] at hlen
    rw [ih (by omega)]

/-! ### Reading a text back -/

theorem split_intercalate {words : List String}
    (h : ∀ word ∈ words, Text.ShellWords.IsPlain word) :
    Text.ShellWords.split (" ".intercalate words) = some words := by
  cases words with
  | nil => rfl
  | cons word columns =>
    obtain ⟨hword, hcolumns⟩ := List.forall_mem_cons.1 h
    have htext : (" ".intercalate (word :: columns)).toList =
        word.toList ++ columns.flatMap fun column => ' ' :: column.toList :=
      Line.toList_text_cons "" word columns
    unfold Text.ShellWords.split
    rw [htext, Text.ShellWords.scan_plain hword, Text.ShellWords.scan_words hcolumns]
    rfl

/-- A line that is read back from its text: its words are plain, and it does not end in a carriage
return. -/
structure Line.IsPlain (line : Line) : Prop where
  ne_nil : line.tokens ≠ []
  words : ∀ word ∈ line.tokens, Text.ShellWords.IsPlain word
  last : line.text.toList.getLast? ≠ some '\r'

namespace Line.IsPlain

variable {line : Line}

theorem isSingle (h : line.IsPlain) : line.IsSingle := by
  intro word hword hfeed
  have hordinary := (h.words word hword).ordinary '\n' hfeed
  cases hordinary

theorem split_text (h : line.IsPlain) : Text.ShellWords.split line.text = some line.tokens :=
  split_intercalate h.words

end Line.IsPlain

theorem lines_textOf {lines : List Line} (h : ∀ line ∈ lines, line.IsPlain) :
    Text.lines (textOf lines) = lines.map Line.text := by
  unfold Text.lines
  rw [toList_textOf]
  induction lines with
  | nil => rfl
  | cons line rest ih =>
    obtain ⟨hline, hrest⟩ := List.forall_mem_cons.1 h
    have hreturn : Text.dropReturn line.text.toList = line.text.toList := if_neg hline.last
    rw [List.flatMap_cons, List.append_assoc, List.singleton_append,
      Text.linesFrom_append hline.isSingle.lineFeed_notMem, List.reverse_nil, List.nil_append,
      hreturn, List.map_cons, ih hrest, String.ofList_toList, List.map_cons]

theorem readFrom_text {lines : List Line} (h : ∀ line ∈ lines, line.IsPlain) (source : String)
    (n : Nat) :
    (readFrom source n (lines.map Line.text)).broken = [] ∧
      (readFrom source n (lines.map Line.text)).lines.map (·.tokens) = lines.map (·.tokens) := by
  induction lines generalizing n with
  | nil => exact ⟨rfl, rfl⟩
  | cons line rest ih =>
    obtain ⟨hline, hrest⟩ := List.forall_mem_cons.1 h
    obtain ⟨hbroken, htokens⟩ := ih hrest (n + 1)
    obtain ⟨word, columns, hcons⟩ := List.exists_cons_of_ne_nil hline.ne_nil
    have hsplit := hline.split_text
    rw [hcons] at hsplit
    simp [readFrom, hsplit, hcons, hbroken, htokens]

/-- Plain lines are read back from their text. -/
theorem read_textOf {lines : List Line} (h : ∀ line ∈ lines, line.IsPlain) (source : String) :
    (read source (textOf lines)).broken = [] ∧
      (read source (textOf lines)).lines.map (·.tokens) = lines.map (·.tokens) := by
  unfold read
  rw [lines_textOf h]
  exact readFrom_text h source 1

end Config

end PathPolicy
