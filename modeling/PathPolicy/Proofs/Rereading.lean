import PathPolicy.Proofs.Acceptance
import PathPolicy.Proofs.Columns
import PathPolicy.Proofs.RuleTexts

/-!
# Policies are read again

The binary form of a policy is turned into lines, one for each record, and these are written as a
text. A reader that refuses nothing of what was accepted gets the same records from this text, so
that its policy is turned into the same lines (`compile_reread`). What is needed is that the paths
are written without quotes, since the text has none.
-/

namespace PathPolicy

open Config (Line)
open Text.ShellWords (IsPlain isOrdinary)

/-! ## Policies that are taken -/

/-- The kernel takes a policy, and finds its digest in it. -/
def Policy.IsTaken (p : Policy) : Prop :=
  ∃ rules, Protection.Blob.decode p.binary = .ok (p.digest, rules)

theorem Protection.Blob.head?_of_decode {b : Bytes} {x : Digest × List Rule}
    (h : decode b = .ok x) : b.head? = some 0x53 := by
  unfold decode at h
  cases hmagic : magic.isPrefixOf b with
  | false => simp [hmagic, bind, Except.bind, throw, throwThe, MonadExceptOf.throw] at h
  | true =>
    obtain ⟨rest, rfl⟩ := List.isPrefixOf_iff_prefix.1 hmagic
    rfl

theorem Policy.IsTaken.head? {p : Policy} (h : p.IsTaken) : p.binary.head? = some 0x53 :=
  Protection.Blob.head?_of_decode h.choose_spec

theorem Policy.IsTaken.head?_ne {p : Policy} (h : p.IsTaken) : p.binary.head? ≠ some 0x7f := by
  simp [h.head?]

namespace Protection

theorem isTaken_of_compile {lines : List Line} {ctx : Context} {p : Policy}
    (hp : (compile lines ctx).result = .ok p) (hlen : lines.length < 2 ^ 32) : p.IsTaken := by
  obtain ⟨d, hd, rfl⟩ := draft_of_compile hp
  exact ⟨_, hd.decode_eq_ok hlen _⟩

/-! ## The lines of rules -/

namespace Rule

def line (r : Rule) : Line := ⟨"", [r.written, ", ".intercalate (r.flags.tokens.map Token.name)]⟩

/-- The line of a rule after it has been read from its text, where a column is cut at its blanks. -/
def reread (r : Rule) : Line := ⟨"", r.written :: Column.wordsOf r.flags.tokens⟩

variable {r : Rule}

theorem lineOf_eq (h : r.flags.isValid = true) : lineOf r = .ok r.line := by
  unfold lineOf Flags.render
  rw [if_pos h]
  rfl

theorem wordsOf_ne_nil (h : r.flags.isValid = true) : Column.wordsOf r.flags.tokens ≠ [] :=
  Column.wordsOf_ne_nil (Flags.told_of_isValid h).ne_nil

theorem text_reread (h : r.flags.isValid = true) : r.reread.text = r.line.text := by
  unfold Line.text reread line
  rw [String.intercalate_cons_of_ne_nil (wordsOf_ne_nil h), Column.intercalate_wordsOf]
  simp

end Rule

theorem mapM_lineOf {rules : List Rule} (h : ∀ r ∈ rules, r.flags.isValid = true) :
    rules.mapM lineOf = .ok (rules.map Rule.line) := by
  induction rules with
  | nil => rfl
  | cons r rest ih =>
    obtain ⟨hr, hrest⟩ := List.forall_mem_cons.1 h
    rw [List.mapM_cons, Rule.lineOf_eq hr, ih hrest]
    rfl

/-- A binary form is turned into the lines of its records. -/
theorem decompile_eq {binary : Bytes} {d : Digest} {rules : List Rule}
    (hdecode : Blob.decode binary = .ok (d, rules)) (h : ∀ r ∈ rules, r.flags.isValid = true) :
    decompile binary = .ok (rules.map Rule.line) := by
  unfold decompile
  rw [hdecode]
  exact mapM_lineOf h

/-! ## Plain lines -/

theorem Token.isPlain_name (t : Token) : IsPlain t.name where
  ne_nil := t.name_ne_nil
  head := by cases t <;> decide +kernel
  ordinary := List.all_eq_true.1 (by cases t <;> decide +kernel)

theorem Token.isPlain_name_comma (t : Token) : IsPlain (t.name ++ ",") where
  ne_nil := by simp
  head := by cases t <;> decide +kernel
  ordinary := List.all_eq_true.1 (by cases t <;> decide +kernel)

theorem Token.return_notMem_name (t : Token) : '\r' ∉ t.name.toList := by
  cases t <;> decide +kernel

namespace Column

theorem exists_of_mem_wordsOf {ts : List Token} {word : String} (h : word ∈ wordsOf ts) :
    ∃ t : Token, word = t.name ∨ word = t.name ++ "," := by
  induction ts with
  | nil => cases h
  | cons t rest ih =>
    cases rest with
    | nil => exact ⟨t, .inl (List.mem_singleton.1 h)⟩
    | cons u more =>
      rcases List.mem_cons.1 h with rfl | h
      · exact ⟨t, .inr rfl⟩
      · exact ih h

theorem isPlain_of_mem_wordsOf {ts : List Token} {word : String} (h : word ∈ wordsOf ts) :
    IsPlain word := by
  obtain ⟨t, rfl | rfl⟩ := exists_of_mem_wordsOf h
  · exact t.isPlain_name
  · exact t.isPlain_name_comma

theorem return_notMem_of_mem_wordsOf {ts : List Token} {word : String} (h : word ∈ wordsOf ts) :
    '\r' ∉ word.toList := by
  obtain ⟨t, rfl | rfl⟩ := exists_of_mem_wordsOf h
  · exact t.return_notMem_name
  · simpa using t.return_notMem_name

end Column

theorem Rule.isPlain_reread {r : Rule} (h : r.flags.isValid = true) (hword : IsPlain r.written) :
    r.reread.IsPlain where
  ne_nil := List.cons_ne_nil _ _
  words := List.forall_mem_cons.2 ⟨hword, fun _ hmem => Column.isPlain_of_mem_wordsOf hmem⟩
  last := by
    have hne := wordsOf_ne_nil h
    unfold reread
    rw [Line.toList_text_cons]
    intro hlast
    -- The last character is one of the columns.
    have hcolumns : (Column.wordsOf r.flags.tokens).flatMap
        (fun column => ' ' :: column.toList) ≠ [] := by
      obtain ⟨column, more, hcons⟩ := List.exists_cons_of_ne_nil hne
      simp [hcons]
    rw [List.getLast?_append_of_ne_nil _ hcolumns] at hlast
    obtain ⟨column, hcolumn, hmem⟩ := List.mem_flatMap.1 (List.mem_of_getLast? hlast)
    rcases List.mem_cons.1 hmem with hblank | hmem
    · cases hblank
    · exact Column.return_notMem_of_mem_wordsOf hcolumn hmem

/-- A rule that was read has an absolute path, or is the one for all paths; so its first word is
plain if no character of it is special. -/
theorem Reader.Reads.isPlain_written {r : Reader} {tokens : List String} {rule : Rule}
    (h : r.Reads tokens rule) (ha : r.absolutePaths = true)
    (hword : ∀ c ∈ rule.written.toList, isOrdinary c = true) : IsPlain rule.written := by
  have hhead : rule.written.toList.head? = some '/' ∨ rule.written.toList.head? = some '*' := by
    unfold Rule.written
    rcases h.absolute ha with hslash | ⟨hempty, hexact⟩
    · left
      obtain ⟨rest, hpath⟩ : ∃ rest, rule.path.toList = '/' :: rest :=
        ⟨_, List.eq_cons_of_mem_head? hslash⟩
      split <;> simp [hpath]
    · right
      simp [hempty, hexact]
  refine ⟨fun hnil => ?_, fun hcomment => ?_, hword⟩
  · rw [hnil] at hhead
    rcases hhead with hhead | hhead <;> cases hhead
  · rw [hcomment] at hhead
    rcases hhead with hhead | hhead <;> cases hhead

/-! ## Readers that allow as much -/

namespace Reader

/-- A reader refuses nothing that another one reads: it has trampolines if the other one has them,
and knows no more about images. -/
structure Allows (r' r : Reader) : Prop where
  absolutePaths : r'.absolutePaths = r.absolutePaths
  available : r.support.available = true → r'.support.available = true
  traits : ∀ path, (r'.inspector path).traits? = none ∨
    (r'.inspector path).traits? = (r.inspector path).traits?

theorem Allows.refl (r : Reader) : r.Allows r := ⟨rfl, id, fun _ => .inr rfl⟩

theorem Allows.checkImage {r' r : Reader} (h : r'.Allows r) {path : String} {flags : Flags}
    (hcheck : checkImage r.inspector path flags = .ok ()) :
    checkImage r'.inspector path flags = .ok () := by
  rcases h.traits path with hnone | hsame
  · exact checkImage_of_unknown hnone flags
  · rw [checkImage_congr hsame]
    exact hcheck

theorem Allows.read_reread {r' r : Reader} (h : r'.Allows r) {tokens : List String} {rule : Rule}
    (hread : r.read tokens = .ok rule) : r'.read rule.reread.tokens = .ok rule := by
  obtain ⟨htext, himage⟩ := read_eq_ok.1 hread
  have hreads := reads_of_readText htext
  cases tokens with
  | nil => cases htext
  | cons word columns =>
    obtain ⟨-, hsplit, hsize, habsolute, hflags⟩ := readText_cons_eq_ok.1 htext
    obtain ⟨hvalid, htramp⟩ := Flags.parse_eq_ok hflags
    obtain rfl : word = rule.written := Option.some.inj hreads.head
    refine read_eq_ok.2 ⟨readText_cons_eq_ok.2 ⟨Rule.wordsOf_ne_nil hvalid, hsplit, hsize, ?_, ?_⟩,
      fun hexact => h.checkImage (himage hexact)⟩
    · rwa [h.absolutePaths]
    · exact Flags.parse_wordsOf hvalid fun hem => h.available (htramp hem)

theorem acceptedAfter_of_isRule {r : Reader} {before lines : List Line}
    (h : ∀ line ∈ lines, r.isRule line = true) : r.acceptedAfter before lines = lines := by
  induction lines generalizing before with
  | nil => rfl
  | cons line rest ih =>
    obtain ⟨hline, hrest⟩ := List.forall_mem_cons.1 h
    rw [acceptedAfter, if_pos (accepts_iff.2 (.inr hline)), ih hrest]

/-- Lines that are read as rules with different patterns give these rules. -/
theorem gives_of_read {r : Reader} {lines : List Line} {rules : List Rule}
    (hread : lines.map (fun line => r.read line.tokens) = rules.map .ok)
    (hne : rules.Pairwise fun a b => a.written ≠ b.written) (haccepted : r.accepted lines = lines)
    {rule : Rule} : r.Gives lines rule ↔ rule ∈ rules := by
  have hrule : ∀ {line}, line ∈ lines → ∃ a ∈ rules, r.read line.tokens = .ok a := by
    intro line hline
    have hmem := List.mem_map_of_mem (f := fun line : Line => r.read line.tokens) hline
    rw [hread] at hmem
    obtain ⟨a, ha, heq⟩ := List.mem_map.1 hmem
    exact ⟨a, ha, heq.symm⟩
  unfold Gives
  rw [haccepted]
  constructor
  · rintro ⟨line, hfind, hline⟩
    obtain ⟨a, ha, hla⟩ := hrule (List.mem_of_find?_eq_some hfind)
    rw [hline] at hla
    exact Except.ok.inj hla ▸ ha
  · intro hmem
    have hok : Except.ok rule ∈ lines.map fun line => r.read line.tokens :=
      hread ▸ List.mem_map_of_mem hmem
    obtain ⟨own, hown, hread'⟩ := List.mem_map.1 hok
    -- The first line with the first word of the rule is read as a rule that is written so.
    have hsome : (lines.find? fun line => line.tokens.head? = some rule.written).isSome := by
      rw [List.find?_isSome]
      exact ⟨own, hown, decide_eq_true (reads_of_read hread').head⟩
    obtain ⟨line, hfind⟩ := Option.isSome_iff_exists.1 hsome
    obtain ⟨a, ha, hline⟩ := hrule (List.mem_of_find?_eq_some hfind)
    have hword : line.tokens.head? = some rule.written := by simpa using List.find?_some hfind
    have hwritten : a.written = rule.written :=
      Option.some.inj ((reads_of_read hline).head.symm.trans hword)
    obtain rfl : a = rule := by
      have hfound := (find?_key_iff Rule.written hne).2 ⟨ha, hwritten⟩
      rw [(find?_key_iff Rule.written hne).2 ⟨hmem, rfl⟩] at hfound
      exact (Option.some.inj hfound).symm
    exact ⟨line, hfind, hline⟩

end Reader

/-! ## The policy of the lines of a policy -/

theorem textOf_map_reread {rules : List Rule} (h : ∀ r ∈ rules, r.flags.isValid = true) :
    Config.textOf (rules.map Rule.reread) = Config.textOf (rules.map Rule.line) := by
  apply String.toList_inj.1
  rw [Config.toList_textOf, Config.toList_textOf, List.flatMap_map, List.flatMap_map]
  refine List.flatMap_congr fun r hr => ?_
  rw [Rule.text_reread (h r hr)]

theorem textOf_congr {lines lines' : List Line}
    (h : lines.map (·.tokens) = lines'.map (·.tokens)) :
    Config.textOf lines = Config.textOf lines' := by
  apply String.toList_inj.1
  have htext : ∀ lines : List Line, (Config.textOf lines).toList =
      (lines.map (·.tokens)).flatMap fun tokens => (" ".intercalate tokens).toList ++ ['\n'] := by
    intro lines
    rw [Config.toList_textOf, List.flatMap_map]
    rfl
  rw [htext, htext, h]

/-- Lines that are read as the rules of a draft, one by one, are those of a policy with the same
records. -/
theorem Draft.Of.compile_again {r : Reader} {lines : List Line} {d : Draft} (hd : d.Of r lines)
    {ctx : Context} {again : List Line}
    (hread : again.map (fun line => (Reader.ofContext ctx).read line.tokens) =
      (Blob.sorted d.rules.reverse).map .ok) :
    ∃ p, (compile again ctx).result = .ok p ∧ p.text = Config.textOf again ∧
      p.binary = Blob.bytesOf (Blob.sorted d.rules.reverse) p.digest := by
  have hlines : ∀ line ∈ again, ∃ rule, (Reader.ofContext ctx).read line.tokens = .ok rule := by
    intro line hline
    have hmem := List.mem_map_of_mem
      (f := fun line : Line => (Reader.ofContext ctx).read line.tokens) hline
    rw [hread] at hmem
    obtain ⟨rule, -, heq⟩ := List.mem_map.1 hmem
    exact ⟨rule, heq.symm⟩
  have haccepted : (Reader.ofContext ctx).accepted again = again :=
    Reader.acceptedAfter_of_isRule fun line hline => Reader.isRule_iff.2 (hlines line hline)
  rcases outcome_compile again ctx with
    ⟨d', hd', -, hresult, -⟩ | ⟨-, line, fault, hrefused, herror, -⟩
  · have hwritten : (Blob.sorted d.rules.reverse).Pairwise fun a b => a.written ≠ b.written := by
      have hnodup : (d.rules.map Rule.written).Nodup := hd.seen ▸ hd.nodup
      exact List.pairwise_map.1 ((hd.perm_sorted.map Rule.written).nodup_iff.2 hnodup)
    have hsorted : Blob.sorted d'.rules.reverse = Blob.sorted d.rules.reverse := by
      refine ((hd'.sorted_eq_iff hd).2 fun rule => ?_)
      rw [Reader.gives_of_read hread hwritten haccepted, hd.perm_sorted.mem_iff, hd.mem_rules_iff]
    refine ⟨_, hresult.trans hd'.finish_eq_ok, congrArg Config.textOf haccepted, ?_⟩
    exact congrArg (Blob.bytesOf · _) hsorted
  · obtain ⟨rule, hrule⟩ := hlines line (Reader.mem_of_refusedAfter hrefused)
    rw [hrule] at herror
    cases herror

/-- The rules of a draft are read again by a reader that allows as much. -/
theorem Draft.Of.map_read_reread {r r' : Reader} {lines : List Line} {d : Draft} (hd : d.Of r lines)
    (hallows : r'.Allows r) :
    (Blob.sorted d.rules.reverse).map (fun rule => r'.read rule.reread.tokens) =
      (Blob.sorted d.rules.reverse).map .ok := by
  refine List.map_congr_left fun rule hrule => ?_
  obtain ⟨line, -, hline⟩ := hd.first rule (hd.perm_sorted.mem_iff.1 hrule)
  exact hallows.read_reread hline

/-- What a policy says survives being turned into lines, written as a text, read and compiled by
whoever allows as much. The lines that are read are about the same programs. -/
structure Reproduces (source : String) (lines : List Line) (ctx : Context) (p : Policy)
    (told : List Line) : Prop where
  decompile : decompile p.binary = .ok told
  broken : (Config.read source (Config.textOf told)).broken = []
  heads : ∀ line ∈ (Config.read source (Config.textOf told)).lines, ∃ first ∈ lines,
    line.tokens.head? = first.tokens.head?
  again : ∀ ctx', (Reader.ofContext ctx').Allows (Reader.ofContext ctx) →
    ∃ p', (compile (Config.read source (Config.textOf told)).lines ctx').result = .ok p' ∧
      p'.text = Config.textOf told ∧ Protection.decompile p'.binary = .ok told

/-- No character of the first word of an accepted line is special in a text of lines. -/
def HasPlainPaths (lines : List Line) (ctx : Context) : Prop :=
  ∀ line ∈ (Reader.ofContext ctx).accepted lines, ∀ word ∈ line.tokens.head?, ∀ c ∈ word.toList,
    isOrdinary c = true

instance (lines : List Line) (ctx : Context) : Decidable (HasPlainPaths lines ctx) :=
  decidable_of_iff ((((Reader.ofContext ctx).accepted lines).all fun line =>
      line.tokens.head?.all fun word => word.toList.all isOrdinary) = true)
    (by simp only [HasPlainPaths, List.all_eq_true, Option.all_eq_true, Option.mem_def])

/-- A policy with plain paths is turned into lines whose text gives a policy that is turned into the
same lines. -/
theorem compile_reread {lines : List Line} {ctx : Context} {p : Policy}
    (hp : (compile lines ctx).result = .ok p) (htaken : p.IsTaken)
    (hplain : HasPlainPaths lines ctx) (source : String) :
    ∃ told, Reproduces source lines ctx p told := by
  obtain ⟨d, hd, rfl⟩ := draft_of_compile hp
  have hrecordable : ∀ rule ∈ Blob.sorted d.rules.reverse, Blob.Recordable rule :=
    fun rule hrule => hd.recordable (hd.perm_sorted.mem_iff.1 hrule)
  have hvalid : ∀ rule ∈ Blob.sorted d.rules.reverse, rule.flags.isValid = true :=
    fun rule hrule => (hrecordable rule hrule).isValid
  -- The same records are taken under every digest.
  have hdecode : ∀ digest, Blob.decode (Blob.bytesOf (Blob.sorted d.rules.reverse) digest) =
      .ok (digest, Blob.sorted d.rules.reverse) := by
    obtain ⟨_, htaken⟩ := htaken
    exact fun _ => Blob.decode_bytesOf hrecordable (Blob.length_lt_of_decode hrecordable htaken)
  -- Every record is that of a rule, which was read from an accepted line with its first word.
  have hfirst : ∀ rule ∈ Blob.sorted d.rules.reverse,
      ∃ first ∈ (Reader.ofContext ctx).accepted lines,
        (Reader.ofContext ctx).Reads first.tokens rule := by
    intro rule hrule
    obtain ⟨first, hfind, hread⟩ := hd.first rule (hd.perm_sorted.mem_iff.1 hrule)
    exact ⟨first, List.mem_of_find?_eq_some hfind, Reader.reads_of_read hread⟩
  have hlines : ∀ line ∈ (Blob.sorted d.rules.reverse).map Rule.reread, line.IsPlain := by
    intro line hline
    obtain ⟨rule, hrule, rfl⟩ := List.mem_map.1 hline
    obtain ⟨first, hmem, hreads⟩ := hfirst rule hrule
    refine Rule.isPlain_reread (hvalid rule hrule) (hreads.isPlain_written rfl ?_)
    exact hplain first hmem _ hreads.head
  obtain ⟨hbroken, htokens⟩ := Config.read_textOf hlines source
  rw [textOf_map_reread hvalid] at hbroken htokens
  rw [List.map_map] at htokens
  refine ⟨_, decompile_eq (hdecode _) hvalid, hbroken, fun line hline => ?_,
    fun ctx' hallows => ?_⟩
  · have hmem := List.mem_map_of_mem (f := fun a : Line => a.tokens) hline
    rw [htokens] at hmem
    obtain ⟨rule, hrule, heq⟩ := List.mem_map.1 hmem
    obtain ⟨first, hmem, hreads⟩ := hfirst rule hrule
    have haccepted := ((Reader.ofContext ctx).acceptedAfter_sublist [] lines).subset hmem
    have hhead : line.tokens.head? = some rule.written := congrArg List.head? heq.symm
    exact ⟨first, haccepted, hhead.trans hreads.head.symm⟩
  · have hread : ((Config.read source (Config.textOf ((Blob.sorted d.rules.reverse).map
        Rule.line))).lines.map fun line => (Reader.ofContext ctx').read line.tokens) =
        (Blob.sorted d.rules.reverse).map .ok := by
      rw [← hd.map_read_reread hallows]
      have h := congrArg (List.map (Reader.ofContext ctx').read) htokens
      rwa [List.map_map, List.map_map] at h
    obtain ⟨p', hp', htext, hbinary⟩ := hd.compile_again hread
    have htold : Config.textOf _ = Config.textOf ((Blob.sorted d.rules.reverse).map Rule.reread) :=
      textOf_congr (htokens.trans List.map_map.symm)
    refine ⟨p', hp', htext.trans (htold.trans (textOf_map_reread hvalid)), ?_⟩
    rw [hbinary]
    exact decompile_eq (hdecode _) hvalid

end Protection

end PathPolicy
