import PathPolicy.Proofs.Records
import PathPolicy.Proofs.RuleLines
import PathPolicy.Protection.Policy

/-!
# A policy is what was accepted

A line is accepted if it is a rule, or if an earlier line with the same first word is one
(`Reader.accepts`). The policy that is made of lines has the text of the accepted ones, and for each
of their first words the rule of the first line with it (`compile_accepted`).

A draft knows a rule by its first word, the binary form by path and kind. That comes to the same:
two rules with one pattern are written alike, so no two rules of a draft have one pattern and none
of them is dropped (`Draft.Of.perm_sorted`).
-/

namespace PathPolicy.Protection

open Config (Line)

/-! ## Accepted lines -/

namespace Reader

def isRule (r : Reader) (line : Line) : Bool := (r.read line.tokens).toOption.isSome

/-- Whether a line is accepted after others: it is a rule, or one of them with the same first word
is. -/
def accepts (r : Reader) (before : List Line) (line : Line) : Bool :=
  (before ++ [line]).any fun a => a.tokens.head? = line.tokens.head? && r.isRule a

/-- The lines that are accepted after others. -/
def acceptedAfter (r : Reader) (before : List Line) : List Line → List Line
  | [] => []
  | line :: rest =>
    if r.accepts before line then line :: r.acceptedAfter (before ++ [line]) rest
    else r.acceptedAfter (before ++ [line]) rest

def accepted (r : Reader) (lines : List Line) : List Line := r.acceptedAfter [] lines

/-- The first line that is not accepted after others, if there is one. -/
def refusedAfter (r : Reader) (before : List Line) : List Line → Option Line
  | [] => none
  | line :: rest =>
    if r.accepts before line then r.refusedAfter (before ++ [line]) rest else some line

def refused? (r : Reader) (lines : List Line) : Option Line := r.refusedAfter [] lines

variable {r : Reader}

theorem acceptedAfter_append (before lines more : List Line) :
    r.acceptedAfter before (lines ++ more) =
      r.acceptedAfter before lines ++ r.acceptedAfter (before ++ lines) more := by
  induction lines generalizing before with
  | nil => simp [acceptedAfter]
  | cons a rest ih =>
    simp only [List.cons_append, acceptedAfter, ih, List.append_assoc, List.nil_append]
    split <;> simp

theorem accepted_append (lines : List Line) (line : Line) :
    r.accepted (lines ++ [line]) =
      r.accepted lines ++ if r.accepts lines line then [line] else [] :=
  acceptedAfter_append [] lines [line]

theorem isRule_iff {line : Line} :
    r.isRule line = true ↔ ∃ rule, r.read line.tokens = .ok rule := by
  unfold isRule
  cases r.read line.tokens with
  | ok rule => exact ⟨fun _ => ⟨rule, rfl⟩, fun _ => rfl⟩
  | error fault => simp [Except.toOption]

theorem not_isRule {line : Line} {fault : Fault} (h : r.read line.tokens = .error fault) :
    ¬ r.isRule line = true := by
  rw [isRule_iff, h]
  rintro ⟨rule, hrule⟩
  cases hrule

theorem accepts_iff {before : List Line} {line : Line} :
    r.accepts before line = true ↔
      (∃ a ∈ before, a.tokens.head? = line.tokens.head? ∧ r.isRule a = true) ∨
        r.isRule line = true := by
  simp [accepts]

theorem exists_rule_of_mem_acceptedAfter {before lines : List Line} {line : Line}
    (h : line ∈ r.acceptedAfter before lines) :
    ∃ a ∈ before ++ lines, a.tokens.head? = line.tokens.head? ∧ r.isRule a = true := by
  induction lines generalizing before with
  | nil => cases h
  | cons x rest ih =>
    unfold acceptedAfter at h
    split at h
    · rename_i hx
      rcases List.mem_cons.1 h with rfl | h
      · rcases accepts_iff.1 hx with ⟨a, ha, hax⟩ | hrule
        · exact ⟨a, List.mem_append_left _ ha, hax⟩
        · exact ⟨line, by simp, rfl, hrule⟩
      · simpa using ih h
    · simpa using ih h

theorem head?_of_mem_accepted {lines : List Line} {line : Line} (h : line ∈ r.accepted lines) :
    ∃ word, line.tokens.head? = some word := by
  obtain ⟨a, -, hhead, hrule⟩ := exists_rule_of_mem_acceptedAfter h
  obtain ⟨rule, hread⟩ := isRule_iff.1 hrule
  exact ⟨rule.written, hhead ▸ (reads_of_read hread).head⟩

theorem acceptedAfter_sublist (before lines : List Line) :
    (r.acceptedAfter before lines).Sublist lines := by
  induction lines generalizing before with
  | nil => exact List.Sublist.slnil
  | cons a rest ih =>
    unfold acceptedAfter
    split
    · exact (ih _).cons_cons a
    · exact (ih _).cons a

theorem mem_of_refusedAfter {before lines : List Line} {line : Line}
    (h : r.refusedAfter before lines = some line) : line ∈ lines := by
  induction lines generalizing before with
  | nil => cases h
  | cons a rest ih =>
    unfold refusedAfter at h
    split at h
    · exact List.mem_cons_of_mem a (ih h)
    · exact List.mem_cons.2 (.inl (Option.some.inj h).symm)

end Reader

/-- What accepted lines say: the first of them with some first word is read as the rule. -/
def Reader.Gives (r : Reader) (lines : List Line) (rule : Rule) : Prop :=
  ∃ line, (r.accepted lines).find? (fun a => a.tokens.head? = some rule.written) = some line ∧
    r.read line.tokens = .ok rule

section Gives

variable {r r' : Reader} {lines lines' : List Line} {rule : Rule}

theorem Reader.gives_iff : r.Gives lines rule ↔
    ∃ tokens, ((r.accepted lines).map (·.tokens)).find? (·.head? = some rule.written) =
      some tokens ∧ r.read tokens = .ok rule := by
  simp only [List.find?_map, Option.map_eq_some_iff]
  constructor
  · rintro ⟨line, hfind, hread⟩
    exact ⟨line.tokens, ⟨line, hfind, rfl⟩, hread⟩
  · rintro ⟨tokens, ⟨line, hfind, rfl⟩, hread⟩
    exact ⟨line, hfind, hread⟩

/-- Accepted lines of the same words that are read alike give the same rules. -/
theorem Reader.gives_congr
    (hwords : (r.accepted lines).map (·.tokens) = (r'.accepted lines').map (·.tokens))
    (hread : ∀ line ∈ r.accepted lines, r.read line.tokens = r'.read line.tokens) :
    r.Gives lines rule ↔ r'.Gives lines' rule := by
  rw [gives_iff, gives_iff, ← hwords]
  refine exists_congr fun tokens => and_congr_right fun hfind => ?_
  obtain ⟨line, hline, rfl⟩ := List.mem_map.1 (List.mem_of_find?_eq_some hfind)
  rw [hread line hline]

/-- The first accepted line with a word stays the first. -/
theorem Reader.Gives.append (h : r.Gives lines rule) (line : Line) :
    r.Gives (lines ++ [line]) rule := by
  obtain ⟨found, hfound, hread⟩ := h
  refine ⟨found, ?_, hread⟩
  rw [Reader.accepted_append, List.find?_append, hfound]
  rfl

end Gives

/-! ## Drafts -/

/-- A draft of lines: it has accepted what is to be accepted, and for every first word of a rule the
rule of the first accepted line with that word. -/
structure Draft.Of (r : Reader) (lines : List Line) (d : Draft) : Prop where
  accepted : d.accepted.reverse = r.accepted lines
  seen : d.seen = d.rules.map Rule.written
  nodup : d.seen.Nodup
  mem_seen : ∀ {word}, word ∈ d.seen ↔
    ∃ line ∈ lines, line.tokens.head? = some word ∧ r.isRule line = true
  first : ∀ rule ∈ d.rules, ∃ line,
    (r.accepted lines).find? (fun a => a.tokens.head? = some rule.written) = some line ∧
      r.read line.tokens = .ok rule
  length_le : d.rules.length ≤ lines.length

namespace Draft

variable {r : Reader} {lines : List Line} {d : Draft}

theorem of_empty (r : Reader) : empty.Of r [] where
  accepted := rfl
  seen := rfl
  nodup := List.nodup_nil
  mem_seen := by simp [empty]
  first := by simp [empty]
  length_le := Nat.le_refl 0

/-- Events do not matter. -/
theorem Of.events (h : d.Of r lines) (events : List Event) : { d with events }.Of r lines :=
  ⟨h.accepted, h.seen, h.nodup, h.mem_seen, h.first, h.length_le⟩

theorem Of.look (h : d.Of r lines) (line : Line) : (d.look r line).Of r lines := by
  unfold Draft.look
  split
  · exact h.events _
  · exact h

theorem look_seen (d : Draft) (r : Reader) (line : Line) : (d.look r line).seen = d.seen := by
  unfold look
  split <;> rfl

theorem repeats_iff {line : Line} :
    d.repeats line = true ↔ ∃ word, line.tokens.head? = some word ∧ word ∈ d.seen := by
  unfold repeats
  cases line.tokens.head? <;> simp

theorem Of.mem_seen_of_accepted (h : d.Of r lines) {line : Line} (hline : line ∈ r.accepted lines)
    {word : String} (hword : line.tokens.head? = some word) : word ∈ d.seen := by
  obtain ⟨a, ha, hhead, hrule⟩ := Reader.exists_rule_of_mem_acceptedAfter hline
  exact h.mem_seen.2 ⟨a, ha, hhead.trans hword, hrule⟩

theorem Of.accepts_of_repeats (h : d.Of r lines) {line : Line} (hrep : d.repeats line = true) :
    r.accepts lines line = true := by
  obtain ⟨word, hword, hseen⟩ := repeats_iff.1 hrep
  obtain ⟨a, ha, hhead, hrule⟩ := h.mem_seen.1 hseen
  exact Reader.accepts_iff.2 (.inl ⟨a, ha, hhead.trans hword.symm, hrule⟩)

theorem Of.not_accepts (h : d.Of r lines) {line : Line} (hrep : ¬ d.repeats line = true)
    (hrule : ¬ r.isRule line = true) : ¬ r.accepts lines line = true := by
  rw [Reader.accepts_iff]
  rintro (⟨a, ha, hhead, harule⟩ | hline)
  · obtain ⟨arule, haread⟩ := Reader.isRule_iff.1 harule
    have hword := (Reader.reads_of_read haread).head
    exact hrep (repeats_iff.2 ⟨_, hhead.symm.trans hword, h.mem_seen.2 ⟨a, ha, hword, harule⟩⟩)
  · exact hrule hline

theorem Of.mem_seen_or (h : d.Of r lines) (line : Line) {word : String} :
    (∃ a ∈ lines ++ [line], a.tokens.head? = some word ∧ r.isRule a = true) ↔
      word ∈ d.seen ∨ line.tokens.head? = some word ∧ r.isRule line = true := by
  rw [h.mem_seen]
  simp [or_and_right, exists_or]

/-- A line with a first word that was seen is accepted, and is no new rule. -/
theorem Of.accept (h : d.Of r lines) {line : Line} (hrep : d.repeats line = true) :
    (d.accept line).Of r (lines ++ [line]) := by
  obtain ⟨word, hword, hseen⟩ := repeats_iff.1 hrep
  have haccepts := h.accepts_of_repeats hrep
  refine ⟨?_, h.seen, h.nodup, fun {w} => ?_,
    fun rule hr => Reader.Gives.append (h.first rule hr) line, ?_⟩
  · show (line :: d.accepted).reverse = _
    rw [List.reverse_cons, h.accepted, Reader.accepted_append, if_pos haccepts]
  · rw [h.mem_seen_or]
    refine (or_iff_left_of_imp ?_).symm
    rintro ⟨hw, -⟩
    exact Option.some.inj (hword.symm.trans hw) ▸ hseen
  · have := h.length_le
    simp only [Draft.accept, List.length_append, List.length_singleton]
    omega

/-- A rule with a new first word is taken in. -/
theorem Of.acceptRule (h : d.Of r lines) {line : Line} {rule : Rule}
    (hrep : ¬ d.repeats line = true) (hread : r.read line.tokens = .ok rule) :
    (d.acceptRule line rule).Of r (lines ++ [line]) := by
  have hhead := (Reader.reads_of_read hread).head
  have hrule : r.isRule line = true := Reader.isRule_iff.2 ⟨rule, hread⟩
  have haccepts : r.accepts lines line = true := Reader.accepts_iff.2 (.inr hrule)
  have hnew : rule.written ∉ d.seen := fun hseen => hrep (repeats_iff.2 ⟨_, hhead, hseen⟩)
  have hseen : (d.acceptRule line rule).seen = rule.written :: d.seen := by
    show line.tokens.head?.toList ++ d.seen = _
    rw [hhead]
    rfl
  refine ⟨?_, ?_, ?_, fun {w} => ?_, fun a ha => ?_, ?_⟩
  · show (line :: d.accepted).reverse = _
    rw [List.reverse_cons, h.accepted, Reader.accepted_append, if_pos haccepts]
  · rw [hseen, h.seen]
    rfl
  · rw [hseen]
    exact List.nodup_cons.2 ⟨hnew, h.nodup⟩
  · rw [hseen, List.mem_cons, h.mem_seen_or, hhead, Option.some_inj, eq_comm, or_comm]
    exact or_congr_right (and_iff_left hrule).symm
  · rcases List.mem_cons.1 ha with rfl | ha
    · refine ⟨line, ?_, hread⟩
      have hnone : (r.accepted lines).find? (fun b => b.tokens.head? = some a.written) = none := by
        rw [List.find?_eq_none]
        intro b hb hw
        exact hnew (h.mem_seen_of_accepted hb (of_decide_eq_true hw))
      rw [Reader.accepted_append, if_pos haccepts, List.find?_append, hnone, Option.none_or]
      exact List.find?_cons_of_pos (decide_eq_true hhead)
    · exact Reader.Gives.append (h.first a ha) line
  · have := h.length_le
    simp only [Draft.acceptRule, List.length_append, List.length_cons, List.length_nil]
    omega

/-- A line that is no rule and has a new first word is left out. -/
theorem Of.leaveOut (h : d.Of r lines) {line : Line} {fault : Fault}
    (hrep : ¬ d.repeats line = true) (hread : r.read line.tokens = .error fault) :
    d.Of r (lines ++ [line]) := by
  have hrule := Reader.not_isRule hread
  have haccepts := h.not_accepts hrep hrule
  refine ⟨?_, h.seen, h.nodup, fun {w} => ?_,
    fun a ha => Reader.Gives.append (h.first a ha) line, ?_⟩
  · rw [Reader.accepted_append, if_neg haccepts, List.append_nil]
    exact h.accepted
  · rw [h.mem_seen_or]
    exact (or_iff_left fun hline => hrule hline.2).symm
  · have := h.length_le
    simp only [List.length_append, List.length_singleton]
    omega

end Draft

/-- Lines are taken into a draft, up to the first one that is not accepted if it has to be a
rule. -/
theorem collect_spec {r : Reader} (strictness : Strictness) {d : Draft} {done : List Line}
    (hd : d.Of r done) (lines : List Line) :
    ((collect r strictness d lines).2 = none →
      (collect r strictness d lines).1.Of r (done ++ lines) ∧
        (strictness = .strict → r.refusedAfter done lines = none)) ∧
    (∀ e, (collect r strictness d lines).2 = some e → strictness = .strict ∧
      ∃ line fault, r.refusedAfter done lines = some line ∧
        r.read line.tokens = .error fault ∧ e = lineError line.location fault) := by
  induction lines generalizing d done with
  | nil => exact ⟨fun _ => ⟨by rwa [List.append_nil], fun _ => rfl⟩, fun e he => nomatch he⟩
  | cons line rest ih =>
    -- What the rest of the lines does to the next draft, in terms of all lines.
    have hnext : ∀ d', d'.Of r (done ++ [line]) →
        (strictness = .strict → r.accepts done line = true) →
        ((collect r strictness d' rest).2 = none →
          (collect r strictness d' rest).1.Of r (done ++ line :: rest) ∧
            (strictness = .strict → r.refusedAfter done (line :: rest) = none)) ∧
        (∀ e, (collect r strictness d' rest).2 = some e → strictness = .strict ∧
          ∃ a fault, r.refusedAfter done (line :: rest) = some a ∧
            r.read a.tokens = .error fault ∧ e = lineError a.location fault) := by
      intro d' hd' haccepts
      have hrefused : strictness = .strict → r.refusedAfter done (line :: rest) =
          r.refusedAfter (done ++ [line]) rest := fun hs => by
        rw [Reader.refusedAfter, if_pos (haccepts hs)]
      obtain ⟨hok, herr⟩ := ih hd'
      rw [List.append_assoc] at hok
      refine ⟨fun hnone => ?_, fun e he => ?_⟩
      · obtain ⟨hof, hrest⟩ := hok hnone
        exact ⟨hof, fun hs => (hrefused hs).trans (hrest hs)⟩
      · obtain ⟨hs, a, fault, ha, hfault⟩ := herr e he
        exact ⟨hs, a, fault, (hrefused hs).trans ha, hfault⟩
    unfold collect
    by_cases hrep : d.repeats line = true
    · rw [if_pos hrep]
      exact hnext _ (hd.accept hrep) fun _ => hd.accepts_of_repeats hrep
    · rw [if_neg hrep]
      have hlook := hd.look line
      have hrep' : ¬ (d.look r line).repeats line = true := by
        rw [Draft.repeats_iff, Draft.look_seen, ← Draft.repeats_iff]
        exact hrep
      cases hread : r.read line.tokens with
      | ok rule =>
        exact hnext _ (hlook.acceptRule hrep' hread) fun _ =>
          Reader.accepts_iff.2 (.inr (Reader.isRule_iff.2 ⟨rule, hread⟩))
      | error fault =>
        cases strictness with
        | strict =>
          refine ⟨fun h => (nomatch h), fun e he => ?_⟩
          refine ⟨rfl, line, fault, ?_, hread, (Option.some.inj he).symm⟩
          exact if_neg (hd.not_accepts hrep (Reader.not_isRule hread))
        | lenient =>
          exact hnext _ ((hlook.leaveOut hrep' hread).events _) fun hs => nomatch hs

/-! ## The policy of a draft -/

namespace Draft

variable {r : Reader} {lines : List Line} {d : Draft}

theorem Of.pairwise_pattern (h : d.Of r lines) :
    d.rules.Pairwise fun a b => a.pattern ≠ b.pattern := by
  have hnodup := h.nodup
  rw [h.seen] at hnodup
  exact (List.pairwise_map.1 hnodup).imp fun hne heq => hne (Rule.written_eq heq)

/-- No rule of a draft goes without a record. -/
theorem Of.perm_sorted (h : d.Of r lines) : (Blob.sorted d.rules.reverse).Perm d.rules := by
  have hd : d.rules.reverse.Pairwise fun a b => a.pattern ≠ b.pattern :=
    List.pairwise_reverse.2 (h.pairwise_pattern.imp Ne.symm)
  have hne : ∀ {l : List Rule}, (l.Pairwise fun a b => a.pattern ≠ b.pattern) → l.Nodup :=
    fun hl => hl.imp fun hab heq => hab (congrArg Rule.pattern heq)
  refine (List.perm_ext_iff_of_nodup (hne ((Blob.pairwise_sorted _).imp fun h => h.2))
    (hne h.pairwise_pattern)).2 fun a => ?_
  rw [Blob.mem_sorted_iff, find?_key_iff Rule.pattern hd, List.mem_reverse]
  exact ⟨fun ha => ha.1, fun ha => ⟨ha, rfl⟩⟩

theorem Of.mem_rules_iff (h : d.Of r lines) {rule : Rule} :
    rule ∈ d.rules ↔ r.Gives lines rule := by
  refine ⟨h.first rule, fun ⟨line, hfind, hread⟩ => ?_⟩
  have hword : line.tokens.head? = some rule.written := by simpa using List.find?_some hfind
  have hseen := h.mem_seen_of_accepted (List.mem_of_find?_eq_some hfind) hword
  rw [h.seen] at hseen
  obtain ⟨other, hother, hwritten⟩ := List.mem_map.1 hseen
  obtain ⟨line', hfind', hread'⟩ := h.first other hother
  rw [hwritten, hfind] at hfind'
  obtain rfl := Option.some.inj hfind'
  obtain rfl := Except.ok.inj (hread'.symm.trans hread)
  exact hother

theorem Of.sorted_eq_iff {r' : Reader} {lines' : List Line} {d' : Draft} (h : d.Of r lines)
    (h' : d'.Of r' lines') :
    Blob.sorted d.rules.reverse = Blob.sorted d'.rules.reverse ↔
      ∀ rule, r.Gives lines rule ↔ r'.Gives lines' rule := by
  constructor
  · intro heq rule
    rw [← h.mem_rules_iff, ← h'.mem_rules_iff, ← h.perm_sorted.mem_iff, heq,
      h'.perm_sorted.mem_iff]
  · intro hgives
    have hnodup : ∀ rules, (Blob.sorted rules).Nodup :=
      fun rules => (Blob.pairwise_sorted rules).imp fun hab heq => hab.2 (congrArg Rule.pattern heq)
    have hperm : (Blob.sorted d.rules.reverse).Perm (Blob.sorted d'.rules.reverse) := by
      refine (List.perm_ext_iff_of_nodup (hnodup _) (hnodup _)).2 fun rule => ?_
      rw [h.perm_sorted.mem_iff, h'.perm_sorted.mem_iff, h.mem_rules_iff, h'.mem_rules_iff]
      exact hgives rule
    refine hperm.eq_of_pairwise (fun a b _ _ hab hba => ?_) (Blob.pairwise_sorted _)
      (Blob.pairwise_sorted _)
    exact absurd (Pattern.isBefore_antisymm hab.1 hba.1) hab.2

theorem Of.reads (h : d.Of r lines) {rule : Rule} (hr : rule ∈ d.rules) :
    ∃ line : Line, r.Reads line.tokens rule := by
  obtain ⟨line, -, hread⟩ := h.first rule hr
  exact ⟨line, Reader.reads_of_read hread⟩

theorem Of.recordable (h : d.Of r lines) {rule : Rule} (hr : rule ∈ d.rules) :
    Blob.Recordable rule := by
  obtain ⟨line, hreads⟩ := h.reads hr
  refine ⟨Nat.le_trans hreads.size_le (by decide), (Flags.parse_eq_ok hreads.flags).1⟩

theorem Of.finish_eq_ok (h : d.Of r lines) :
    d.finish.result = .ok ⟨Blob.bytesOf (Blob.sorted d.rules.reverse)
      (Digest.ofText (Config.textOf (r.accepted lines))),
      Digest.ofText (Config.textOf (r.accepted lines)), Config.textOf (r.accepted lines)⟩ := by
  have hencode : ∀ digest, Blob.encode d.rules.reverse digest =
      .ok (Blob.bytesOf (Blob.sorted d.rules.reverse) digest) := by
    intro digest
    refine Blob.encode_eq_ok fun rule hr => ?_
    exact (h.recordable (List.mem_reverse.1 hr)).length_le
  unfold Draft.finish
  simp only [hencode, h.accepted]

theorem Of.decode_eq_ok (h : d.Of r lines) (hlen : lines.length < 2 ^ 32) (digest : Digest) :
    Blob.decode (Blob.bytesOf (Blob.sorted d.rules.reverse) digest) =
      .ok (digest, Blob.sorted d.rules.reverse) := by
  refine Blob.decode_bytesOf (fun rule hr => ?_) ?_
  · exact h.recordable (h.perm_sorted.mem_iff.1 hr)
  · rw [h.perm_sorted.length_eq]
    exact Nat.lt_of_le_of_lt h.length_le hlen

end Draft

/-- Lines give the policy of a draft, or the error of the first one that is not accepted. -/
theorem outcome_compile (lines : List Line) (ctx : Context) :
    (∃ d, d.Of (Reader.ofContext ctx) lines ∧
      collect (Reader.ofContext ctx) ctx.strictness Draft.empty lines = (d, none) ∧
      (compile lines ctx).result = d.finish.result ∧
      (ctx.strictness = .strict → (Reader.ofContext ctx).refused? lines = none)) ∨
    ctx.strictness = .strict ∧
      ∃ line fault, (Reader.ofContext ctx).refused? lines = some line ∧
        (Reader.ofContext ctx).read line.tokens = .error fault ∧
        (compile lines ctx).result = .error (lineError line.location fault) := by
  obtain ⟨hok, herr⟩ := collect_spec ctx.strictness
    (Draft.of_empty (Reader.ofContext ctx)) lines
  unfold compile
  cases hc : collect (Reader.ofContext ctx) ctx.strictness Draft.empty lines with
  | mk d e =>
    rw [hc] at hok herr
    cases e with
    | none => exact .inl ⟨d, (hok rfl).1, rfl, rfl, (hok rfl).2⟩
    | some e =>
      obtain ⟨hstrict, line, fault, hline, hread, rfl⟩ := herr e rfl
      exact .inr ⟨hstrict, line, fault, hline, hread, rfl⟩

theorem result_compile (lines : List Line) (ctx : Context) :
    (∃ d, d.Of (Reader.ofContext ctx) lines ∧
      collect (Reader.ofContext ctx) ctx.strictness Draft.empty lines = (d, none) ∧
      (compile lines ctx).result = d.finish.result) ∨
    ctx.strictness = .strict ∧
      ∃ line ∈ lines, ∃ fault, (Reader.ofContext ctx).read line.tokens = .error fault ∧
        (compile lines ctx).result = .error (lineError line.location fault) := by
  rcases outcome_compile lines ctx with
    ⟨d, hd, hcollect, hresult, -⟩ | ⟨hstrict, line, fault, hline, hread, herr⟩
  · exact .inl ⟨d, hd, hcollect, hresult⟩
  · exact .inr ⟨hstrict, line, Reader.mem_of_refusedAfter hline, fault, hread, herr⟩

/-- A lenient compilation leaves out the lines that are not accepted. -/
theorem compile_lenient (lines : List Line) {ctx : Context}
    (hlenient : ctx.strictness = .lenient) :
    ∃ p, (compile lines ctx).result = .ok p ∧
      p.text = Config.textOf ((Reader.ofContext ctx).accepted lines) ∧
        p.digest = Digest.ofText p.text := by
  rcases outcome_compile lines ctx with ⟨d, hd, -, hresult, -⟩ | ⟨hstrict, -⟩
  · exact ⟨_, hresult.trans hd.finish_eq_ok, rfl, rfl⟩
  · rw [hlenient] at hstrict
    cases hstrict

theorem draft_of_compile {lines : List Line} {ctx : Context} {p : Policy}
    (h : (compile lines ctx).result = .ok p) :
    ∃ d : Draft, d.Of (Reader.ofContext ctx) lines ∧ p =
      ⟨Blob.bytesOf (Blob.sorted d.rules.reverse)
          (Digest.ofText (Config.textOf ((Reader.ofContext ctx).accepted lines))),
        Digest.ofText (Config.textOf ((Reader.ofContext ctx).accepted lines)),
        Config.textOf ((Reader.ofContext ctx).accepted lines)⟩ := by
  rcases result_compile lines ctx with ⟨d, hd, -, hresult⟩ | ⟨-, line, -, fault, -, herror⟩
  · rw [hresult, hd.finish_eq_ok] at h
    exact ⟨d, hd, (Except.ok.inj h).symm⟩
  · rw [herror] at h
    cases h

theorem binary_eq_iff {lines lines' : List Line} {ctx ctx' : Context} {p p' : Policy}
    (h : (compile lines ctx).result = .ok p) (h' : (compile lines' ctx').result = .ok p') :
    p.binary = p'.binary ↔ p.digest = p'.digest ∧
      ∀ rule, (Reader.ofContext ctx).Gives lines rule ↔
        (Reader.ofContext ctx').Gives lines' rule := by
  obtain ⟨d, hd, rfl⟩ := draft_of_compile h
  obtain ⟨d', hd', rfl⟩ := draft_of_compile h'
  rw [← hd.sorted_eq_iff hd']
  refine Blob.bytesOf_eq_iff (fun rule hr => ?_) fun rule hr => ?_
  · exact hd.recordable (hd.perm_sorted.mem_iff.1 hr)
  · exact hd'.recordable (hd'.perm_sorted.mem_iff.1 hr)

theorem digest_of_decode {lines : List Line} {ctx : Context} {p : Policy}
    (h : (compile lines ctx).result = .ok p) {d : Digest} {rules : List Rule}
    (hdecode : Blob.decode p.binary = .ok (d, rules)) : d = p.digest := by
  obtain ⟨draft, -, rfl⟩ := draft_of_compile h
  exact Blob.digest_of_decode hdecode

/-- A policy has the accepted lines as its text, and is read back as the rules of the first accepted
line with each first word, in strict order of specificity. -/
structure Emits (ctx : Context) (lines : List Line) (p : Policy) (records : List Rule) :
    Prop where
  decode : Blob.decode p.binary = .ok (p.digest, records)
  digest : p.digest = Digest.ofText p.text
  text : p.text = Config.textOf ((Reader.ofContext ctx).accepted lines)
  sorted : records.Pairwise Blob.Precedes
  nodup : (records.map Rule.written).Nodup
  mem_written : ∀ word, word ∈ records.map Rule.written ↔
    ∃ line ∈ (Reader.ofContext ctx).accepted lines, line.tokens.head? = some word
  first : ∀ rule ∈ records, ∃ line,
    ((Reader.ofContext ctx).accepted lines).find? (fun a => a.tokens.head? = some rule.written) =
      some line ∧ (Reader.ofContext ctx).read line.tokens = .ok rule
  size_le : ∀ rule ∈ records, rule.path.utf8ByteSize ≤ 4096
  absolute : ∀ rule ∈ records,
    rule.path.toList.head? = some '/' ∨ rule.path = "" ∧ rule.exact = false
  emutramp : ∀ rule ∈ records, rule.flags.meets Flags.emutramp = true →
    ctx.features.enabled name emutrampFeature = true

theorem Draft.Of.emits {ctx : Context} {lines : List Line} {d : Draft}
    (h : d.Of (Reader.ofContext ctx) lines) (hlen : lines.length < 2 ^ 32) {p : Policy}
    (hp : d.finish.result = .ok p) : Emits ctx lines p (Blob.sorted d.rules.reverse) := by
  rw [h.finish_eq_ok] at hp
  injection hp with hp
  subst hp
  have hperm := h.perm_sorted
  have hwritten : ((Blob.sorted d.rules.reverse).map Rule.written).Perm d.seen := by
    rw [h.seen]
    exact hperm.map _
  refine ⟨h.decode_eq_ok hlen _, rfl, rfl, Blob.pairwise_sorted _, ?_, fun word => ?_,
    fun rule hr => h.first rule (hperm.mem_iff.1 hr), fun rule hr => ?_, fun rule hr => ?_,
    fun rule hr hem => ?_⟩
  · exact hwritten.nodup_iff.2 h.nodup
  · rw [hwritten.mem_iff]
    constructor
    · intro hword
      rw [h.seen] at hword
      obtain ⟨rule, hr, rfl⟩ := List.mem_map.1 hword
      obtain ⟨line, hfind, -⟩ := h.first rule hr
      exact ⟨line, List.mem_of_find?_eq_some hfind, by simpa using List.find?_some hfind⟩
    · rintro ⟨line, hline, hword⟩
      exact h.mem_seen_of_accepted hline hword
  · obtain ⟨line, hreads⟩ := h.reads (hperm.mem_iff.1 hr)
    exact hreads.size_le
  · obtain ⟨line, hreads⟩ := h.reads (hperm.mem_iff.1 hr)
    exact hreads.absolute rfl
  · obtain ⟨line, hreads⟩ := h.reads (hperm.mem_iff.1 hr)
    exact (Flags.parse_eq_ok hreads.flags).2 hem

/-- Lines give a policy, unless one of them is no rule and has to be one; no policy is refused
because of its records. It is read back as the rules that were collected, of which none is dropped,
and these are those of the accepted lines. -/
theorem compile_accepted (lines : List Line) (ctx : Context) (hlen : lines.length < 2 ^ 32) :
    (ctx.strictness = .lenient → ∃ p, (compile lines ctx).result = .ok p) ∧
    (∀ e, (compile lines ctx).result = .error e → ∃ line ∈ lines, ∃ fault,
      (Reader.ofContext ctx).read line.tokens = .error fault ∧
        e = lineError line.location fault) ∧
    ∀ p, (compile lines ctx).result = .ok p → ∃ d records,
      collect (Reader.ofContext ctx) ctx.strictness Draft.empty lines = (d, none) ∧
        records.Perm d.rules ∧ Emits ctx lines p records := by
  rcases result_compile lines ctx with
    ⟨d, hd, hcollect, hresult⟩ | ⟨hstrict, line, hline, fault, hread, herr⟩
  · refine ⟨fun _ => ⟨_, hresult.trans hd.finish_eq_ok⟩, fun e he => ?_, fun p hp => ?_⟩
    · rw [hresult, hd.finish_eq_ok] at he
      cases he
    · exact ⟨d, _, hcollect, hd.perm_sorted, hd.emits hlen (hresult.symm.trans hp)⟩
  · refine ⟨fun hlenient => ?_, fun e he => ?_, fun p hp => ?_⟩
    · rw [hstrict] at hlenient
      cases hlenient
    · rw [herr] at he
      exact ⟨line, hline, fault, hread, (Except.error.inj he).symm⟩
    · rw [herr] at hp
      cases hp

/-- A line for the beginning of every path, two for one program, and one that is no rule. -/
def sampleLines : List Line := [
  ⟨"wxprot.conf:1", ["*", "MPROTECT,", "verbose"]⟩, ⟨"wxprot.conf:2", ["/bin/a", "full"]⟩,
  ⟨"wxprot.conf:3", ["bin", "full"]⟩, ⟨"wxprot.conf:4", ["/bin/a"]⟩]

/-- A lenient reading with the default options, on a kernel of which nothing is known. -/
def sampleContext : Context := ⟨{}, Kernel.Features.empty, Image.Inspector.blind, .lenient⟩

theorem compile_accepted_sample :
    sampleLines.length < 2 ^ 32 ∧ ∃ p, (compile sampleLines sampleContext).result = .ok p ∧
      ∃ d records, collect (Reader.ofContext sampleContext) .lenient Draft.empty sampleLines =
        (d, none) ∧ records.Perm d.rules ∧ Emits sampleContext sampleLines p records := by
  have hlen : sampleLines.length < 2 ^ 32 := by decide
  obtain ⟨hok, -, hpolicy⟩ := compile_accepted sampleLines sampleContext hlen
  obtain ⟨p, hp⟩ := hok rfl
  exact ⟨hlen, p, hp, hpolicy p hp⟩

end PathPolicy.Protection
