import PathPolicy.Proofs.Acceptance
import PathPolicy.Proofs.RuleTexts

/-!
# Strictness

A strict compilation is to end at the first line that is no rule, and a lenient one to leave out the
lines that are no rules, also from the text of the policy (`Honours`). A line whose first word an
earlier rule has is accepted without being read, so this holds as long as every such line that
matters would be a rule on its own (`compile_strictness`).
-/

namespace PathPolicy.Protection

open Config (Line)

namespace Reader

/-- A line that is no rule is accepted, because an earlier one with its first word is a rule. Where
lines have to be rules, it is the first one that is none. -/
def Overlooks (r : Reader) (strictness : Strictness) (lines : List Line) : Prop :=
  ∃ front line back, lines = front ++ line :: back ∧ ¬ r.isRule line = true ∧
    r.accepts front line = true ∧ (strictness = .strict → ∀ a ∈ front, r.isRule a = true)

section Accepted

variable {r : Reader} {before lines front back : List Line} {line : Line}

theorem mem_accepted (h : r.accepts front line = true) :
    line ∈ r.accepted (front ++ line :: back) := by
  unfold accepted
  rw [acceptedAfter_append, List.nil_append, acceptedAfter, if_pos h]
  exact List.mem_append_right _ List.mem_cons_self

theorem not_overlooks {strictness : Strictness} (h : ∀ a ∈ r.accepted lines, r.isRule a = true) :
    ¬ r.Overlooks strictness lines := by
  rintro ⟨front, line, back, rfl, hrule, haccepts, -⟩
  exact hrule (h line (mem_accepted haccepts))

theorem acceptedAfter_eq_self (h : r.refusedAfter before lines = none) :
    r.acceptedAfter before lines = lines := by
  induction lines generalizing before with
  | nil => rfl
  | cons a rest ih =>
    unfold refusedAfter at h
    unfold acceptedAfter
    split at h
    · rename_i ha
      rw [if_pos ha, ih h]
    · cases h

theorem filter_sublist_acceptedAfter (before lines : List Line) :
    (lines.filter r.isRule).Sublist (r.acceptedAfter before lines) := by
  induction lines generalizing before with
  | nil => exact List.Sublist.slnil
  | cons a rest ih =>
    unfold acceptedAfter
    by_cases ha : r.isRule a = true
    · rw [List.filter_cons_of_pos ha, if_pos (accepts_iff.2 (.inr ha))]
      exact (ih _).cons_cons a
    · rw [List.filter_cons_of_neg ha]
      split
      · exact (ih _).cons a
      · exact ih _

/-- The lines that are accepted are the rules, unless a line is overlooked. -/
theorem acceptedAfter_eq_filter (h : ¬ r.Overlooks .lenient (before ++ lines)) :
    r.acceptedAfter before lines = lines.filter r.isRule := by
  induction lines generalizing before with
  | nil => rfl
  | cons a rest ih =>
    have hrest := @ih (before ++ [a]) (by rwa [List.append_assoc])
    unfold acceptedAfter
    by_cases ha : r.isRule a = true
    · rw [List.filter_cons_of_pos ha, if_pos (accepts_iff.2 (.inr ha)), hrest]
    · rw [List.filter_cons_of_neg ha, if_neg fun haccepts => ?_, hrest]
      refine h ⟨before, a, rest, rfl, ha, haccepts, fun hs => ?_⟩
      cases hs

/-- The line that is refused is the first one that is no rule, unless that one is overlooked. -/
theorem refusedAfter_eq_find? (hbefore : ∀ a ∈ before, r.isRule a = true)
    (h : ¬ r.Overlooks .strict (before ++ lines)) :
    r.refusedAfter before lines = lines.find? fun a => !r.isRule a := by
  induction lines generalizing before with
  | nil => rfl
  | cons a rest ih =>
    unfold refusedAfter
    by_cases ha : r.isRule a = true
    · rw [if_pos (accepts_iff.2 (.inr ha)), List.find?_cons_of_neg (by simp [ha])]
      refine ih (fun b hb => ?_) (by rwa [List.append_assoc])
      rcases List.mem_append.1 hb with hb | hb
      · exact hbefore b hb
      · rwa [List.mem_singleton.1 hb]
    · rw [List.find?_cons_of_pos (by simp [ha]), if_neg fun haccepts => ?_]
      exact h ⟨before, a, rest, rfl, ha, haccepts, fun _ => hbefore⟩

theorem refusedAfter_append : r.refusedAfter before (front ++ back) =
    (r.refusedAfter before front).or (r.refusedAfter (before ++ front) back) := by
  induction front generalizing before with
  | nil => rw [List.nil_append, List.append_nil, refusedAfter, Option.none_or]
  | cons a rest ih =>
    rw [List.cons_append, refusedAfter, refusedAfter]
    split
    · rw [ih, List.append_assoc, List.singleton_append]
    · rfl

theorem refusedAfter_of_isRule (h : ∀ a ∈ lines, r.isRule a = true) :
    r.refusedAfter before lines = none := by
  induction lines generalizing before with
  | nil => rfl
  | cons a rest ih =>
    obtain ⟨ha, hrest⟩ := List.forall_mem_cons.1 h
    rw [refusedAfter, if_pos (accepts_iff.2 (.inr ha)), ih hrest]

end Accepted

end Reader

/-- What strictness says of a compilation: it fails at the first line that is no rule, or it leaves
out what is no rule. -/
def Honours (lines : List Line) (ctx : Context) : Prop :=
  match ctx.strictness with
  | .strict =>
    match lines.find? fun line => !(Reader.ofContext ctx).isRule line with
    | none => ∃ p, (compile lines ctx).result = .ok p
    | some line => ∃ fault, (Reader.ofContext ctx).read line.tokens = .error fault ∧
        (compile lines ctx).result = .error (lineError line.location fault)
  | .lenient => ∃ p, (compile lines ctx).result = .ok p ∧
      p.text = Config.textOf (lines.filter (Reader.ofContext ctx).isRule)

section Compile

variable {lines : List Line} {ctx : Context}

/-- A strict compilation ends at the line that is refused, if there is one. -/
theorem compile_strict (lines : List Line) (hstrict : ctx.strictness = .strict) :
    match (Reader.ofContext ctx).refused? lines with
    | none => ∃ p, (compile lines ctx).result = .ok p ∧ p.text = Config.textOf lines
    | some line => ∃ fault, (Reader.ofContext ctx).read line.tokens = .error fault ∧
        (compile lines ctx).result = .error (lineError line.location fault) := by
  rcases outcome_compile lines ctx with
    ⟨d, hd, -, hresult, hnone⟩ | ⟨-, line, fault, hline, hread, herror⟩
  · rw [hnone hstrict]
    refine ⟨_, hresult.trans hd.finish_eq_ok, ?_⟩
    exact congrArg Config.textOf (Reader.acceptedAfter_eq_self (hnone hstrict))
  · rw [hline]
    exact ⟨fault, hread, herror⟩

theorem honours_of_not_overlooks
    (h : ¬ (Reader.ofContext ctx).Overlooks ctx.strictness lines) : Honours lines ctx := by
  unfold Honours
  cases hs : ctx.strictness with
  | strict =>
    rw [hs] at h
    have hcompile := compile_strict lines hs
    unfold Reader.refused? at hcompile
    rw [Reader.refusedAfter_eq_find? (List.forall_mem_nil _) h] at hcompile
    cases hfind : lines.find? fun line => !(Reader.ofContext ctx).isRule line with
    | none =>
      rw [hfind] at hcompile
      obtain ⟨p, hp, -⟩ := hcompile
      exact ⟨p, hp⟩
    | some line =>
      rw [hfind] at hcompile
      exact hcompile
  | lenient =>
    rw [hs] at h
    obtain ⟨p, hp, htext, -⟩ := compile_lenient lines hs
    exact ⟨p, hp, htext.trans (congrArg Config.textOf (Reader.acceptedAfter_eq_filter h))⟩

/-- A strict compilation goes on after a line that is overlooked. -/
theorem not_honours_strict (hs : ctx.strictness = .strict)
    (hloc : (lines.map (·.location)).Nodup)
    (h : (Reader.ofContext ctx).Overlooks .strict lines) : ¬ Honours lines ctx := by
  obtain ⟨front, line, back, rfl, hrule, haccepts, hfront⟩ := h
  have hfind : (front ++ line :: back).find? (fun a => !(Reader.ofContext ctx).isRule a) =
      some line := by
    rw [List.find?_append, List.find?_eq_none.2 fun a ha => by simp [hfront rfl a ha],
      Option.none_or, List.find?_cons_of_pos (by simp [hrule])]
  have hcompile := compile_strict (front ++ line :: back) hs
  unfold Honours
  simp only [hs, hfind]
  rintro ⟨fault, -, herror⟩
  cases hrefused : (Reader.ofContext ctx).refused? (front ++ line :: back) with
  | none =>
    rw [hrefused] at hcompile
    obtain ⟨p, hp, -⟩ := hcompile
    rw [hp] at herror
    cases herror
  | some line' =>
    rw [hrefused] at hcompile
    obtain ⟨fault', -, herror'⟩ := hcompile
    -- The compilation ends at a later line, which is at another place.
    unfold Reader.refused? at hrefused
    rw [Reader.refusedAfter_append, Reader.refusedAfter_of_isRule (hfront rfl), Option.none_or,
      List.nil_append, Reader.refusedAfter, if_pos haccepts] at hrefused
    have hback := Reader.mem_of_refusedAfter hrefused
    rw [herror] at herror'
    have hsame : line.location = line'.location :=
      congrArg ConfigError.location (Except.error.inj herror')
    rw [List.map_append, List.map_cons] at hloc
    refine (List.nodup_cons.1 (List.nodup_append.1 hloc).2.1).1 ?_
    rw [hsame]
    exact List.mem_map_of_mem hback

/-- A lenient compilation has a line that is overlooked in its text. -/
theorem not_honours_lenient (hs : ctx.strictness = .lenient)
    (h : (Reader.ofContext ctx).Overlooks .lenient lines) : ¬ Honours lines ctx := by
  obtain ⟨p, hp, htext, -⟩ := compile_lenient lines hs
  unfold Honours
  simp only [hs]
  rintro ⟨p', hp', htext'⟩
  obtain rfl := Except.ok.inj (hp.symm.trans hp')
  have hfilter := Config.eq_of_sublist_of_textOf_eq
    (Reader.filter_sublist_acceptedAfter [] lines) (htext'.symm.trans htext)
  obtain ⟨front, line, back, rfl, hrule, haccepts, -⟩ := h
  have hmem : line ∈ (Reader.ofContext ctx).accepted (front ++ line :: back) :=
    Reader.mem_accepted haccepts
  unfold Reader.accepted at hmem
  rw [← hfilter] at hmem
  exact hrule (List.mem_filter.1 hmem).2

end Compile

/-- A strict compilation ends at the first line that is not accepted, and a lenient one leaves out
just these lines. That is what strictness says, unless a line that is no rule is overlooked; and
then it is not what strictness says. -/
theorem compile_strictness (lines : List Line) (ctx : Context) :
    (ctx.strictness = .strict →
      match (Reader.ofContext ctx).refused? lines with
      | none => ∃ p, (compile lines ctx).result = .ok p ∧ p.text = Config.textOf lines
      | some line => ∃ fault, (Reader.ofContext ctx).read line.tokens = .error fault ∧
          (compile lines ctx).result = .error (lineError line.location fault)) ∧
    (ctx.strictness = .lenient → ∃ p, (compile lines ctx).result = .ok p ∧
      p.text = Config.textOf ((Reader.ofContext ctx).accepted lines) ∧
        p.digest = Digest.ofText p.text) ∧
    (¬ (Reader.ofContext ctx).Overlooks ctx.strictness lines → Honours lines ctx) ∧
    ((lines.map (·.location)).Nodup → Honours lines ctx →
      ¬ (Reader.ofContext ctx).Overlooks ctx.strictness lines) := by
  refine ⟨compile_strict lines, compile_lenient lines, honours_of_not_overlooks,
    fun hloc hhonours h => ?_⟩
  cases hs : ctx.strictness with
  | strict => exact not_honours_strict hs hloc (hs ▸ h) hhonours
  | lenient => exact not_honours_lenient hs (hs ▸ h) hhonours

/-- A rule, and a line for the same program with a word that there is not. -/
def repeatedLines : List Line := [⟨"r:1", ["/a", "FULL"]⟩, ⟨"r:2", ["/a", "FROBNICATE"]⟩]

/-- A strict reading with the default options, on a kernel of which nothing is known. -/
def strictContext : Context := { sampleContext with strictness := .strict }

theorem repeatedLines_overlooked :
    (Reader.ofContext strictContext).Overlooks .strict repeatedLines :=
  ⟨[⟨"r:1", ["/a", "FULL"]⟩], ⟨"r:2", ["/a", "FROBNICATE"]⟩, [], rfl, by decide +kernel,
    by decide +kernel, fun _ => by decide +kernel⟩

/-- Where lines have to be rules, a line that is none is let pass. -/
theorem repeatedLines_not_honoured :
    (repeatedLines.find? fun line => !(Reader.ofContext strictContext).isRule line).map
        (·.location) = some "r:2" ∧
      (∃ p, (compile repeatedLines strictContext).result = .ok p ∧
        p.text = "/a FULL\n/a FROBNICATE\n") ∧ ¬ Honours repeatedLines strictContext := by
  have hrefused : (Reader.ofContext strictContext).refused? repeatedLines = none := by
    decide +kernel
  have hcompile := @compile_strict strictContext repeatedLines rfl
  rw [hrefused] at hcompile
  exact ⟨by decide +kernel, hcompile, not_honours_strict rfl (by decide) repeatedLines_overlooked⟩

theorem compile_strictness_sample :
    (strictContext.strictness = .strict ∧ (repeatedLines.map (·.location)).Nodup ∧
      ¬ Honours repeatedLines strictContext) ∧
    sampleContext.strictness = .lenient ∧
      ¬ (Reader.ofContext sampleContext).Overlooks sampleContext.strictness
        (sampleLines.take 3) ∧ Honours (sampleLines.take 3) sampleContext := by
  have hnone : ¬ (Reader.ofContext sampleContext).Overlooks sampleContext.strictness
      (sampleLines.take 3) := Reader.not_overlooks (by decide +kernel)
  have hnodup : (repeatedLines.map (·.location)).Nodup := by decide
  obtain ⟨-, -, -, honly⟩ := compile_strictness repeatedLines strictContext
  obtain ⟨-, -, hhonours, -⟩ := compile_strictness (sampleLines.take 3) sampleContext
  exact ⟨⟨rfl, hnodup, fun h => honly hnodup h repeatedLines_overlooked⟩, rfl, hnone,
    hhonours hnone⟩

end PathPolicy.Protection
