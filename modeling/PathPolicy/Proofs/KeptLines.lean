import PathPolicy.Proofs.Strictness

/-!
# A lenient compilation is a strict one of what it keeps

A line is accepted after others because one of them is a rule with its first word, or because it is
a rule itself. Rules are always accepted, so leaving out lines that are not accepted changes nothing
for the lines behind them: of the accepted lines, all are accepted (`Reader.accepted_accepted`), and
none is refused.

A policy depends on nothing but the accepted lines and how they are read. So what a lenient
compilation keeps, a strict one takes as a whole, and both end with the same policy
(`compile_keeps`).
-/

namespace PathPolicy.Protection

open Config (Line)

namespace Reader

variable {r : Reader}

theorem mem_accepted_of_isRule {lines : List Line} {line : Line} (h : line ∈ lines)
    (hrule : r.isRule line = true) : line ∈ r.accepted lines :=
  (filter_sublist_acceptedAfter [] lines).subset (List.mem_filter.2 ⟨h, hrule⟩)

/-- Whether a line is accepted after others depends on the accepted ones among them. -/
theorem accepts_accepted (lines : List Line) (line : Line) :
    r.accepts (r.accepted lines) line = r.accepts lines line := by
  refine Bool.eq_iff_iff.2 ?_
  rw [accepts_iff, accepts_iff]
  refine or_congr_left ⟨fun ⟨a, ha, hhead, hrule⟩ => ?_, fun ⟨a, ha, hhead, hrule⟩ => ?_⟩
  · exact ⟨a, (acceptedAfter_sublist [] lines).subset ha, hhead, hrule⟩
  · exact ⟨a, mem_accepted_of_isRule ha hrule, hhead, hrule⟩

theorem refusedAfter_acceptedAfter (before lines : List Line) :
    r.refusedAfter (r.accepted before) (r.acceptedAfter before lines) = none := by
  induction lines generalizing before with
  | nil => rfl
  | cons a rest ih =>
    -- The accepted lines before `rest` are those before `a`, and `a` if it is accepted.
    have hrest := ih (before ++ [a])
    rw [accepted_append] at hrest
    unfold acceptedAfter
    by_cases ha : r.accepts before a = true
    · rw [if_pos ha] at hrest ⊢
      rw [refusedAfter, accepts_accepted, if_pos ha]
      exact hrest
    · rw [if_neg ha, List.append_nil] at hrest
      rw [if_neg ha]
      exact hrest

theorem refused?_accepted (lines : List Line) : r.refused? (r.accepted lines) = none :=
  refusedAfter_acceptedAfter [] lines

theorem accepted_accepted (lines : List Line) : r.accepted (r.accepted lines) = r.accepted lines :=
  acceptedAfter_eq_self (refused?_accepted lines)

end Reader

section Policies

variable {lines lines' : List Line} {ctx : Context} {s s' : Strictness} {p p' : Policy}

/-- A policy depends on what is accepted. Strictness decides whether there is one, not which. -/
theorem policy_eq_of_accepted
    (haccepted : (Reader.ofContext ctx).accepted lines = (Reader.ofContext ctx).accepted lines')
    (hp : (compile lines { ctx with strictness := s }).result = .ok p)
    (hp' : (compile lines' { ctx with strictness := s' }).result = .ok p') : p = p' := by
  obtain ⟨d, hd : d.Of (Reader.ofContext ctx) lines, rfl⟩ := draft_of_compile hp
  obtain ⟨d', hd' : d'.Of (Reader.ofContext ctx) lines', rfl⟩ := draft_of_compile hp'
  have hrules : Blob.sorted d.rules.reverse = Blob.sorted d'.rules.reverse :=
    (hd.sorted_eq_iff hd').2 fun rule =>
      Reader.gives_congr (congrArg (List.map (·.tokens)) haccepted) fun line _ => rfl
  have htext := congrArg Config.textOf haccepted
  rw [hrules]
  exact congrArg (fun text => Policy.mk (Blob.bytesOf (Blob.sorted d'.rules.reverse)
    (Digest.ofText text)) (Digest.ofText text) text) htext

theorem exists_policy_of_refused?_eq_none (hstrict : ctx.strictness = .strict)
    (h : (Reader.ofContext ctx).refused? lines = none) :
    ∃ p, (compile lines ctx).result = .ok p := by
  have hcompile := compile_strict lines hstrict
  rw [h] at hcompile
  obtain ⟨p, hp, -⟩ := hcompile
  exact ⟨p, hp⟩

/-- A lenient compilation always has a policy, whose text is made of a part of the lines in their
order. Of these lines alone, a strict compilation makes the same policy; and if it makes one of all
lines, it is that policy too. -/
theorem compile_keeps (lines : List Line) (ctx : Context) :
    ∃ d p, collect (Reader.ofContext ctx) .lenient Draft.empty lines = (d, none) ∧
      d.accepted.reverse.Sublist lines ∧ p.text = Config.textOf d.accepted.reverse ∧
      (compile lines { ctx with strictness := .lenient }).result = .ok p ∧
      (compile d.accepted.reverse { ctx with strictness := .strict }).result = .ok p ∧
      ∀ q, (compile lines { ctx with strictness := .strict }).result = .ok q → q = p := by
  rcases outcome_compile lines { ctx with strictness := .lenient } with
    ⟨d, hd, hcollect, hresult, -⟩ | ⟨hstrict, -⟩
  · have hkept : d.accepted.reverse = (Reader.ofContext ctx).accepted lines := hd.accepted
    have hp := hresult.trans hd.finish_eq_ok
    obtain ⟨q, hq⟩ := @exists_policy_of_refused?_eq_none _ { ctx with strictness := .strict } rfl
      (Reader.refused?_accepted lines)
    obtain rfl := policy_eq_of_accepted (Reader.accepted_accepted lines) hq hp
    refine ⟨d, _, hcollect, ?_, congrArg Config.textOf hkept.symm, hp, ?_,
      fun q hq => policy_eq_of_accepted rfl hq hp⟩
    · rw [hkept]
      exact Reader.acceptedAfter_sublist [] lines
    · rw [hkept]
      exact hq
  · cases hstrict

/-- A strict compilation lets the second line pass, and so does a lenient one. -/
theorem compile_keeps_repeatedLines :
    ∃ q, (compile repeatedLines strictContext).result = .ok q ∧
      (compile repeatedLines sampleContext).result = .ok q := by
  obtain ⟨q, hq⟩ : ∃ q, (compile repeatedLines strictContext).result = .ok q :=
    exists_policy_of_refused?_eq_none rfl (by decide +kernel)
  obtain ⟨-, p, -, -, -, hp, -, hsame⟩ := compile_keeps repeatedLines sampleContext
  obtain rfl := hsame q hq
  exact ⟨q, hq, hp⟩

end Policies

end PathPolicy.Protection
