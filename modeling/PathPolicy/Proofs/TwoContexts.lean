import PathPolicy.Proofs.Strictness

/-!
# Lines in two contexts

Where every line has to be a rule, lines that give a policy in two contexts give two policies about
the same programs. Their texts and digests are the same, and they have their records one by one from
the same lines (`exists_records_of_strict`). What two readers make of a line is about the same
program; it is the same if they differ in what they know about images only.
-/

namespace PathPolicy.Protection

open Config (Line)

/-! ## One line -/

namespace Reader

variable {r r' : Reader} {tokens : List String} {a b : Rule}

theorem path_eq_of_read (ha : r.read tokens = .ok a) (hb : r'.read tokens = .ok b) :
    (a.path, a.exact) = (b.path, b.exact) := by
  have ha := (read_eq_ok.1 ha).1
  have hb := (read_eq_ok.1 hb).1
  cases tokens with
  | nil => cases ha
  | cons word columns =>
    obtain ⟨-, hsplit, -⟩ := readText_cons_eq_ok.1 ha
    obtain ⟨-, hsplit', -⟩ := readText_cons_eq_ok.1 hb
    exact hsplit.trans hsplit'.symm

/-- What is known about images only decides whether a line is a rule, not which. -/
theorem eq_of_read (hsupport : r'.support = r.support) (ha : r.read tokens = .ok a)
    (hb : r'.read tokens = .ok b) : a = b := by
  have hflags := (reads_of_read ha).flags
  rw [← hsupport, (reads_of_read hb).flags] at hflags
  obtain ⟨hpath, hexact⟩ := Prod.mk.inj (path_eq_of_read ha hb)
  cases a
  cases b
  simp_all

end Reader

/-! ## Sorted records -/

theorem Rule.pattern_eq {a b : Rule} (h : (a.path, a.exact) = (b.path, b.exact)) :
    a.pattern = b.pattern := by
  obtain ⟨hpath, hexact⟩ := Prod.mk.inj h
  unfold Rule.pattern
  rw [hpath, hexact]

theorem Blob.forall₂_of_sorted {R : Rule → Rule → Prop} {rules rules' : List Rule}
    (hs : rules.Pairwise Precedes) (hs' : rules'.Pairwise Precedes)
    (hleft : ∀ a ∈ rules, ∃ b ∈ rules', a.pattern = b.pattern ∧ R a b)
    (hright : ∀ b ∈ rules', ∃ a ∈ rules, a.pattern = b.pattern) : List.Forall₂ R rules rules' := by
  have hnodup : ∀ {l : List Rule}, l.Pairwise Precedes → (l.map Rule.pattern).Nodup :=
    fun h => List.pairwise_map.2 (h.imp fun hab => hab.2)
  have hsorted : ∀ {l : List Rule}, l.Pairwise Precedes →
      (l.map Rule.pattern).Pairwise fun p q => p.isBefore q :=
    fun h => List.pairwise_map.2 (h.imp fun hab => hab.1)
  have hperm : (rules.map Rule.pattern).Perm (rules'.map Rule.pattern) := by
    refine (List.perm_ext_iff_of_nodup (hnodup hs) (hnodup hs')).2 fun p => ?_
    simp only [List.mem_map]
    constructor
    · rintro ⟨a, ha, rfl⟩
      obtain ⟨b, hb, hab, -⟩ := hleft a ha
      exact ⟨b, hb, hab.symm⟩
    · rintro ⟨b, hb, rfl⟩
      exact hright b hb
  have hpatterns : rules.map Rule.pattern = rules'.map Rule.pattern :=
    hperm.eq_of_pairwise (fun _ _ _ _ hab hba => Pattern.isBefore_antisymm hab hba) (hsorted hs)
      (hsorted hs')
  have hsame : List.Forall₂ (fun a b : Rule => a.pattern = b.pattern) rules rules' := by
    rw [← List.forall₂_map_right_iff, ← List.forall₂_map_left_iff, List.forall₂_eq_eq_eq]
    exact hpatterns
  obtain ⟨hlength, hzip⟩ := List.forall₂_iff_zip.1 hsame
  refine List.forall₂_iff_zip.2 ⟨hlength, fun {a b} hab => ?_⟩
  obtain ⟨ha, hb⟩ := List.of_mem_zip hab
  obtain ⟨c, hc, hac, hR⟩ := hleft a ha
  -- The rule that is paired with `a` has the pattern of `b`, so it is `b`.
  have hne : rules'.Pairwise fun x y => x.pattern ≠ y.pattern := hs'.imp fun h => h.2
  have hfind := (find?_key_iff Rule.pattern hne).2 ⟨hc, hac.symm.trans (hzip hab)⟩
  rw [(find?_key_iff Rule.pattern hne).2 ⟨hb, rfl⟩] at hfind
  exact Option.some.inj hfind ▸ hR

/-! ## Policies -/

section Policies

variable {lines : List Line} {ctx ctx' : Context} {p p' : Policy}

/-- Where every line has to be a rule, a policy is that of a draft which has accepted all lines. -/
theorem draft_of_strict (hstrict : ctx.strictness = .strict)
    (hp : (compile lines ctx).result = .ok p) : ∃ d : Draft, d.Of (Reader.ofContext ctx) lines ∧
      (Reader.ofContext ctx).accepted lines = lines ∧
      p = ⟨Blob.bytesOf (Blob.sorted d.rules.reverse) (Digest.ofText (Config.textOf lines)),
        Digest.ofText (Config.textOf lines), Config.textOf lines⟩ := by
  rcases outcome_compile lines ctx with
    ⟨d, hd, -, hresult, hnone⟩ | ⟨-, line, fault, -, -, herror⟩
  · have haccepted : (Reader.ofContext ctx).accepted lines = lines :=
      Reader.acceptedAfter_eq_self (hnone hstrict)
    rw [hresult, hd.finish_eq_ok, haccepted] at hp
    exact ⟨d, hd, haccepted, (Except.ok.inj hp).symm⟩
  · rw [herror] at hp
    cases hp

theorem Draft.Of.exists_rule {r r' : Reader} {d d' : Draft} (hd : d.Of r lines)
    (hd' : d'.Of r' lines) (hall : r.accepted lines = lines) (hall' : r'.accepted lines = lines)
    {a : Rule} (ha : a ∈ d.rules) :
    ∃ b ∈ d'.rules, ∃ line ∈ lines, r.read line.tokens = .ok a ∧ r'.read line.tokens = .ok b := by
  obtain ⟨line, hfind, hread⟩ := hd.first a ha
  rw [hall] at hfind
  have hline := List.mem_of_find?_eq_some hfind
  have hseen := hd'.mem_seen_of_accepted (hall'.symm ▸ hline) (Reader.reads_of_read hread).head
  rw [hd'.seen] at hseen
  obtain ⟨b, hb, hwritten⟩ := List.mem_map.1 hseen
  obtain ⟨line', hfind', hread'⟩ := hd'.first b hb
  rw [hall', hwritten, hfind] at hfind'
  obtain rfl := Option.some.inj hfind'
  exact ⟨b, hb, line, hline, hread, hread'⟩

/-- The policies of the same lines have their records from the same lines, one by one. -/
theorem exists_records_of_strict (hstrict : ctx.strictness = .strict)
    (hstrict' : ctx'.strictness = .strict) (hp : (compile lines ctx).result = .ok p)
    (hp' : (compile lines ctx').result = .ok p') : p'.digest = p.digest ∧ p'.text = p.text ∧
      ∃ rules rules', p.binary = Blob.bytesOf rules p.digest ∧
        p'.binary = Blob.bytesOf rules' p.digest ∧
        (∀ a ∈ rules, Blob.Recordable a) ∧ (∀ b ∈ rules', Blob.Recordable b) ∧
        List.Forall₂ (fun a b => ∃ line ∈ lines, (Reader.ofContext ctx).read line.tokens = .ok a ∧
          (Reader.ofContext ctx').read line.tokens = .ok b) rules rules' := by
  obtain ⟨d, hd, hall, rfl⟩ := draft_of_strict hstrict hp
  obtain ⟨d', hd', hall', rfl⟩ := draft_of_strict hstrict' hp'
  refine ⟨rfl, rfl, _, _, rfl, rfl, fun a ha => hd.recordable (hd.perm_sorted.mem_iff.1 ha),
    fun b hb => hd'.recordable (hd'.perm_sorted.mem_iff.1 hb),
    Blob.forall₂_of_sorted (Blob.pairwise_sorted _) (Blob.pairwise_sorted _) (fun a ha => ?_)
      fun b hb => ?_⟩
  · obtain ⟨b, hb, line, hline, hread, hread'⟩ :=
      hd.exists_rule hd' hall hall' (hd.perm_sorted.mem_iff.1 ha)
    exact ⟨b, hd'.perm_sorted.mem_iff.2 hb, Rule.pattern_eq (Reader.path_eq_of_read hread hread'),
      line, hline, hread, hread'⟩
  · obtain ⟨a, ha, line, hline, hread', hread⟩ :=
      hd'.exists_rule hd hall' hall (hd'.perm_sorted.mem_iff.1 hb)
    exact ⟨a, hd.perm_sorted.mem_iff.2 ha, Rule.pattern_eq (Reader.path_eq_of_read hread hread')⟩

/-- What is known about images decides whether there is a policy, not which. -/
theorem policy_eq_of_strict (hstrict : ctx.strictness = .strict)
    (hstrict' : ctx'.strictness = .strict)
    (hsupport : (Reader.ofContext ctx').support = (Reader.ofContext ctx).support)
    (hp : (compile lines ctx).result = .ok p) (hp' : (compile lines ctx').result = .ok p') :
    p' = p := by
  obtain ⟨hdigest, htext, rules, rules', hbinary, hbinary', -, -, hrules⟩ :=
    exists_records_of_strict hstrict hstrict' hp hp'
  have heq : List.Forall₂ Eq rules rules' :=
    hrules.imp fun _ _ ⟨_, _, hread, hread'⟩ => Reader.eq_of_read hsupport hread hread'
  rw [List.forall₂_eq_eq_eq] at heq
  subst heq
  cases p
  cases p'
  simp_all

end Policies

end PathPolicy.Protection
