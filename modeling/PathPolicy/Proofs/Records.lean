import Mathlib.Data.List.Perm.Subperm
import PathPolicy.Proofs.RecordForm
import PathPolicy.Proofs.Specificity
import PathPolicy.Proofs.TableFormat

/-!
# Records of protection rules

Which rules get a record: for each pattern the first rule with it, in strict order of specificity
(`find?_sorted`, `pairwise_sorted`). Sorting is stable, so that the first rule with a pattern stays
the first one with it, and dropping what follows an equal pattern drops all the others.

The records are read back from the binary form (`decode_encode`), which does not depend on the order
of the rules if there is one for each pattern (`encode_canonical`).
-/

namespace PathPolicy.Protection

theorem Rule.length_bytes_pattern (r : Rule) : r.pattern.bytes.length = r.path.utf8ByteSize :=
  Bytes.length_ofString r.path

namespace Blob

/-! ## The first rule with a pattern -/

section First

variable {rules : List Rule} (p : Pattern)

theorem find?_after (kept : Rule) (rest : List Rule) :
    (dedup.after kept rest).find? (·.pattern = p) = (kept :: rest).find? (·.pattern = p) := by
  induction rest generalizing kept with
  | nil => rfl
  | cons r rest ih =>
    unfold dedup.after
    by_cases hr : r.pattern = kept.pattern
    · rw [if_pos hr, ih]
      by_cases hp : kept.pattern = p <;> simp [hr, hp]
    · rw [if_neg hr]
      simp only [List.find?_cons, ih]

theorem find?_dedup (l : List Rule) :
    (dedup l).find? (·.pattern = p) = l.find? (·.pattern = p) := by
  cases l with
  | nil => rfl
  | cons r rest => exact find?_after p r rest

theorem isBefore_trans (a b c : Rule) (hab : a.isBefore b = true) (hbc : b.isBefore c = true) :
    a.isBefore c = true :=
  Pattern.isBefore_trans hab hbc

theorem isBefore_total (a b : Rule) : (a.isBefore b || b.isBefore a) = true :=
  Pattern.isBefore_total a.pattern b.pattern

/-- Sorting keeps rules with one pattern in their order. -/
theorem filter_mergeSort (l : List Rule) :
    (l.mergeSort Rule.isBefore).filter (·.pattern = p) = l.filter (·.pattern = p) := by
  have hpair : (l.filter (·.pattern = p)).Pairwise fun a b => a.isBefore b = true := by
    refine List.pairwise_iff_forall_sublist.2 fun {a b} hab => ?_
    have ha := (List.mem_filter.1 (hab.subset List.mem_cons_self)).2
    have hb := (List.mem_filter.1 (hab.subset (List.mem_cons_of_mem a List.mem_cons_self))).2
    unfold Rule.isBefore
    rw [of_decide_eq_true ha, of_decide_eq_true hb]
    exact Pattern.isBefore_refl p
  have hsub : (l.filter (·.pattern = p)).Sublist (l.mergeSort Rule.isBefore) :=
    List.sublist_mergeSort isBefore_trans isBefore_total hpair List.filter_sublist
  have hfilter := hsub.filter (·.pattern = p)
  rw [List.filter_filter, List.filter_congr fun a _ => Bool.and_self _] at hfilter
  exact (hfilter.eq_of_length ((List.mergeSort_perm l _).filter _).length_eq.symm).symm

/-- The record for a pattern is that of the first rule with it. -/
theorem find?_sorted (rules : List Rule) :
    (sorted rules).find? (·.pattern = p) = rules.find? (·.pattern = p) := by
  unfold sorted
  rw [find?_dedup, ← List.head?_filter, filter_mergeSort, List.head?_filter]

end First

/-! ## The order of the records -/

/-- Strictly more specific. -/
def Precedes (a b : Rule) : Prop := a.pattern.isBefore b.pattern ∧ a.pattern ≠ b.pattern

theorem pairwise_after {kept : Rule} {rest : List Rule}
    (h : (kept :: rest).Pairwise fun a b => a.pattern.isBefore b.pattern) :
    (dedup.after kept rest).Pairwise Precedes ∧
      ∀ r ∈ dedup.after kept rest, r = kept ∨ r ∈ rest ∧ kept.pattern ≠ r.pattern := by
  induction rest generalizing kept with
  | nil => exact ⟨List.pairwise_singleton _ _, fun r hr => .inl (List.mem_singleton.1 hr)⟩
  | cons s rest ih =>
    obtain ⟨hkept, hrest⟩ := List.pairwise_cons.1 h
    unfold dedup.after
    by_cases hs : s.pattern = kept.pattern
    · rw [if_pos hs]
      have hkept' : (kept :: rest).Pairwise fun a b => a.pattern.isBefore b.pattern :=
        h.sublist ((List.sublist_cons_self s rest).cons_cons kept)
      obtain ⟨hpair, hmem⟩ := ih hkept'
      refine ⟨hpair, fun r hr => (hmem r hr).imp id ?_⟩
      exact fun ⟨hr, hne⟩ => ⟨List.mem_cons_of_mem s hr, hne⟩
    · rw [if_neg hs]
      obtain ⟨hpair, hmem⟩ := ih hrest
      -- What comes after a rule with another pattern has another pattern as well.
      have hne : ∀ r ∈ s :: rest, kept.pattern ≠ r.pattern := by
        intro r hr heq
        rcases List.mem_cons.1 hr with rfl | hr
        · exact hs heq.symm
        · have hsr := (List.pairwise_cons.1 hrest).1 r hr
          have hks := hkept s List.mem_cons_self
          rw [← heq] at hsr
          exact hs (Pattern.isBefore_antisymm hsr hks)
      have hsub : ∀ r ∈ dedup.after s rest, r ∈ s :: rest := by
        intro r hr
        rcases hmem r hr with rfl | ⟨hr, -⟩
        · exact List.mem_cons_self
        · exact List.mem_cons_of_mem s hr
      refine ⟨List.pairwise_cons.2 ⟨fun r hr => ?_, hpair⟩, fun r hr => ?_⟩
      · exact ⟨hkept r (hsub r hr), hne r (hsub r hr)⟩
      · rcases List.mem_cons.1 hr with rfl | hr
        · exact .inl rfl
        · exact .inr ⟨hsub r hr, hne r (hsub r hr)⟩

theorem pairwise_sorted (rules : List Rule) : (sorted rules).Pairwise Precedes := by
  have hsorted : (rules.mergeSort Rule.isBefore).Pairwise fun a b =>
      a.pattern.isBefore b.pattern := List.pairwise_mergeSort isBefore_trans isBefore_total rules
  unfold sorted
  cases hl : rules.mergeSort Rule.isBefore with
  | nil => exact List.Pairwise.nil
  | cons r rest =>
    rw [hl] at hsorted
    exact (pairwise_after hsorted).1

/-- A rule has a record iff it is the first one with its pattern. -/
theorem mem_sorted_iff {rules : List Rule} {r : Rule} :
    r ∈ sorted rules ↔ rules.find? (·.pattern = r.pattern) = some r := by
  rw [← find?_sorted]
  refine ⟨fun hr => ?_, List.mem_of_find?_eq_some⟩
  exact (find?_key_iff Rule.pattern ((pairwise_sorted rules).imp fun h => h.2)).2 ⟨hr, rfl⟩

theorem mem_of_mem_sorted {rules : List Rule} {r : Rule} (h : r ∈ sorted rules) : r ∈ rules :=
  List.mem_of_find?_eq_some (mem_sorted_iff.1 h)

theorem Precedes.specificity {a b : Rule} (h : Precedes a b) :
    a.pattern.specificity b.pattern = .lt := by
  obtain ⟨hle, hne⟩ := h
  unfold Pattern.isBefore at hle
  cases hab : a.pattern.specificity b.pattern with
  | lt => rfl
  | eq => exact absurd (Pattern.specificity_eq_eq_iff.1 hab) hne
  | gt =>
    rw [hab] at hle
    cases hle

theorem exists_mem_sorted {rules : List Rule} {r : Rule} (hr : r ∈ rules) :
    ∃ s ∈ sorted rules, s.pattern = r.pattern := by
  have hsome : ((sorted rules).find? (·.pattern = r.pattern)).isSome := by
    rw [find?_sorted, List.find?_isSome]
    exact ⟨r, hr, decide_eq_true rfl⟩
  obtain ⟨s, hs⟩ := Option.isSome_iff_exists.1 hsome
  exact ⟨s, List.mem_of_find?_eq_some hs, by simpa using List.find?_some hs⟩

theorem length_sorted_le (rules : List Rule) : (sorted rules).length ≤ rules.length := by
  have hnodup : (sorted rules).Nodup :=
    (pairwise_sorted rules).imp fun h heq => h.2 (congrArg Rule.pattern heq)
  exact (hnodup.subperm fun _ => mem_of_mem_sorted).length_le

/-- What gets a record depends on nothing but the first rule with each pattern. -/
theorem sorted_congr {rules rules' : List Rule}
    (h : ∀ p, rules.find? (·.pattern = p) = rules'.find? (·.pattern = p)) :
    sorted rules = sorted rules' := by
  refine eq_of_find?_eq Rule.pattern (pairwise_sorted rules) (pairwise_sorted rules') fun p => ?_
  rw [find?_sorted, find?_sorted, h]

theorem sorted_sorted (rules : List Rule) : sorted (sorted rules) = sorted rules :=
  sorted_congr fun p => find?_sorted p rules

/-- Rules for different patterns may come in any order. -/
theorem sorted_perm {rules rules' : List Rule}
    (hd : rules.Pairwise fun a b => a.pattern ≠ b.pattern) (h : rules'.Perm rules) :
    sorted rules' = sorted rules := by
  have hd' := h.symm.pairwise hd fun hne => hne.symm
  refine sorted_congr fun p => Option.ext fun r => ?_
  rw [find?_key_iff Rule.pattern hd', find?_key_iff Rule.pattern hd, h.mem_iff]

/-! ## Reading what was written -/

/-- A rule whose record says all of it. -/
structure Recordable (r : Rule) : Prop where
  length_le : r.path.utf8ByteSize ≤ pathLimit
  isValid : r.flags.isValid = true

theorem Recordable.isRecord {r : Rule} (hr : Recordable r) : IsRecord r (record r) := by
  refine .intro ?_ hr.isValid (by cases r.exact <;> decide)
  have hle := hr.length_le
  unfold pathLimit at hle
  rw [UInt16.toNat_ofNat']
  omega

theorem readRecord_append {r : Rule} (hr : Recordable r) (rest : Bytes) :
    readRecord (record r ++ rest) = .ok (r, rest) :=
  (consumes_readRecord hr.isRecord).whole rest

theorem forall₂_isRecord {rs : List Rule} (hrs : ∀ r ∈ rs, Recordable r) :
    List.Forall₂ IsRecord rs (rs.map record) :=
  List.forall₂_map_right_iff.2 (List.forall₂_same.2 fun r hr => (hrs r hr).isRecord)

theorem readRecords_append {rs : List Rule} (hrs : ∀ r ∈ rs, Recordable r) (rest : Bytes) :
    readRecords [] rs.length (rs.flatMap record ++ rest) = .ok (rs, rest) :=
  (consumes_readRecords (forall₂_isRecord hrs) []).whole rest

theorem readHeader_append (count : UInt32) (d : Digest) (rest : Bytes) :
    readHeader (Bytes.ofUInt32 version ++ (Bytes.ofUInt32 count ++ (d.bytes ++ rest))) =
      .ok ((count.toNat, d), rest) := by
  have hwhole := (consumes_readHeader count d).whole rest
  simpa only [List.append_assoc] using hwhole

section Decode

variable {rules : List Rule} {d : Digest}

/-- The binary form of the rules that get a record. -/
def bytesOf (rs : List Rule) (d : Digest) : Bytes :=
  magic ++ Bytes.ofUInt32 version ++ Bytes.ofUInt32 (UInt32.ofNat rs.length) ++ d.bytes
    ++ rs.flatMap record

theorem encode_eq_ok (h : ∀ r ∈ rules, r.path.utf8ByteSize ≤ pathLimit) :
    encode rules d = .ok (bytesOf (sorted rules) d) := by
  have hnone : (sorted rules).find? (fun r => pathLimit < r.path.utf8ByteSize) = none := by
    rw [List.find?_eq_none]
    intro r hr
    have := h r (mem_of_mem_sorted hr)
    simp only [decide_eq_true_eq]
    omega
  unfold encode
  simp only [hnone]
  rfl

theorem isPrefixOf_bytesOf (rs : List Rule) (d : Digest) :
    magic.isPrefixOf (bytesOf rs d) = true := by
  unfold bytesOf
  simp only [List.append_assoc]
  exact List.isPrefixOf_iff_prefix.2 (List.prefix_append _ _)

theorem drop_bytesOf (rs : List Rule) (d : Digest) :
    (bytesOf rs d).drop magic.length =
      Bytes.ofUInt32 version ++ (Bytes.ofUInt32 (UInt32.ofNat rs.length) ++
        (d.bytes ++ rs.flatMap record)) := by
  unfold bytesOf
  simp only [List.append_assoc, List.drop_left]

theorem isForm_bytesOf {rs : List Rule} (hrs : ∀ r ∈ rs, Recordable r)
    (hlen : rs.length < 2 ^ 32) : IsForm d rs (bytesOf rs d) :=
  .intro (Packed.toNat_ofNat_of_lt hlen) (forall₂_isRecord hrs)

theorem decode_bytesOf {rs : List Rule} (hrs : ∀ r ∈ rs, Recordable r)
    (hlen : rs.length < 2 ^ 32) : decode (bytesOf rs d) = .ok (d, rs) :=
  (isForm_bytesOf hrs hlen).decode

theorem length_lt_of_decode {rs : List Rule} (hrs : ∀ r ∈ rs, Recordable r)
    {x : Digest × List Rule} (h : decode (bytesOf rs d) = .ok x) : rs.length < 2 ^ 32 := by
  by_contra hlen
  -- The count is too small, so that the last records are left over.
  obtain ⟨n, hn, hcount⟩ : ∃ n < rs.length, (UInt32.ofNat rs.length).toNat = n := by
    refine ⟨_, ?_, rfl⟩
    rw [UInt32.toNat_ofNat']
    omega
  have hfront : (rs.take n).length = n := List.length_take_of_le hn.le
  have hrecordable : ∀ r ∈ rs.take n, Recordable r := fun r hr => hrs r (List.mem_of_mem_take hr)
  have hread := readRecords_append hrecordable ((rs.drop n).flatMap record)
  rw [hfront, ← List.flatMap_append, List.take_append_drop] at hread
  have hrest : ((rs.drop n).flatMap record).isEmpty = false := by
    rw [List.drop_eq_getElem_cons hn, List.flatMap_cons]
    rfl
  unfold decode at h
  rw [isPrefixOf_bytesOf, drop_bytesOf, readHeader_append, hcount] at h
  simp only [bind, Except.bind, Bool.not_true, Bool.false_eq_true, if_false, hread, hrest] at h
  cases h

/-- No digest but the one that was written is read back, whatever the records are. -/
theorem digest_of_decode {rs rs' : List Rule} {d' : Digest}
    (h : decode (bytesOf rs d) = .ok (d', rs')) : d' = d := by
  have hheader := readHeader_append (UInt32.ofNat rs.length) d (rs.flatMap record)
  unfold decode at h
  rw [isPrefixOf_bytesOf, drop_bytesOf, hheader] at h
  simp only [bind, Except.bind, Bool.not_true, Bool.false_eq_true, if_false] at h
  split at h
  · cases h
  · split at h
    · exact (Prod.mk.inj (Except.ok.inj h)).1.symm
    · cases h

theorem flatMap_record_inj {rs rs' : List Rule} (hrs : ∀ r ∈ rs, Recordable r)
    (hrs' : ∀ r ∈ rs', Recordable r) (h : rs.flatMap record = rs'.flatMap record) : rs = rs' := by
  induction rs generalizing rs' with
  | nil =>
    cases rs' with
    | nil => rfl
    | cons r' more' => simp [record, Bytes.ofUInt16] at h
  | cons r more ih =>
    cases rs' with
    | nil => simp [record, Bytes.ofUInt16] at h
    | cons r' more' =>
      obtain ⟨hr, hmore⟩ := List.forall_mem_cons.1 hrs
      obtain ⟨hr', hmore'⟩ := List.forall_mem_cons.1 hrs'
      rw [List.flatMap_cons, List.flatMap_cons] at h
      have hread := readRecord_append hr (more.flatMap record)
      rw [h, readRecord_append hr'] at hread
      obtain ⟨rfl, hrest⟩ := Prod.mk.inj (Except.ok.inj hread)
      rw [ih hmore hmore' hrest.symm]

theorem bytesOf_eq_iff {rs rs' : List Rule} {d' : Digest} (hrs : ∀ r ∈ rs, Recordable r)
    (hrs' : ∀ r ∈ rs', Recordable r) : bytesOf rs d = bytesOf rs' d' ↔ d = d' ∧ rs = rs' := by
  constructor
  · intro h
    have hdrop := congrArg (List.drop magic.length) h
    rw [drop_bytesOf, drop_bytesOf] at hdrop
    have hread := readHeader_append (UInt32.ofNat rs.length) d (rs.flatMap record)
    rw [hdrop, readHeader_append] at hread
    obtain ⟨hheader, hrest⟩ := Prod.mk.inj (Except.ok.inj hread)
    exact ⟨(Prod.mk.inj hheader).2.symm, flatMap_record_inj hrs hrs' hrest.symm⟩
  · rintro ⟨rfl, rfl⟩
    rfl

/-- Rules are read back as the first rule for each pattern, in strict order of specificity. -/
theorem decode_encode (h : ∀ r ∈ rules, Recordable r) (hlen : (sorted rules).length < 2 ^ 32) :
    ∃ b, encode rules d = .ok b ∧ decode b = .ok (d, sorted rules) :=
  ⟨_, encode_eq_ok fun r hr => (h r hr).length_le,
    decode_bytesOf (fun r hr => h r (mem_of_mem_sorted hr)) hlen⟩

/-- Rules have no binary form only because the longest path does not fit in a record. -/
theorem encode_eq_error {fault : Fault} (h : encode rules d = .error fault) :
    ∃ r ∈ rules, pathLimit < r.path.utf8ByteSize ∧ fault = .pathTooLong r.path.utf8ByteSize ∧
      ∀ r' ∈ rules, r'.path.utf8ByteSize ≤ r.path.utf8ByteSize := by
  unfold encode at h
  cases hf : (sorted rules).find? fun r => pathLimit < r.path.utf8ByteSize with
  | none =>
    simp only [hf] at h
    cases h
  | some r =>
    simp only [hf] at h
    obtain ⟨hlimit, before, after, hsplit, hbefore⟩ := List.find?_eq_some_iff_append.1 hf
    have hr : r ∈ sorted rules := List.mem_of_find?_eq_some hf
    refine ⟨r, mem_of_mem_sorted hr, of_decide_eq_true hlimit, (Except.error.inj h).symm,
      fun r' hr' => ?_⟩
    -- What comes before the first path that is too long is not, and what comes after is shorter.
    obtain ⟨s, hs, hpattern⟩ := exists_mem_sorted hr'
    rw [← r'.length_bytes_pattern, ← hpattern, s.length_bytes_pattern]
    have hsorted := pairwise_sorted rules
    rw [hsplit] at hs hsorted
    rcases List.mem_append.1 hs with hs | hs
    · have hshort := hbefore s hs
      simp only [Bool.not_eq_true', decide_eq_false_iff_not, decide_eq_true_eq] at hshort hlimit
      omega
    · rcases List.mem_cons.1 hs with rfl | hs
      · exact Nat.le_refl _
      · have hrs := (List.pairwise_cons.1 (List.pairwise_append.1 hsorted).2.1).1 s hs
        rw [← s.length_bytes_pattern, ← r.length_bytes_pattern]
        exact Pattern.length_le_of_isBefore hrs.1

theorem length_le_of_encode {b : Bytes} (h : encode rules d = .ok b) {r : Rule} (hr : r ∈ rules) :
    r.path.utf8ByteSize ≤ pathLimit := by
  obtain ⟨s, hs, hpattern⟩ := exists_mem_sorted hr
  rw [← r.length_bytes_pattern, ← hpattern, s.length_bytes_pattern]
  by_contra hlimit
  unfold encode at h
  cases hf : (sorted rules).find? fun r => pathLimit < r.path.utf8ByteSize with
  | none =>
    exact List.find?_eq_none.1 hf s hs (decide_eq_true (Nat.lt_of_not_le hlimit))
  | some r =>
    simp only [hf] at h
    cases h

theorem encode_congr {rules' : List Rule} (h : sorted rules = sorted rules') :
    encode rules d = encode rules' d := by
  unfold encode
  rw [h]

/-- The rules for a path and a kind among those that get a record: the first one, if there is
one. -/
theorem filter_sorted (rules : List Rule) (path : String) (exact : Bool) :
    (sorted rules).filter (fun r => r.path = path ∧ r.exact = exact) =
      (rules.find? fun r => r.path = path ∧ r.exact = exact).toList := by
  have hkey : (fun r : Rule => decide (r.path = path ∧ r.exact = exact)) =
      fun r => decide (r.pattern = ⟨Bytes.ofString path, exact⟩) := by
    funext r
    rw [decide_eq_decide, Rule.pattern, Pattern.mk.injEq]
    exact and_congr_left fun _ => ⟨congrArg Bytes.ofString, Bytes.ofString_inj⟩
  rw [hkey, ← find?_sorted]
  exact filter_key_eq Rule.pattern ((pairwise_sorted rules).imp fun h => h.2) _

/-- Rules have a binary form unless a path does not fit in a record; then the longest one is
reported. What is read back from the form is the first rule for each path and kind, in strict order
of specificity, and this has the same form. Rules for different paths or kinds have one form in
every order. -/
theorem encode_canonical (rules : List Rule) (hlen : rules.length < 2 ^ 32) (d : Digest) :
    ((∃ fault, encode rules d = .error fault) ↔ ∃ r ∈ rules, 65535 < r.path.utf8ByteSize) ∧
    (∀ fault, encode rules d = .error fault →
      ∃ r ∈ rules, fault = .pathTooLong r.path.utf8ByteSize ∧
        ∀ r' ∈ rules, r'.path.utf8ByteSize ≤ r.path.utf8ByteSize) ∧
    ((∀ r ∈ rules, r.path.utf8ByteSize ≤ 65535) → (∀ r ∈ rules, r.flags.isValid) →
      ∃ b canonical, encode rules d = .ok b ∧ decode b = .ok (d, canonical) ∧
        canonical.Pairwise (fun a b => a.pattern.specificity b.pattern = .lt) ∧
        (∀ path exact, canonical.filter (fun r => r.path = path ∧ r.exact = exact) =
          (rules.find? fun r => r.path = path ∧ r.exact = exact).toList) ∧
        encode canonical d = .ok b) ∧
    (rules.Pairwise (fun a b => (a.path, a.exact) ≠ (b.path, b.exact)) →
      ∀ rules', rules'.Perm rules → encode rules' d = encode rules d) := by
  refine ⟨⟨?_, ?_⟩, ?_, ?_, ?_⟩
  · rintro ⟨fault, h⟩
    obtain ⟨r, hr, hlimit, -⟩ := encode_eq_error h
    exact ⟨r, hr, hlimit⟩
  · rintro ⟨r, hr, hlimit⟩
    cases h : encode rules d with
    | error fault => exact ⟨fault, rfl⟩
    | ok b => exact absurd (length_le_of_encode h hr) (Nat.not_le_of_lt hlimit)
  · intro fault h
    obtain ⟨r, hr, -, hrest⟩ := encode_eq_error h
    exact ⟨r, hr, hrest⟩
  · intro hsize hvalid
    have hcount : (sorted rules).length < 2 ^ 32 := Nat.lt_of_le_of_lt (length_sorted_le rules) hlen
    obtain ⟨b, hencode, hdecode⟩ :=
      decode_encode (d := d) (fun r hr => ⟨hsize r hr, hvalid r hr⟩) hcount
    refine ⟨b, sorted rules, hencode, hdecode, (pairwise_sorted rules).imp (·.specificity),
      filter_sorted rules, ?_⟩
    rw [encode_congr (sorted_sorted rules), hencode]
  · intro hd rules' hperm
    refine encode_congr (sorted_perm (hd.imp fun hne heq => hne ?_) hperm)
    obtain ⟨hbytes, hexact⟩ := Pattern.mk.inj heq
    rw [Bytes.ofString_inj hbytes, hexact]

/-- Rules in no order, with two for one path and kind. -/
def shuffledRules : List Rule := [⟨"/", .none, false⟩, ⟨"/a", .wxorx, true⟩, ⟨"/a", .none, true⟩]

theorem encode_canonical_shuffled :
    (∃ b canonical, encode shuffledRules (.replicate 9) = .ok b ∧
      decode b = .ok (.replicate 9, canonical) ∧
      canonical.filter (fun r => r.path = "/a" ∧ r.exact = true) = [⟨"/a", .wxorx, true⟩] ∧
      encode canonical (.replicate 9) = .ok b) ∧
    encode (shuffledRules.take 2).reverse (.replicate 9) =
      encode (shuffledRules.take 2) (.replicate 9) := by
  obtain ⟨-, -, hread, -⟩ := encode_canonical shuffledRules (by decide) (.replicate 9)
  obtain ⟨b, canonical, hencode, hdecode, -, hfirst, hagain⟩ :=
    hread (by decide +kernel) (by decide +kernel)
  obtain ⟨-, -, -, hperm⟩ := encode_canonical (shuffledRules.take 2) (by decide) (.replicate 9)
  refine ⟨⟨b, canonical, hencode, hdecode, ?_, hagain⟩, ?_⟩
  · rw [hfirst]
    decide +kernel
  · exact hperm (by decide +kernel) _ (List.reverse_perm _)

end Decode

end Blob

end PathPolicy.Protection
