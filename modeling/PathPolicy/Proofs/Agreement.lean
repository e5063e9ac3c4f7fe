import PathPolicy.Proofs.Compilation
import PathPolicy.Proofs.Records

/-!
# Records and tables agree

The same protection rules can be written as records, which the kernel tries one after the other, or
compiled as path rules whose values are the protection words. Both keep the first rule for each
pattern, and in the end both are lists of patterns and words in strict order of specificity. Such a
list is determined by what it holds for each pattern (`map_key_sorted`), so the two answer every
path alike (`records_agree_with_tables`).
-/

namespace PathPolicy

/-- What a rule says of which paths. -/
def Rule.key (r : Rule) : Pattern × Value := (r.pattern, r.value)

namespace Protection

namespace Rule

/-- What a rule says of which programs. -/
def key (r : Rule) : Pattern × Value := (r.pattern, r.flags.bits.toUInt32)

/-- The path rule that gives a program its protection word. -/
def toPathRule (r : Rule) : Except PathPolicy.Rule.Fault PathPolicy.Rule :=
  PathPolicy.Rule.make r.pattern r.flags.bits.toUInt32

end Rule

def tableOf (rules : List Rule) : Except PathPolicy.Rule.Fault RuleTable :=
  RuleTable.ofList <$> rules.mapM Rule.toPathRule

/-! ## Protection rules as path rules -/

theorem Flags.toUInt32_ne_reserved (f : Flags) : f.bits.toUInt32 ≠ reservedValue := by
  intro h
  have hlt := f.bits.toNat_lt
  have hnat := congrArg UInt32.toNat h
  rw [UInt16.toNat_toUInt32] at hnat
  change f.bits.toNat = 0xffffffff at hnat
  omega

theorem Rule.toPathRule_eq_ok {r : Rule} (h : 0 ∉ r.pattern.bytes) :
    ∃ pr, r.toPathRule = .ok pr ∧ pr.key = r.key := by
  refine ⟨⟨r.pattern, r.flags.bits.toUInt32, h, r.flags.toUInt32_ne_reserved⟩, ?_, rfl⟩
  unfold toPathRule PathPolicy.Rule.make
  rw [dif_neg h, dif_neg r.flags.toUInt32_ne_reserved]

theorem mapM_toPathRule {rules : List Rule} (h : ∀ r ∈ rules, 0 ∉ r.pattern.bytes) :
    ∃ prs, rules.mapM Rule.toPathRule = .ok prs ∧
      prs.map PathPolicy.Rule.key = rules.map Rule.key := by
  induction rules with
  | nil => exact ⟨[], rfl, rfl⟩
  | cons r rest ih =>
    obtain ⟨hr, hrest⟩ := List.forall_mem_cons.1 h
    obtain ⟨pr, hpr, hkey⟩ := Rule.toPathRule_eq_ok hr
    obtain ⟨prs, hprs, hkeys⟩ := ih hrest
    refine ⟨pr :: prs, ?_, ?_⟩
    · rw [List.mapM_cons, hpr, hprs]
      rfl
    · rw [List.map_cons, List.map_cons, hkey, hkeys]

/-! ## One list of patterns and words -/

section Keys

variable {rules : List Rule} {prs : List PathPolicy.Rule}

theorem find?_map_key {α : Type} (key : α → Pattern × Value) (pattern : α → Pattern)
    (hkey : ∀ a, (key a).1 = pattern a) (l : List α) (p : Pattern) :
    (l.map key).find? (fun k => k.1 = p) = (l.find? fun a => pattern a = p).map key := by
  rw [List.find?_map]
  simp only [Function.comp_def, hkey]

/-- The rules of the table and those that get a record are the same, in the same order. -/
theorem map_key_sorted (h : prs.map PathPolicy.Rule.key = rules.map Rule.key) :
    (RuleTable.ofList prs).sorted.map PathPolicy.Rule.key = (Blob.sorted rules).map Rule.key := by
  refine eq_of_find?_eq Prod.fst ?_ ?_ fun p => ?_
  · exact List.pairwise_map.2
      ((RuleTable.ofList prs).pairwise_sorted.and (RuleTable.ofList prs).pairwise_sorted_ne)
  · exact List.pairwise_map.2 (Blob.pairwise_sorted rules)
  · have htable := find?_map_key PathPolicy.Rule.key PathPolicy.Rule.pattern fun _ => rfl
    have hrecords := find?_map_key Rule.key Rule.pattern fun _ => rfl
    rw [htable, RuleTable.find?_sorted, RuleTable.find?_ofList, ← htable, h, hrecords, hrecords,
      Blob.find?_sorted]

theorem find?_record_eq_lookup (h : prs.map PathPolicy.Rule.key = rules.map Rule.key) {w : Bytes}
    (hw : 0 ∉ w) :
    ((Blob.sorted rules).find? (·.pattern.covers w)).map (·.flags.bits.toUInt32) =
      (RuleTable.ofList prs).lookup w := by
  have hsorted := congrArg (fun ks => (ks.find? fun k => k.1.covers w).map Prod.snd)
    (map_key_sorted h)
  simp only [List.find?_map, Option.map_map] at hsorted
  have hcontains : ¬ w.contains 0 = true := by simpa using hw
  rw [RuleTable.lookup, if_neg hcontains]
  exact hsorted.symm

end Keys

theorem length_sorted_le {rules : List Rule} {prs : List PathPolicy.Rule}
    (h : prs.map PathPolicy.Rule.key = rules.map Rule.key) :
    (Blob.sorted rules).length ≤ (Automaton.ofTable (RuleTable.ofList prs)).size := by
  have hlen := congrArg List.length (map_key_sorted h)
  rw [List.length_map, List.length_map, (RuleTable.ofList prs).sorted_perm.length_eq] at hlen
  rw [← hlen]
  exact RuleTable.length_rules_le_size _

/-! ## The two forms of a policy -/

/-- Protection rules whose paths have no zero byte and fit in a record, and whose words are valid,
have a table. If there are numbers for the states of its automaton, they are written as a binary
policy and compiled, and the first record read back that covers a path has the word that the
compiled tables give to the path; no record covers it exactly if they give none. -/
theorem records_agree_with_tables {rules : List Rule} (hzero : ∀ r ∈ rules, 0 ∉ r.pattern.bytes)
    (hlen : ∀ r ∈ rules, r.path.utf8ByteSize ≤ 65535) (hvalid : ∀ r ∈ rules, r.flags.isValid)
    (d : Digest) :
    ∃ t, tableOf rules = .ok t ∧ ((Automaton.ofTable t).size ≤ Builder.capacity →
      ∃ blob records c, Blob.encode rules d = .ok blob ∧ Blob.decode blob = .ok (d, records) ∧
        t.compile? = some c ∧ ∀ w, 0 ∉ w →
          (records.find? (·.pattern.covers w)).map (·.flags.bits.toUInt32) =
            c.tables.lookup w) := by
  obtain ⟨prs, hprs, hkeys⟩ := mapM_toPathRule hzero
  refine ⟨RuleTable.ofList prs, ?_, fun hsize => ?_⟩
  · unfold tableOf
    rw [hprs]
    rfl
  · have hcount : (Blob.sorted rules).length < 2 ^ 32 := by
      have hle := length_sorted_le hkeys
      unfold Builder.capacity at hsize
      omega
    obtain ⟨blob, hencode, hdecode⟩ :=
      Blob.decode_encode (d := d) (fun r hr => ⟨hlen r hr, hvalid r hr⟩) hcount
    refine ⟨blob, _, _, hencode, hdecode, RuleTable.compile?_eq _ hsize, fun w hw => ?_⟩
    rw [find?_record_eq_lookup hkeys hw]
    exact (RuleTable.pack_ofTable_lookup _ w).symm

/-- Rules that stand inside each other, with two for one pattern. -/
def sampleRules : List Rule := [
  ⟨"/a", Flags.full, true⟩, ⟨"/", Flags.none, false⟩, ⟨"/a", Flags.none, true⟩,
  ⟨"/a", Flags.wxorx, false⟩]

theorem sampleRules_bytes :
    (tableOf sampleRules).toOption.map
      (fun t => (t.rules.map fun r => r.pattern.bytes.length + 1).sum) = some 8 := by
  decide +kernel

theorem records_agree_with_tables_sample :
    (∀ r ∈ sampleRules, 0 ∉ r.pattern.bytes) ∧ (∀ r ∈ sampleRules, r.path.utf8ByteSize ≤ 65535) ∧
      (∀ r ∈ sampleRules, r.flags.isValid) ∧
      ∃ t, tableOf sampleRules = .ok t ∧ (Automaton.ofTable t).size ≤ Builder.capacity ∧
        ∃ blob records c, Blob.encode sampleRules (Digest.replicate 0) = .ok blob ∧
          Blob.decode blob = .ok (Digest.replicate 0, records) ∧ t.compile? = some c ∧
          ∀ w, 0 ∉ w →
            (records.find? (·.pattern.covers w)).map (·.flags.bits.toUInt32) =
              c.tables.lookup w := by
  have hzero : ∀ r ∈ sampleRules, 0 ∉ r.pattern.bytes := by decide +kernel
  have hlen : ∀ r ∈ sampleRules, r.path.utf8ByteSize ≤ 65535 := by decide +kernel
  have hvalid : ∀ r ∈ sampleRules, r.flags.isValid := by decide +kernel
  obtain ⟨t, ht, hagree⟩ := records_agree_with_tables hzero hlen hvalid (Digest.replicate 0)
  have hsize : (Automaton.ofTable t).size ≤ Builder.capacity := by
    have hbytes := sampleRules_bytes
    rw [ht] at hbytes
    have hsum : (t.rules.map fun r => r.pattern.bytes.length + 1).sum = 8 := Option.some.inj hbytes
    have hle := t.ofTable_size_le
    rw [hsum] at hle
    exact Nat.le_trans hle (by decide)
  exact ⟨hzero, hlen, hvalid, t, ht, hsize, hagree hsize⟩

end Protection

end PathPolicy
