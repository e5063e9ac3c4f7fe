import PathPolicy.Proofs.Compilation

/-!
# Tables and their binary form determine each other

Reading succeeds only on the binary form of well-formed tables: the header fixes the counts, the
counts fix the length, and every word is checked before it is taken for a target or a group. So
well-formed tables have one binary form under each digest, and nothing else is read
(`decode_bijective`). The tables of an automaton are well formed.
-/

namespace PathPolicy.Packed

open Reader (bind_eq_ok lift_bind_eq_ok)

/-! ## Words and their entries -/

theorem ofTarget_toTarget (w : UInt32) : ofTarget (toTarget w) = w := by
  unfold toTarget
  split
  · exact Eq.symm ‹_›
  · exact UInt32.ofNat_toNat

theorem ofOutput_toOutput (w : UInt32) : ofOutput (toOutput w) = w := by
  unfold toOutput
  split
  · exact Eq.symm ‹_›
  · rfl

theorem toOutput_ne_reserved (w : UInt32) : toOutput w ≠ some reservedValue := by
  unfold toOutput
  split
  · exact fun h => nomatch h
  · exact fun h => ‹¬ w = noneWord› (Option.some.inj h)

theorem validTarget_toTarget {states w : UInt32} (h : isTargetWord states w = true) :
    validTarget states.toNat (toTarget w) = true := by
  unfold toTarget
  split
  · rfl
  · unfold isTargetWord at h
    rw [Bool.or_eq_true, beq_iff_eq, decide_eq_true_eq] at h
    exact decide_eq_true (UInt32.lt_iff_toNat_lt.1 (h.resolve_left ‹_›))

theorem map_map_toArray {α β : Type} {f : α → β} {g : β → α} (h : ∀ x, g (f x) = x) (xs : List α) :
    (xs.map f).toArray.toList.map g = xs := by
  rw [List.toList_toArray, List.map_map]
  exact (List.map_congr_left fun x _ => h x).trans (List.map_id xs)

theorem valid_of_check {part : Part} {valid : UInt32 → Bool} {ws : List UInt32}
    (h : check part valid ws = .ok ()) : ∀ w ∈ ws, valid w = true := by
  intro w hw
  unfold check at h
  split at h
  · cases h
  · rename_i hnone
    obtain ⟨i, hi, rfl⟩ := List.getElem_of_mem hw
    have hmem : (ws[i], i) ∈ ws.zipIdx :=
      List.mk_mem_zipIdx_iff_getElem?.2 (List.getElem?_eq_getElem hi)
    simpa using List.find?_eq_none.1 hnone _ hmem

theorem validTarget_of_check {part : Part} {states : UInt32} {ws : List UInt32} {n : Nat}
    (hn : n = states.toNat) (h : check part (isTargetWord states) ws = .ok ()) :
    ∀ e ∈ (ws.map toTarget).toArray, validTarget n e = true := by
  intro e he
  obtain ⟨w, hw, rfl⟩ := List.mem_map.1 (List.mem_toArray.1 he)
  subst hn
  exact validTarget_toTarget (valid_of_check h w hw)

/-! ## What was read -/

theorem read_eq_ok {α : Type} {size : Nat} {r : Reader α} {x : α} {b rest : Bytes}
    (h : read size r b = .ok (x, rest)) : r b = some (x, rest) := by
  unfold read at h
  split at h
  · rw [‹r b = _›, Except.ok.inj h]
  · cases h

theorem readHeader_eq_ok {size : Nat} {b rest : Bytes} {h : Header}
    (hread : readHeader size b = .ok (h, rest)) :
    b = magic ++ (Bytes.ofUInt32 version ++ (Bytes.ofUInt32 h.states ++
      (Bytes.ofUInt32 h.groups ++ (h.digest.bytes ++ rest)))) := by
  unfold readHeader at hread
  obtain ⟨found, b₁, hfound, hread₁⟩ := bind_eq_ok hread
  split at hread₁
  · cases hread₁
  rename_i hmagic
  obtain ⟨v, b₂, hv, hread₂⟩ := bind_eq_ok hread₁
  dsimp only at hread₂
  split at hread₂
  · cases hread₂
  rename_i hversion
  obtain ⟨states, b₃, hstates, hread₃⟩ := bind_eq_ok hread₂
  obtain ⟨groups, b₄, hgroups, hread₄⟩ := bind_eq_ok hread₃
  obtain ⟨d, b₅, hd, hread₅⟩ := bind_eq_ok hread₄
  obtain ⟨rfl, rfl⟩ := Prod.mk.inj (Except.ok.inj hread₅)
  rw [(Reader.bytes_eq_some (read_eq_ok hfound)).1, Decidable.not_not.1 hmagic,
    Reader.uint32_eq_some (read_eq_ok hv), Decidable.not_not.1 hversion,
    Reader.uint32_eq_some (read_eq_ok hstates), Reader.uint32_eq_some (read_eq_ok hgroups),
    Reader.digest_eq_some (read_eq_ok hd)]

/-- Tables that were read under valid counts are well formed, have these counts, and are the ones
that are written. -/
theorem readTables_eq_ok {size : Nat} {b rest : Bytes} {h : Header} {t : Packed}
    (hcounts : validCounts h.states.toNat h.groups.toNat = true)
    (hread : readTables size h b = .ok (t, rest)) :
    t.WellFormed ∧ t.states = h.states.toNat ∧ t.groups = h.groups.toNat ∧
      b = t.tableWords.flatMap Bytes.ofUInt32 ++ rest := by
  unfold readTables at hread
  obtain ⟨default, b₁, hdefault, hread₁⟩ := bind_eq_ok hread
  obtain ⟨base, b₂, hbase, hread₂⟩ := bind_eq_ok hread₁
  obtain ⟨targets, b₃, htargets, hread₃⟩ := bind_eq_ok hread₂
  obtain ⟨owners, b₄, howners, hread₄⟩ := bind_eq_ok hread₃
  obtain ⟨outputs, b₅, houtputs, hread₅⟩ := bind_eq_ok hread₄
  obtain ⟨_, hdefaultValid, hread₆⟩ := lift_bind_eq_ok hread₅
  obtain ⟨_, hbaseValid, hread₇⟩ := lift_bind_eq_ok hread₆
  obtain ⟨_, htargetsValid, hread₈⟩ := lift_bind_eq_ok hread₇
  obtain ⟨_, hownersValid, hread₉⟩ := lift_bind_eq_ok hread₈
  obtain ⟨rfl, rfl⟩ := Prod.mk.inj (Except.ok.inj hread₉)
  obtain ⟨hdefaultLen, rfl⟩ := Reader.words_eq_some (read_eq_ok hdefault)
  obtain ⟨hbaseLen, rfl⟩ := Reader.words_eq_some (read_eq_ok hbase)
  obtain ⟨htargetsLen, rfl⟩ := Reader.words_eq_some (read_eq_ok htargets)
  obtain ⟨hownersLen, rfl⟩ := Reader.words_eq_some (read_eq_ok howners)
  obtain ⟨houtputsLen, rfl⟩ := Reader.words_eq_some (read_eq_ok houtputs)
  unfold validCounts at hcounts
  simp only [Bool.and_eq_true, decide_eq_true_eq] at hcounts
  obtain ⟨⟨⟨hstates, hgroups⟩, hle⟩, hlt⟩ := hcounts
  have size_map : ∀ {α : Type} (f : UInt32 → α) {ws : List UInt32} {n : Nat}, ws.length = n →
      (ws.map f).toArray.size = n := fun f ws n hn => by simpa using hn
  have hstatesEq : (default.map toTarget).toArray.size = h.states.toNat := size_map _ hdefaultLen
  have hgroupsEq : (targets.map toTarget).toArray.size / 255 = h.groups.toNat := by
    rw [size_map _ htargetsLen, Nat.mul_div_cancel _ (by decide)]
  have hwell : Packed.WellFormed ⟨(default.map toTarget).toArray, (base.map UInt32.toNat).toArray,
      (targets.map toTarget).toArray, (owners.map toTarget).toArray,
      (outputs.map toOutput).toArray⟩ := {
    states_pos := hstates.trans_eq hstatesEq.symm
    states_lt := hstatesEq.trans_lt hlt
    groups_pos := hgroups.trans_eq hgroupsEq.symm
    groups_le := hgroupsEq.trans_le (hle.trans_eq hstatesEq.symm)
    base_size := (size_map _ hbaseLen).trans hstatesEq.symm
    outputs_size := (size_map _ houtputsLen).trans hstatesEq.symm
    targets_size := (size_map _ htargetsLen).trans (congrArg (· * 255) hgroupsEq.symm)
    owners_size := (size_map _ hownersLen).trans (congrArg (· * 255) hgroupsEq.symm)
    default_valid := validTarget_of_check hstatesEq hdefaultValid
    targets_valid := validTarget_of_check hstatesEq htargetsValid
    owners_valid := validTarget_of_check hstatesEq hownersValid
    base_valid := by
      intro g hg
      obtain ⟨w, hw, rfl⟩ := List.mem_map.1 (List.mem_toArray.1 hg)
      have hword := UInt32.lt_iff_toNat_lt.1 (of_decide_eq_true (valid_of_check hbaseValid w hw))
      exact hword.trans_eq hgroupsEq.symm
    outputs_valid := by
      intro v hv
      obtain ⟨w, -, rfl⟩ := List.mem_map.1 (List.mem_toArray.1 hv)
      exact toOutput_ne_reserved w }
  refine ⟨hwell, hstatesEq, hgroupsEq, ?_⟩
  unfold tableWords
  simp only [map_map_toArray ofTarget_toTarget, map_map_toArray ofOutput_toOutput,
    map_map_toArray (fun _ => UInt32.ofNat_toNat), List.flatMap_append, List.append_assoc]

/-! ## One binary form -/

section Uniqueness

variable {t : Packed} {b : Bytes} {expected : Option Digest}

theorem encode_eq (t : Packed) (d : Digest) :
    t.encode d = magic ++ (Bytes.ofUInt32 version ++ (Bytes.ofUInt32 (UInt32.ofNat t.states) ++
      (Bytes.ofUInt32 (UInt32.ofNat t.groups) ++
        (d.bytes ++ t.tableWords.flatMap Bytes.ofUInt32)))) := by
  unfold encode
  simp only [List.append_assoc]

theorem digest_encode (t : Packed) (d : Digest) :
    ((t.encode d).drop 20).take Digest.size = d.bytes := by
  have hfront : (magic ++ (Bytes.ofUInt32 version ++ (Bytes.ofUInt32 (UInt32.ofNat t.states) ++
      Bytes.ofUInt32 (UInt32.ofNat t.groups)))).length = 20 := rfl
  have hsplit : t.encode d = (magic ++ (Bytes.ofUInt32 version ++
      (Bytes.ofUInt32 (UInt32.ofNat t.states) ++ Bytes.ofUInt32 (UInt32.ofNat t.groups)))) ++
        (d.bytes ++ t.tableWords.flatMap Bytes.ofUInt32) := by
    rw [encode_eq]
    simp only [List.append_assoc]
  rw [hsplit, List.drop_left' hfront]
  exact List.take_left' d.length_bytes

theorem expect_eq_ok {d : Digest} (h : expect expected d = .ok ()) :
    expected = none ∨ expected = some d := by
  unfold expect at h
  split at h
  · exact .inl rfl
  · split at h
    · exact .inr (congrArg some ‹_›)
    · cases h

/-- What is read is well formed, and was written under the expected digest. -/
theorem eq_encode_of_decode (h : decode b expected = .ok t) :
    t.WellFormed ∧ ∃ d, b = t.encode d ∧ (expected = none ∨ expected = some d) := by
  unfold decode at h
  cases hheader : readHeader b.length b with
  | error fault => simp [hheader, bind, Except.bind] at h
  | ok found =>
    obtain ⟨header, rest⟩ := found
    simp only [hheader, bind, Except.bind] at h
    cases hexpect : expect expected header.digest with
    | error fault => simp [hexpect] at h
    | ok u =>
      simp only [hexpect] at h
      split at h
      · cases h
      rename_i hsize
      split at h
      · cases h
      rename_i hcounts
      cases htables : readTables b.length header rest with
      | error fault => rw [htables] at h; cases h
      | ok found =>
        obtain ⟨tables, rest'⟩ := found
        rw [htables] at h
        obtain rfl := Except.ok.inj h
        obtain ⟨hwell, hstates, hgroups, hrest⟩ :=
          readTables_eq_ok (by simpa using hcounts) htables
        refine ⟨hwell, header.digest, ?_, expect_eq_ok hexpect⟩
        have hb : b = tables.encode header.digest ++ rest' := by
          rw [readHeader_eq_ok hheader, hrest, encode_eq, hstates, hgroups, UInt32.ofNat_toNat,
            UInt32.ofNat_toNat]
          simp only [List.append_assoc]
        -- The counts fix the length, so nothing is left over.
        have hlen := congrArg List.length hb
        rw [List.length_append, length_encode hwell, hstates, hgroups,
          Decidable.not_not.1 hsize] at hlen
        have hnil : rest' = [] := List.length_eq_zero_iff.1 (by omega)
        rw [hb, hnil, List.append_nil]

end Uniqueness

/-- The tables that a compiler hands out are well formed, if their automaton has fewer states than
there are numbers. -/
theorem wellFormed_of_compile {rules : RuleTable} {c : RuleTable.Compiled}
    (h : rules.compile? = some c) (hlt : c.automaton.size < 0xffffffff) : c.tables.WellFormed := by
  obtain ⟨a, ha, rfl⟩ := Option.map_eq_some_iff.1 h
  unfold RuleTable.raw? at ha
  dsimp only at ha
  split at ha
  · obtain rfl := Option.some.inj ha
    exact rules.wellFormed_pack_reduce hlt
  · cases ha

/-- Well-formed tables are read back from their binary form, under every digest that is expected or
under none. Whatever is read is well formed, and is its binary form under the digest that stands in
it. The tables of an automaton whose targets are states are well formed as long as every state has
a number; the reserved value stands for an output that there is not, so it is none. -/
theorem decode_bijective :
    (∀ t : Packed, t.WellFormed → ∀ (d : Digest) (expected : Option Digest),
      expected = none ∨ expected = some d → decode (t.encode d) expected = .ok t) ∧
    (∀ (b : Bytes) (expected : Option Digest) (t : Packed), decode b expected = .ok t ↔
      t.WellFormed ∧ ∃ d : Digest, d.bytes = (b.drop 20).take Digest.size ∧ b = t.encode d ∧
        (expected = none ∨ expected = some d)) ∧
    (∀ a : Automaton, a.WellFormed → 0 < a.size → a.size < 0xffffffff →
      (∀ s, a.output s ≠ some reservedValue) → a.pack.WellFormed) ∧
    ∀ (rules : RuleTable) (c : RuleTable.Compiled), rules.compile? = some c →
      c.automaton.size < 0xffffffff → c.tables.WellFormed := by
  refine ⟨fun t ht d expected => decode_encode ht d, fun b expected t => ⟨fun h => ?_, ?_⟩,
    fun a => Automaton.wellFormed_pack, fun rules c => wellFormed_of_compile⟩
  · obtain ⟨hwell, d, rfl, hexpected⟩ := eq_encode_of_decode h
    exact ⟨hwell, d, (digest_encode t d).symm, rfl, hexpected⟩
  · rintro ⟨hwell, d, -, rfl, hexpected⟩
    exact decode_encode hwell d hexpected

theorem decode_bijective_nested : ∃ c, RuleTable.nested.compile? = some c ∧
    c.automaton.size < 0xffffffff ∧ c.tables.WellFormed ∧
      decode (c.tables.encode (Digest.replicate 7)) (some (Digest.replicate 7)) = .ok c.tables ∧
      ∀ b t, decode b none = .ok t → t = c.tables → ∃ d, b = c.tables.encode d := by
  obtain ⟨hdecode, hread, -, hcompiled⟩ := decode_bijective
  have hsize := RuleTable.size_nested_lt
  have hcompile := RuleTable.nested.compile?_eq (Nat.le_of_lt hsize)
  have hlt : (Automaton.ofTable RuleTable.nested).reduce.size < 0xffffffff :=
    Nat.lt_of_le_of_lt (Automaton.size_reduce_le RuleTable.nested.ofTable_wellFormed
      RuleTable.nested.ofTable_size_pos) hsize
  have hwell := hcompiled _ _ hcompile hlt
  refine ⟨_, hcompile, hlt, hwell, hdecode _ hwell _ _ (.inr rfl), ?_⟩
  rintro b t ht rfl
  obtain ⟨-, d, -, hb, -⟩ := (hread b none _).1 ht
  exact ⟨d, hb⟩

end PathPolicy.Packed
