import PathPolicy.Automaton.Blob
import PathPolicy.Proofs.Wire

/-!
# The binary form of tables

Well-formed tables are read back from their binary form, under every digest, whether the digest is
expected or none is (`decode_encode`).
-/

namespace PathPolicy.Packed

open Reader (bind_ok lift_bind_ok)

/-! ## Entries and their words -/

theorem toNat_ofNat_of_lt {n : Nat} (h : n < 2 ^ 32) : (UInt32.ofNat n).toNat = n := by
  rw [UInt32.toNat_ofNat']
  exact Nat.mod_eq_of_lt h

theorem ofNat_ne_noneWord {n : Nat} (h : n < 0xffffffff) : UInt32.ofNat n ≠ noneWord := by
  intro heq
  have hn := congrArg UInt32.toNat heq
  rw [toNat_ofNat_of_lt (by omega)] at hn
  change n = 0xffffffff at hn
  omega

section Words

variable {n : Nat} {e : Option StateId}

theorem toTarget_ofTarget (hn : n < 0xffffffff) (he : validTarget n e = true) :
    toTarget (ofTarget e) = e := by
  cases e with
  | none => rfl
  | some s =>
    have hs : s < 0xffffffff := Nat.lt_trans (of_decide_eq_true he) hn
    show toTarget (UInt32.ofNat s) = some s
    rw [toTarget, if_neg (ofNat_ne_noneWord hs), toNat_ofNat_of_lt (Nat.lt_trans hs (by decide))]

theorem isTargetWord_ofTarget (hn : n < 0xffffffff) (he : validTarget n e = true) :
    isTargetWord (UInt32.ofNat n) (ofTarget e) = true := by
  unfold isTargetWord
  rw [Bool.or_eq_true]
  cases e with
  | none => exact .inl rfl
  | some s =>
    have hs : s < n := of_decide_eq_true he
    refine .inr (decide_eq_true (UInt32.lt_iff_toNat_lt.2 ?_))
    show (UInt32.ofNat s).toNat < (UInt32.ofNat n).toNat
    have hn' : n < 2 ^ 32 := Nat.lt_trans hn (by decide)
    rw [toNat_ofNat_of_lt (Nat.lt_trans hs hn'), toNat_ofNat_of_lt hn']
    exact hs

theorem toOutput_ofOutput {v : Option Value} (h : v ≠ some reservedValue) :
    toOutput (ofOutput v) = v := by
  cases v with
  | none => rfl
  | some w => exact if_neg fun hw => h (congrArg some hw)

theorem toArray_map_map_toList {α β : Type} {f : α → β} {g : β → α} {xs : Array α}
    (h : ∀ x ∈ xs, g (f x) = x) : ((xs.toList.map f).map g).toArray = xs := by
  rw [List.map_map, List.map_congr_left (g := id), List.map_id]
  intro x hx
  exact h x (Array.mem_toList_iff.1 hx)

end Words

/-! ## Checks -/

theorem check_eq_ok {part : Part} {valid : UInt32 → Bool} {ws : List UInt32}
    (h : ∀ w ∈ ws, valid w = true) : check part valid ws = .ok () := by
  unfold check
  rw [List.find?_eq_none.2 ?_]
  rintro ⟨w, i⟩ hw
  show ¬ (!valid w) = true
  rw [h w (List.fst_mem_of_mem_zipIdx hw)]
  exact Bool.false_ne_true

/-! ## Reading what was written -/

section Read

variable {α : Type} {size : Nat} {b rest : Bytes}

theorem read_ok {r : Reader α} {x : α} (h : r b = some (x, rest)) :
    read size r b = .ok (x, rest) := by
  unfold read
  rw [h]

end Read

theorem readHeader_append (size : Nat) (states groups : UInt32) (d : Digest) (rest : Bytes) :
    readHeader size (magic ++ (Bytes.ofUInt32 version ++ (Bytes.ofUInt32 states ++
      (Bytes.ofUInt32 groups ++ (d.bytes ++ rest))))) = .ok (⟨states, groups, d⟩, rest) := by
  unfold readHeader
  rw [bind_ok (read_ok (Reader.bytes_append rfl))]
  rw [if_neg (not_not_intro rfl)]
  show (read size Reader.uint32 >>= _) _ = _
  rw [bind_ok (read_ok (Reader.uint32_append version _)), if_neg (not_not_intro rfl)]
  show (read size Reader.uint32 >>= _) _ = _
  rw [bind_ok (read_ok (Reader.uint32_append states _)),
    bind_ok (read_ok (Reader.uint32_append groups _)), bind_ok (read_ok (Reader.digest_append d _))]
  rfl

section Tables

variable {t : Packed}

theorem length_tableWords (ht : t.WellFormed) :
    t.tableWords.length = 3 * t.states + 2 * t.groups * 255 := by
  unfold tableWords
  simp only [List.length_append, List.length_map, Array.length_toList, ht.base_size,
    ht.targets_size, ht.owners_size, ht.outputs_size]
  show t.states + _ + _ + _ + _ = _
  omega

theorem length_encode (ht : t.WellFormed) (d : Digest) :
    (t.encode d).length = encodedSize t.states t.groups := by
  unfold encode encodedSize headerSize
  simp only [List.length_append, Bytes.length_ofUInt32, d.length_bytes,
    Bytes.length_flatMap_ofUInt32, length_tableWords ht]
  show 8 + 4 + 4 + 4 + 20 + _ = _
  omega

theorem validCounts_of_wellFormed (ht : t.WellFormed) : validCounts t.states t.groups = true := by
  unfold validCounts
  simp only [Bool.and_eq_true, decide_eq_true_eq]
  exact ⟨⟨⟨ht.states_pos, ht.groups_pos⟩, ht.groups_le⟩, ht.states_lt⟩

theorem toNat_states (ht : t.WellFormed) : (UInt32.ofNat t.states).toNat = t.states :=
  toNat_ofNat_of_lt (Nat.lt_trans ht.states_lt (by decide))

theorem toNat_groups (ht : t.WellFormed) : (UInt32.ofNat t.groups).toNat = t.groups :=
  toNat_ofNat_of_lt (Nat.lt_of_le_of_lt ht.groups_le (Nat.lt_trans ht.states_lt (by decide)))

theorem lt_of_mem_base (ht : t.WellFormed) {g : Nat} (hg : g ∈ t.base) : g < 2 ^ 32 :=
  Nat.lt_trans (ht.base_valid g hg)
    (Nat.lt_of_le_of_lt ht.groups_le (Nat.lt_trans ht.states_lt (by decide)))

theorem check_targets (ht : t.WellFormed) (part : Part) {xs : Array (Option StateId)}
    (hxs : ∀ e ∈ xs, validTarget t.states e = true) :
    check part (isTargetWord (UInt32.ofNat t.states)) (xs.toList.map ofTarget) = .ok () := by
  refine check_eq_ok fun w hw => ?_
  obtain ⟨e, he, rfl⟩ := List.mem_map.1 hw
  exact isTargetWord_ofTarget ht.states_lt (hxs e (Array.mem_toList_iff.1 he))

theorem check_base (ht : t.WellFormed) (part : Part) :
    check part (fun w => w < UInt32.ofNat t.groups) (t.base.toList.map UInt32.ofNat) = .ok () := by
  refine check_eq_ok fun w hw => ?_
  obtain ⟨g, hg, rfl⟩ := List.mem_map.1 hw
  have hg' := Array.mem_toList_iff.1 hg
  refine decide_eq_true (UInt32.lt_iff_toNat_lt.2 ?_)
  rw [toNat_ofNat_of_lt (lt_of_mem_base ht hg'), toNat_groups ht]
  exact ht.base_valid g hg'

theorem readTables_append (ht : t.WellFormed) (size : Nat) (d : Digest) (rest : Bytes) :
    readTables size ⟨UInt32.ofNat t.states, UInt32.ofNat t.groups, d⟩
      (t.tableWords.flatMap Bytes.ofUInt32 ++ rest) = .ok (t, rest) := by
  have hn := ht.states_lt
  -- Every part has the announced length.
  have hdefault : (t.default.toList.map ofTarget).length = t.states := List.length_map _
  have hbaseLen : (t.base.toList.map UInt32.ofNat).length = t.states :=
    (List.length_map _).trans ht.base_size
  have htargetsLen : (t.targets.toList.map ofTarget).length = t.groups * 255 :=
    (List.length_map _).trans ht.targets_size
  have hownersLen : (t.owners.toList.map ofTarget).length = t.groups * 255 :=
    (List.length_map _).trans ht.owners_size
  have houtputs : (t.outputs.toList.map ofOutput).length = t.states :=
    (List.length_map _).trans ht.outputs_size
  unfold readTables
  simp only [toNat_states ht, toNat_groups ht]
  unfold tableWords
  simp only [List.flatMap_append, List.append_assoc]
  rw [bind_ok (read_ok (Reader.words_append hdefault _)),
    bind_ok (read_ok (Reader.words_append hbaseLen _)),
    bind_ok (read_ok (Reader.words_append htargetsLen _)),
    bind_ok (read_ok (Reader.words_append hownersLen _)),
    bind_ok (read_ok (Reader.words_append houtputs _)),
    lift_bind_ok (check_targets ht _ ht.default_valid), lift_bind_ok (check_base ht _),
    lift_bind_ok (check_targets ht _ ht.targets_valid),
    lift_bind_ok (check_targets ht _ ht.owners_valid),
    toArray_map_map_toList fun e he => toTarget_ofTarget hn (ht.default_valid e he),
    toArray_map_map_toList fun g hg => toNat_ofNat_of_lt (lt_of_mem_base ht hg),
    toArray_map_map_toList fun e he => toTarget_ofTarget hn (ht.targets_valid e he),
    toArray_map_map_toList fun e he => toTarget_ofTarget hn (ht.owners_valid e he),
    toArray_map_map_toList fun v hv => toOutput_ofOutput (ht.outputs_valid v hv)]
  rfl

theorem decode_encode (ht : t.WellFormed) (d : Digest) {expected : Option Digest}
    (he : expected = none ∨ expected = some d) : decode (t.encode d) expected = .ok t := by
  have hexpect : expect expected d = .ok () := by
    rcases he with rfl | rfl
    · rfl
    · exact if_pos rfl
  have hheader : readHeader (t.encode d).length (t.encode d) =
      .ok (⟨UInt32.ofNat t.states, UInt32.ofNat t.groups, d⟩,
        t.tableWords.flatMap Bytes.ofUInt32 ++ []) := by
    have h := readHeader_append (t.encode d).length (UInt32.ofNat t.states)
      (UInt32.ofNat t.groups) d (t.tableWords.flatMap Bytes.ofUInt32 ++ [])
    simp only [← List.append_assoc, List.append_nil] at h ⊢
    exact h
  have hsize : ¬ encodedSize t.states t.groups ≠ (t.encode d).length :=
    not_not_intro (length_encode ht d).symm
  have hcounts : ¬ (!validCounts t.states t.groups) = true := by
    rw [validCounts_of_wellFormed ht]
    exact Bool.false_ne_true
  unfold decode
  simp only [hheader, bind, Except.bind, hexpect, toNat_states ht, toNat_groups ht, if_neg hsize,
    if_neg hcounts, readTables_append ht]
  rfl

end Tables

end PathPolicy.Packed
