import Mathlib.Data.List.TakeWhile
import PathPolicy.Digest

/-!
# Digests in hexadecimal

A digest is known by its hexadecimal form, and the form is found again in the text that the kernel
reports, where it stands on a line of its own.
-/

namespace PathPolicy

namespace Bytes.Hex

theorem digit_inj {m n : Nat} (hm : m < 16) (hn : n < 16) (h : digit m = digit n) : m = n := by
  have hall : ∀ m < 16, ∀ n < 16, digit m = digit n → m = n := by decide
  exact hall m hm n hn h

theorem isBlank_digit {n : Nat} (hn : n < 16) : Text.isBlank (digit n) = false := by
  have hall : ∀ n < 16, Text.isBlank (digit n) = false := by decide
  exact hall n hn

theorem pair_inj {a b : UInt8} (h : pair a = pair b) : a = b := by
  have ha := a.toNat_lt
  have hb := b.toNat_lt
  obtain ⟨hhigh, hlow⟩ := List.cons.inj h
  have hdiv := digit_inj (by omega) (by omega) hhigh
  have hmod := digit_inj (by omega) (by omega) (List.cons.inj hlow).1
  apply UInt8.toNat.inj
  omega

theorem encode_inj {a b : Bytes} (h : encode a = encode b) : a = b := by
  have hflat : a.flatMap pair = b.flatMap pair := String.ofList_injective h
  clear h
  induction a generalizing b with
  | nil =>
    cases b with
    | nil => rfl
    | cons y ys => simp [pair] at hflat
  | cons x xs ih =>
    cases b with
    | nil => simp [pair] at hflat
    | cons y ys =>
      rw [List.flatMap_cons, List.flatMap_cons] at hflat
      obtain ⟨hpair, hrest⟩ := List.append_inj hflat rfl
      rw [pair_inj hpair, ih hrest]

theorem isBlank_of_mem_encode {b : Bytes} {c : Char} (h : c ∈ (encode b).toList) :
    Text.isBlank c = false := by
  unfold encode at h
  rw [String.toList_ofList] at h
  obtain ⟨byte, -, hc⟩ := List.mem_flatMap.1 h
  have hbyte := byte.toNat_lt
  rcases List.mem_cons.1 hc with rfl | hc
  · apply isBlank_digit
    omega
  · rw [List.mem_singleton.1 hc]
    apply isBlank_digit
    omega

end Bytes.Hex

theorem Text.trim_eq {s core : String} {before after : List Char}
    (hs : s.toList = before ++ core.toList ++ after) (hbefore : ∀ c ∈ before, isBlank c = true)
    (hafter : ∀ c ∈ after, isBlank c = true) (hcore : ∀ c ∈ core.toList, isBlank c = false) :
    trim s = core := by
  unfold trim trimEndChars
  rw [hs, List.append_assoc, List.dropWhile_append_of_pos hbefore]
  cases hcons : core.toList with
  | nil =>
    rw [List.nil_append, List.dropWhile_eq_nil_iff.2 hafter, ← core.ofList_toList, hcons]
    rfl
  | cons c rest =>
    have hc : ¬ isBlank c = true := Bool.eq_false_iff.1 (hcore c (hcons ▸ List.mem_cons_self))
    have hback : core.toList.reverse.dropWhile isBlank = core.toList.reverse :=
      List.dropWhile_eq_self_iff.2 fun hl =>
        Bool.eq_false_iff.1 (hcore _ (List.mem_reverse.1 (List.getElem_mem hl)))
    rw [List.cons_append, List.dropWhile_cons_of_neg hc, ← List.cons_append, ← hcons,
      List.reverse_append,
      List.dropWhile_append_of_pos fun d hd => hafter d (List.mem_reverse.1 hd), hback,
      List.reverse_reverse, String.ofList_toList]

/-- A text without blanks is found again on a line of its own. -/
theorem Text.trim_line {s : String} (h : ∀ c ∈ s.toList, isBlank c = false) :
    trim (s ++ "\n") = s :=
  trim_eq (String.toList_append (s := s) (t := "\n")) (List.forall_mem_nil _)
    (List.forall_mem_singleton.2 rfl) h

namespace Digest

theorem hex_inj {a b : Digest} (h : a.hex = b.hex) : a = b := by
  obtain ⟨bytes, hbytes⟩ := a
  obtain ⟨bytes', hbytes'⟩ := b
  have : bytes = bytes' := Bytes.Hex.encode_inj h
  subst this
  rfl

theorem trim_hex (d : Digest) : Text.trim (d.hex ++ "\n") = d.hex :=
  Text.trim_line fun _ => Bytes.Hex.isBlank_of_mem_encode

end Digest

end PathPolicy
