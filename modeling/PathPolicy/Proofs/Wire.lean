import Mathlib.Algebra.Ring.Nat
import PathPolicy.Digest

/-!
# Words, texts and readers

A word and its bytes determine each other, and so do a text and its bytes. Hence a reader finds what
a writer wrote in front of the rest of a byte string; a reader of several words takes them all off
at once.
-/

namespace PathPolicy

namespace Bytes

/-! ## Words of two and four bytes -/

/-- Numbers that share no bit are added by `or`. -/
theorem or_shiftLeft_eq_add {x y n : Nat} (h : x < 2 ^ n) : x ||| y <<< n = x + y * 2 ^ n := by
  rw [Nat.or_comm, ← Nat.shiftLeft_add_eq_or_of_lt h, Nat.shiftLeft_eq, Nat.add_comm]

theorem toNat_word16 (a b : UInt8) : (word16 a b).toNat = a.toNat + b.toNat * 2 ^ 8 := by
  have ha := a.toNat_lt
  have hb := b.toNat_lt
  have hshift : b.toNat <<< 8 < 2 ^ 16 := by
    rw [Nat.shiftLeft_eq]
    omega
  unfold word16
  simp only [UInt16.toNat_or, UInt16.toNat_shiftLeft, UInt8.toNat_toUInt16]
  show a.toNat ||| b.toNat <<< 8 % 2 ^ 16 = _
  rw [Nat.mod_eq_of_lt hshift, or_shiftLeft_eq_add ha]

theorem toNat_word32 (a b c d : UInt8) : (word32 a b c d).toNat =
    a.toNat + b.toNat * 2 ^ 8 + c.toNat * 2 ^ 16 + d.toNat * 2 ^ 24 := by
  have ha := a.toNat_lt
  have hb := b.toNat_lt
  have hc := c.toNat_lt
  have hd := d.toNat_lt
  have hb' : b.toNat <<< 8 < 2 ^ 32 := by
    rw [Nat.shiftLeft_eq]
    omega
  have hc' : c.toNat <<< 16 < 2 ^ 32 := by
    rw [Nat.shiftLeft_eq]
    omega
  have hd' : d.toNat <<< 24 < 2 ^ 32 := by
    rw [Nat.shiftLeft_eq]
    omega
  unfold word32
  simp only [UInt32.toNat_or, UInt32.toNat_shiftLeft, UInt8.toNat_toUInt32]
  show a.toNat ||| b.toNat <<< 8 % 2 ^ 32 ||| c.toNat <<< 16 % 2 ^ 32 |||
    d.toNat <<< 24 % 2 ^ 32 = _
  rw [Nat.mod_eq_of_lt hb', Nat.mod_eq_of_lt hc', Nat.mod_eq_of_lt hd', or_shiftLeft_eq_add ha,
    or_shiftLeft_eq_add (n := 16) (by omega), or_shiftLeft_eq_add (n := 24) (by omega)]

/-- The byte of a word that stands `8 * i` bits up. -/
theorem toNat_toUInt8_shiftRight (w : UInt32) {i : UInt32} (hi : i.toNat < 32) :
    (w >>> i).toUInt8.toNat = w.toNat / 2 ^ i.toNat % 2 ^ 8 := by
  rw [UInt32.toNat_toUInt8, UInt32.toNat_shiftRight, Nat.mod_eq_of_lt hi, Nat.shiftRight_eq_div_pow]

theorem word16_ofUInt16 (w : UInt16) : word16 w.toUInt8 (w >>> 8).toUInt8 = w := by
  apply UInt16.toNat.inj
  have hw := w.toNat_lt
  rw [toNat_word16, UInt16.toNat_toUInt8, UInt16.toNat_toUInt8, UInt16.toNat_shiftRight,
    Nat.shiftRight_eq_div_pow]
  show w.toNat % 2 ^ 8 + w.toNat / 2 ^ 8 % 2 ^ 8 * 2 ^ 8 = w.toNat
  omega

theorem word32_ofUInt32 (w : UInt32) :
    word32 w.toUInt8 (w >>> 8).toUInt8 (w >>> 16).toUInt8 (w >>> 24).toUInt8 = w := by
  apply UInt32.toNat.inj
  have hw := w.toNat_lt
  rw [toNat_word32, UInt32.toNat_toUInt8, toNat_toUInt8_shiftRight w (by decide),
    toNat_toUInt8_shiftRight w (by decide), toNat_toUInt8_shiftRight w (by decide)]
  show w.toNat % 2 ^ 8 + w.toNat / 2 ^ 8 % 2 ^ 8 * 2 ^ 8 + w.toNat / 2 ^ 16 % 2 ^ 8 * 2 ^ 16 +
    w.toNat / 2 ^ 24 % 2 ^ 8 * 2 ^ 24 = w.toNat
  omega

theorem ofUInt16_word16 (a b : UInt8) : ofUInt16 (word16 a b) = [a, b] := by
  have ha := a.toNat_lt
  have hb := b.toNat_lt
  have hlow : (word16 a b).toUInt8 = a := by
    apply UInt8.toNat.inj
    rw [UInt16.toNat_toUInt8, toNat_word16]
    omega
  have hhigh : (word16 a b >>> 8).toUInt8 = b := by
    apply UInt8.toNat.inj
    rw [UInt16.toNat_toUInt8, UInt16.toNat_shiftRight, toNat_word16, Nat.shiftRight_eq_div_pow]
    show (_ : Nat) / 2 ^ 8 % 2 ^ 8 = _
    omega
  unfold ofUInt16
  rw [hlow, hhigh]

theorem ofUInt32_word32 (a b c d : UInt8) : ofUInt32 (word32 a b c d) = [a, b, c, d] := by
  have ha := a.toNat_lt
  have hb := b.toNat_lt
  have hc := c.toNat_lt
  have hd := d.toNat_lt
  have hlow : (word32 a b c d).toUInt8 = a := by
    apply UInt8.toNat.inj
    rw [UInt32.toNat_toUInt8, toNat_word32]
    omega
  have hbyte : ∀ {i : UInt32} {e : UInt8}, i.toNat < 32 →
      (a.toNat + b.toNat * 2 ^ 8 + c.toNat * 2 ^ 16 + d.toNat * 2 ^ 24) / 2 ^ i.toNat % 2 ^ 8 =
        e.toNat → (word32 a b c d >>> i).toUInt8 = e := by
    intro i e hi he
    apply UInt8.toNat.inj
    rw [toNat_toUInt8_shiftRight _ hi, toNat_word32, he]
  unfold ofUInt32
  rw [hlow, hbyte (i := 8) (e := b) (by decide), hbyte (i := 16) (e := c) (by decide),
    hbyte (i := 24) (e := d) (by decide)]
  · show (_ : Nat) / 2 ^ 24 % 2 ^ 8 = _
    omega
  · show (_ : Nat) / 2 ^ 16 % 2 ^ 8 = _
    omega
  · show (_ : Nat) / 2 ^ 8 % 2 ^ 8 = _
    omega

theorem length_ofUInt32 (w : UInt32) : (ofUInt32 w).length = 4 := rfl

theorem length_flatMap_ofUInt32 (ws : List UInt32) :
    (ws.flatMap ofUInt32).length = 4 * ws.length := by
  induction ws with
  | nil => rfl
  | cons w rest ih =>
    rw [List.flatMap_cons, List.length_append, ih, length_ofUInt32, List.length_cons]
    omega

theorem words_go_flatMap (done : Array UInt32) (ws : List UInt32) :
    (words.go done (ws.flatMap ofUInt32)).toList = done.toList ++ ws := by
  induction ws generalizing done with
  | nil => exact (List.append_nil _).symm
  | cons w rest ih =>
    rw [List.flatMap_cons]
    show (words.go (done.push (word32 _ _ _ _)) (rest.flatMap ofUInt32)).toList = _
    rw [ih, word32_ofUInt32, Array.toList_push, List.append_assoc]
    rfl

theorem words_flatMap (ws : List UInt32) : words (ws.flatMap ofUInt32) = ws :=
  words_go_flatMap #[] ws

theorem exists_words {n : Nat} {b : Bytes} (h : b.length = 4 * n) :
    ∃ ws : List UInt32, ws.length = n ∧ b = ws.flatMap ofUInt32 := by
  induction n generalizing b with
  | zero => exact ⟨[], rfl, List.length_eq_zero_iff.1 h⟩
  | succ n ih =>
    match b with
    | a :: b :: c :: d :: rest =>
      obtain ⟨ws, hlen, hws⟩ := ih (b := rest) (by simp only [List.length_cons] at h; omega)
      refine ⟨word32 a b c d :: ws, congrArg (· + 1) hlen, ?_⟩
      rw [List.flatMap_cons, ofUInt32_word32, ← hws]
      rfl
    | [] | [_] | [_, _] | [_, _, _] =>
      simp only [List.length_cons, List.length_nil] at h
      omega

/-! ## Texts -/

theorem toList_loop (b : ByteArray) (i : Nat) (r : List UInt8) :
    ByteArray.toList.loop b i r = r.reverse ++ b.data.toList.drop i := by
  fun_induction ByteArray.toList.loop b i r with
  | case1 i r hi ih =>
    have hget : b.get! i = b.data[i] := getElem!_pos b.data i hi
    rw [ih, List.reverse_cons, List.append_assoc, hget, ← Array.getElem_toList hi]
    exact congrArg (r.reverse ++ ·) (List.drop_eq_getElem_cons (by simpa using hi)).symm
  | case2 i r hi =>
    have hdrop : b.data.toList.drop i = [] := List.drop_eq_nil_of_le (by simpa using hi)
    rw [hdrop, List.append_nil]

theorem ofString_eq (s : String) : ofString s = s.toByteArray.data.toList :=
  toList_loop s.toByteArray 0 []

theorem ofString_eq_flatMap (s : String) :
    ofString s = s.toList.flatMap String.utf8EncodeChar := by
  have hofList : ∀ cs : List Char,
      ofString (String.ofList cs) = cs.flatMap String.utf8EncodeChar := by
    intro cs
    rw [ofString_eq, String.toByteArray_ofList]
    simp [List.utf8Encode]
  rw [← hofList, String.ofList_toList]

theorem length_ofString (s : String) : (ofString s).length = s.utf8ByteSize := by
  rw [ofString_eq]
  rfl

theorem toString?_ofString (s : String) : toString? (ofString s) = some s := by
  unfold toString? String.fromUTF8?
  have hbytes : (⟨(ofString s).toArray⟩ : ByteArray) = s.toByteArray := by
    rw [ofString_eq]
  rw [hbytes, dif_pos s.isValidUTF8]
  rfl

theorem toString?_eq_some {b : Bytes} {s : String} (h : toString? b = some s) : b = ofString s := by
  unfold toString? String.fromUTF8? at h
  split at h
  · obtain rfl := Option.some.inj h
    rw [ofString_eq]
    rfl
  · cases h

theorem ofString_inj {s t : String} (h : ofString s = ofString t) : s = t :=
  Option.some.inj ((toString?_ofString s).symm.trans (h ▸ toString?_ofString t))

end Bytes

/-! ## Readers find what was written -/

namespace Reader

theorem bytes_append {front rest : Bytes} {n : Nat} (h : front.length = n) :
    Reader.bytes n (front ++ rest) = some (front, rest) := by
  subst h
  unfold Reader.bytes
  simp only [List.take_left, List.drop_left, if_true]

theorem bytes_of_length_lt {b : Bytes} {n : Nat} (h : b.length < n) : Reader.bytes n b = none := by
  unfold Reader.bytes
  dsimp only
  rw [if_neg]
  rw [List.length_take]
  omega

theorem uint16_append (w : UInt16) (rest : Bytes) :
    Reader.uint16 (Bytes.ofUInt16 w ++ rest) = some (w, rest) := by
  show some (Bytes.word16 _ _, rest) = _
  rw [Bytes.word16_ofUInt16]

theorem uint32_append (w : UInt32) (rest : Bytes) :
    Reader.uint32 (Bytes.ofUInt32 w ++ rest) = some (w, rest) := by
  show some (Bytes.word32 _ _ _ _, rest) = _
  rw [Bytes.word32_ofUInt32]

theorem words_append {ws : List UInt32} {n : Nat} (h : ws.length = n) (rest : Bytes) :
    Reader.words n (ws.flatMap Bytes.ofUInt32 ++ rest) = some (ws, rest) := by
  have hlen : (ws.flatMap Bytes.ofUInt32).length = 4 * n := by
    rw [Bytes.length_flatMap_ofUInt32, h]
  unfold Reader.words
  show (Reader.bytes (4 * n) _).bind _ = _
  rw [bytes_append hlen]
  exact congrArg (fun ws => some (ws, rest)) (Bytes.words_flatMap ws)

theorem digest_append (d : Digest) (rest : Bytes) :
    Reader.digest (d.bytes ++ rest) = some (d, rest) := by
  have hlen : d.bytes.length = Digest.size := d.length_bytes
  unfold Reader.digest
  show (Reader.bytes Digest.size _).bind _ = _
  rw [bytes_append hlen]
  show (Digest.ofBytes? d.bytes).bind _ = _
  unfold Digest.ofBytes?
  rw [dif_pos d.length_bytes]
  rfl

/-! ## What was read was written -/

section Inversion

variable {b rest : Bytes} {n : Nat}

theorem bytes_eq_some {front : Bytes} (h : Reader.bytes n b = some (front, rest)) :
    b = front ++ rest ∧ front.length = n := by
  unfold Reader.bytes at h
  dsimp only at h
  split at h
  · obtain ⟨rfl, rfl⟩ := Prod.mk.inj (Option.some.inj h)
    exact ⟨(List.take_append_drop n b).symm, ‹_›⟩
  · cases h

theorem uint8_eq_some {a : UInt8} (h : Reader.uint8 b = some (a, rest)) : b = [a] ++ rest := by
  unfold Reader.uint8 at h
  split at h
  · obtain ⟨rfl, rfl⟩ := Prod.mk.inj (Option.some.inj h)
    rfl
  · cases h

theorem uint16_eq_some {w : UInt16} (h : Reader.uint16 b = some (w, rest)) :
    b = Bytes.ofUInt16 w ++ rest := by
  unfold Reader.uint16 at h
  split at h
  · obtain ⟨rfl, rfl⟩ := Prod.mk.inj (Option.some.inj h)
    rw [Bytes.ofUInt16_word16]
    rfl
  · cases h

theorem uint32_eq_some {w : UInt32} (h : Reader.uint32 b = some (w, rest)) :
    b = Bytes.ofUInt32 w ++ rest := by
  unfold Reader.uint32 at h
  split at h
  · obtain ⟨rfl, rfl⟩ := Prod.mk.inj (Option.some.inj h)
    rw [Bytes.ofUInt32_word32]
    rfl
  · cases h

theorem words_eq_some {ws : List UInt32} (h : Reader.words n b = some (ws, rest)) :
    ws.length = n ∧ b = ws.flatMap Bytes.ofUInt32 ++ rest := by
  change (Reader.bytes (4 * n) b).bind _ = _ at h
  obtain ⟨⟨front, rest'⟩, hfront, hws⟩ := Option.bind_eq_some_iff.1 h
  obtain ⟨rfl, rfl⟩ := Prod.mk.inj (Option.some.inj hws)
  obtain ⟨hb, hlen⟩ := bytes_eq_some hfront
  obtain ⟨ws, hn, rfl⟩ := Bytes.exists_words hlen
  rw [Bytes.words_flatMap]
  exact ⟨hn, hb⟩

theorem digest_eq_some {d : Digest} (h : Reader.digest b = some (d, rest)) :
    b = d.bytes ++ rest := by
  change (Reader.bytes Digest.size b).bind _ = _ at h
  obtain ⟨⟨front, rest'⟩, hfront, hd⟩ := Option.bind_eq_some_iff.1 h
  obtain ⟨hb, hlen⟩ := bytes_eq_some hfront
  change (Digest.ofBytes? front).bind _ = _ at hd
  unfold Digest.ofBytes? at hd
  rw [dif_pos (show front.length = 20 from hlen)] at hd
  obtain ⟨rfl, rfl⟩ := Prod.mk.inj (Option.some.inj hd)
  exact hb

end Inversion

/-! ## Readers one after the other -/

theorem bind_eq_ok {ε α β : Type} {b : Bytes} {x : StateT Bytes (Except ε) α}
    {f : α → StateT Bytes (Except ε) β} {r : β × Bytes} (h : (x >>= f) b = .ok r) :
    ∃ v rest, x b = .ok (v, rest) ∧ f v rest = .ok r := by
  change (x b).bind (fun v => f v.1 v.2) = .ok r at h
  cases hx : x b with
  | error fault => rw [hx] at h; cases h
  | ok v =>
    rw [hx] at h
    exact ⟨v.1, v.2, rfl, h⟩

/-- A result that may be a fault is none if a reader goes on after it. -/
theorem lift_bind_eq_ok {ε α β : Type} {b : Bytes} {x : Except ε α}
    {f : α → StateT Bytes (Except ε) β} {r : β × Bytes}
    (h : ((liftM x : StateT Bytes (Except ε) α) >>= f) b = .ok r) :
    ∃ v, x = .ok v ∧ f v b = .ok r := by
  cases x with
  | error fault => cases h
  | ok v => exact ⟨v, rfl, h⟩

theorem bind_ok {ε α β : Type} {b rest : Bytes} {x : StateT Bytes (Except ε) α}
    {f : α → StateT Bytes (Except ε) β} {v : α} (h : x b = .ok (v, rest)) :
    (x >>= f) b = f v rest := by
  show (x b).bind _ = _
  rw [h]
  rfl

theorem bind_error {ε α β : Type} {b : Bytes} {x : StateT Bytes (Except ε) α}
    {f : α → StateT Bytes (Except ε) β} {e : ε} (h : x b = .error e) :
    (x >>= f) b = .error e := by
  show (x b).bind _ = _
  rw [h]
  rfl

theorem lift_bind_ok {ε α β : Type} {b : Bytes} {x : Except ε α}
    {f : α → StateT Bytes (Except ε) β} {v : α} (h : x = .ok v) :
    ((liftM x : StateT Bytes (Except ε) α) >>= f) b = f v b := by
  subst h
  rfl

end Reader

end PathPolicy
