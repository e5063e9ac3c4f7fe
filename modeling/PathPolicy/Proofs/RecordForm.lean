import Mathlib.Data.List.Forall2
import Mathlib.Tactic.IntervalCases
import PathPolicy.Proofs.Wire
import PathPolicy.Protection.Blob

/-!
# The form of records

What the reader of records takes is fixed by what it gives (`Consumes`): it leaves alone what
follows, and a proper beginning is too short for it. This passes from single words to records, to
lists of records and to the whole. So a byte string is read as rules exactly if it has their form,
one that was cut off is truncated wherever the cut is, and what is left over is counted
(`decode_form`).
-/

namespace PathPolicy.Protection.Blob

open PathPolicy.Reader (bind_ok bind_error bind_eq_ok)

/-! ## Readers and what they take -/

section Consumes

variable {α β : Type} {front back : Bytes} {x : α} {y : β}

/-- A reader takes these bytes and gives this value, whatever follows them. If some of them are
missing at the end, the byte string is truncated. -/
structure Consumes (r : StateT Bytes (Except Fault) α) (front : Bytes) (x : α) : Prop where
  whole : ∀ rest, r (front ++ rest) = .ok (x, rest)
  cut : ∀ n < front.length, r (front.take n) = .error .truncated

protected theorem Consumes.pure (x : α) : Consumes (pure x) [] x :=
  ⟨fun _ => rfl, fun _ hn => absurd hn (Nat.not_lt_zero _)⟩

/-- What two readers take one after the other. A cut is in what the first one takes, or in what the
second one takes. -/
protected theorem Consumes.bind {r : StateT Bytes (Except Fault) α}
    {f : α → StateT Bytes (Except Fault) β} (hr : Consumes r front x)
    (hf : Consumes (f x) back y) : Consumes (r >>= f) (front ++ back) y where
  whole rest := by
    rw [List.append_assoc, bind_ok (hr.whole _)]
    exact hf.whole rest
  cut n hn := by
    rcases Nat.lt_or_ge n front.length with hlt | hge
    · rw [List.take_append_of_le_length (Nat.le_of_lt hlt)]
      exact bind_error (hr.cut n hlt)
    · obtain ⟨m, rfl⟩ := Nat.exists_eq_add_of_le hge
      rw [List.take_length_add_append, bind_ok (hr.whole _)]
      rw [List.length_append] at hn
      exact hf.cut m (Nat.lt_of_add_lt_add_left hn)

/-- A reader of words or bytes takes what it finds in front of anything, if it finds nothing in a
part of it. -/
theorem consumes_read {r : PathPolicy.Reader α}
    (hwhole : ∀ rest, r (front ++ rest) = some (x, rest))
    (hcut : ∀ n < front.length, r (front.take n) = none) : Consumes (read r) front x where
  whole rest := by rw [read, hwhole]
  cut n hn := by rw [read, hcut n hn]

theorem read_eq_ok {r : PathPolicy.Reader α} {b rest : Bytes} (h : read r b = .ok (x, rest)) :
    r b = some (x, rest) := by
  unfold read at h
  split at h
  · rw [‹r b = _›, Except.ok.inj h]
  · cases h

theorem consumes_uint8 (a : UInt8) : Consumes (read PathPolicy.Reader.uint8) [a] a := by
  refine consumes_read (fun _ => rfl) fun n hn => ?_
  obtain rfl : n = 0 := Nat.lt_one_iff.1 hn
  rfl

theorem consumes_uint16 (w : UInt16) :
    Consumes (read PathPolicy.Reader.uint16) (Bytes.ofUInt16 w) w := by
  refine consumes_read (PathPolicy.Reader.uint16_append w) fun n hn => ?_
  have hlt : n < 2 := hn
  interval_cases n <;> rfl

theorem consumes_uint32 (w : UInt32) :
    Consumes (read PathPolicy.Reader.uint32) (Bytes.ofUInt32 w) w := by
  refine consumes_read (PathPolicy.Reader.uint32_append w) fun n hn => ?_
  have hlt : n < 4 := hn
  interval_cases n <;> rfl

theorem consumes_bytes {n : Nat} (h : front.length = n) :
    Consumes (read (PathPolicy.Reader.bytes n)) front front := by
  refine consumes_read (fun _ => PathPolicy.Reader.bytes_append h) fun m hm => ?_
  exact PathPolicy.Reader.bytes_of_length_lt (by rw [List.length_take]; omega)

theorem consumes_digest (d : Digest) : Consumes (read PathPolicy.Reader.digest) d.bytes d := by
  refine consumes_read (PathPolicy.Reader.digest_append d) fun n hn => ?_
  have hsize : (d.bytes.take n).length < Digest.size := by
    rw [List.length_take]
    rw [d.length_bytes] at hn
    exact Nat.lt_of_le_of_lt (Nat.min_le_left _ _) hn
  show (PathPolicy.Reader.bytes Digest.size _).bind _ = _
  rw [PathPolicy.Reader.bytes_of_length_lt hsize]
  rfl

end Consumes

/-! ## Records -/

/-- A byte string is a record of a rule. Any byte but zero says that the rule is exact. -/
inductive IsRecord (r : Rule) : Bytes → Prop
  | intro {size : UInt16} {mark : UInt8} (hsize : size.toNat = r.path.utf8ByteSize)
      (hvalid : r.flags.isValid) (hmark : mark = 0 ↔ r.exact = false) :
      IsRecord r (Bytes.ofUInt16 size ++ Bytes.ofUInt16 r.flags.bits ++ [mark]
        ++ Bytes.ofString r.path)

/-- A byte string has the form of rules under a digest. -/
inductive IsForm (d : Digest) (rules : List Rule) : Bytes → Prop
  | intro {count : UInt32} {records : List Bytes} (hcount : count.toNat = rules.length)
      (hrecords : List.Forall₂ IsRecord rules records) :
      IsForm d rules (magic ++ Bytes.ofUInt32 version ++ Bytes.ofUInt32 count ++ d.bytes
        ++ records.flatten)

section Read

variable {r : Rule} {rules : List Rule} {b rest : Bytes} {d : Digest}

theorem consumes_readRecord (h : IsRecord r b) : Consumes readRecord b r := by
  obtain ⟨hsize, hvalid, hmark⟩ := h
  rename_i size mark
  have hpath : (Bytes.ofString r.path).length = size.toNat := by
    rw [Bytes.length_ofString, hsize]
  have hexact : decide (mark ≠ 0) = r.exact := by
    cases hr : r.exact <;> simp [hmark, hr]
  unfold readRecord
  simp only [List.append_assoc]
  refine (consumes_uint16 size).bind ((consumes_uint16 r.flags.bits).bind
    ((consumes_uint8 mark).bind ?_))
  rw [← List.append_nil (Bytes.ofString r.path)]
  refine (consumes_bytes hpath).bind ?_
  simp only [Bytes.toString?_ofString, hvalid, if_true, hexact]
  exact .pure r

theorem readRecord_eq_ok (h : readRecord b = .ok (r, rest)) :
    ∃ front, IsRecord r front ∧ b = front ++ rest := by
  obtain ⟨size, b₁, hsize, h⟩ := bind_eq_ok h
  obtain ⟨bits, b₂, hbits, h⟩ := bind_eq_ok h
  obtain ⟨mark, b₃, hmark, h⟩ := bind_eq_ok h
  obtain ⟨raw, b₄, hraw, h⟩ := bind_eq_ok h
  cases hpath : raw.toString? with
  | none =>
    simp only [hpath] at h
    cases h
  | some path =>
    simp only [hpath] at h
    by_cases hvalid : Flags.isValid ⟨bits⟩
    · rw [if_pos hvalid] at h
      obtain ⟨rfl, rfl⟩ := Prod.mk.inj (Except.ok.inj h)
      obtain ⟨hb₃, hlen⟩ := PathPolicy.Reader.bytes_eq_some (read_eq_ok hraw)
      obtain rfl := Bytes.toString?_eq_some hpath
      have hpathSize : size.toNat = path.utf8ByteSize := by rw [← hlen, Bytes.length_ofString]
      have hexact : mark = 0 ↔ decide (mark ≠ 0) = false := by simp
      refine ⟨_, .intro hpathSize hvalid hexact, ?_⟩
      rw [PathPolicy.Reader.uint16_eq_some (read_eq_ok hsize),
        PathPolicy.Reader.uint16_eq_some (read_eq_ok hbits),
        PathPolicy.Reader.uint8_eq_some (read_eq_ok hmark), hb₃]
      simp only [List.append_assoc]
    · rw [if_neg hvalid] at h
      cases h

theorem consumes_readRecords {records : List Bytes} (h : List.Forall₂ IsRecord rules records)
    (done : List Rule) :
    Consumes (readRecords done rules.length) records.flatten (done.reverse ++ rules) := by
  induction h generalizing done with
  | nil =>
    rw [List.append_nil]
    exact .pure _
  | @cons r front more records hr _ ih =>
    rw [List.length_cons, readRecords, List.flatten_cons]
    have hmore := ih (r :: done)
    rw [List.reverse_cons, List.append_assoc] at hmore
    exact (consumes_readRecord hr).bind hmore

theorem readRecords_eq_ok {n : Nat} {done : List Rule}
    (h : readRecords done n b = .ok (rules, rest)) :
    ∃ more records, more.length = n ∧ List.Forall₂ IsRecord more records ∧
      rules = done.reverse ++ more ∧ b = records.flatten ++ rest := by
  induction n generalizing b done with
  | zero =>
    obtain ⟨rfl, rfl⟩ := Prod.mk.inj (Except.ok.inj h)
    exact ⟨[], [], rfl, .nil, (List.append_nil _).symm, rfl⟩
  | succ n ih =>
    obtain ⟨r, b', hr, hmore⟩ := bind_eq_ok h
    obtain ⟨front, hfront, rfl⟩ := readRecord_eq_ok hr
    obtain ⟨more, records, hlen, hrecords, rfl, rfl⟩ := ih hmore
    refine ⟨r :: more, front :: records, congrArg (· + 1) hlen, .cons hfront hrecords, ?_, ?_⟩
    · rw [List.reverse_cons, List.append_assoc]
      rfl
    · rw [List.flatten_cons, List.append_assoc]

theorem consumes_readHeader (count : UInt32) (d : Digest) :
    Consumes readHeader (Bytes.ofUInt32 version ++ (Bytes.ofUInt32 count ++ d.bytes))
      (count.toNat, d) := by
  unfold readHeader
  refine (consumes_uint32 version).bind ((consumes_uint32 count).bind ?_)
  rw [← List.append_nil d.bytes]
  refine (consumes_digest d).bind ?_
  rw [if_neg (not_not_intro rfl)]
  exact .pure _

theorem readHeader_eq_ok {n : Nat} (h : readHeader b = .ok ((n, d), rest)) :
    ∃ count : UInt32, count.toNat = n ∧
      b = Bytes.ofUInt32 version ++ (Bytes.ofUInt32 count ++ d.bytes) ++ rest := by
  obtain ⟨v, b₁, hv, h⟩ := bind_eq_ok h
  obtain ⟨count, b₂, hcount, h⟩ := bind_eq_ok h
  obtain ⟨d', b₃, hd, h⟩ := bind_eq_ok h
  by_cases hversion : v = version
  · rw [if_neg (not_not_intro hversion)] at h
    obtain ⟨hheader, rfl⟩ := Prod.mk.inj (Except.ok.inj h)
    obtain ⟨rfl, rfl⟩ := Prod.mk.inj hheader
    refine ⟨count, rfl, ?_⟩
    rw [PathPolicy.Reader.uint32_eq_some (read_eq_ok hv),
      PathPolicy.Reader.uint32_eq_some (read_eq_ok hcount),
      PathPolicy.Reader.digest_eq_some (read_eq_ok hd), hversion]
    simp only [List.append_assoc]
  · rw [if_pos hversion] at h
    cases h

end Read

/-! ## The whole -/

section Decode

variable {rules : List Rule} {b : Bytes} {d : Digest}

/-- Reads what is behind the magic. -/
def readBody : StateT Bytes (Except Fault) (Digest × List Rule) := do
  let (count, d) ← readHeader
  let rules ← readRecords [] count
  return (d, rules)

/-- What is behind the magic is read first; then nothing may be left over. -/
theorem decode_magic_append (b : Bytes) : decode (magic ++ b) = (readBody b).bind fun x =>
    if x.2.isEmpty then .ok x.1 else .error (.trailingBytes x.2.length) := by
  have hmagic : magic.isPrefixOf (magic ++ b) = true :=
    List.isPrefixOf_iff_prefix.2 (List.prefix_append _ _)
  unfold decode
  rw [hmagic, List.drop_left]
  show (readHeader b).bind _ = Except.bind ((readHeader b).bind _) _
  cases readHeader b with
  | error => rfl
  | ok header =>
    show Except.bind (readRecords [] header.1.1 header.2) _ =
      Except.bind (Except.bind (readRecords [] header.1.1 header.2) _) _
    cases readRecords [] header.1.1 header.2 with
    | error => rfl
    | ok x => rfl

theorem decode_of_magic_ne (h : ¬ magic <+: b) : decode b = .error .badMagic := by
  have hmagic : magic.isPrefixOf b = false := by
    rw [← Bool.not_eq_true, List.isPrefixOf_iff_prefix]
    exact h
  unfold decode
  rw [hmagic]
  rfl

theorem IsForm.exists_body (h : IsForm d rules b) :
    ∃ body, b = magic ++ body ∧ Consumes readBody body (d, rules) := by
  obtain ⟨hcount, hrecords⟩ := h
  rename_i count records
  refine ⟨Bytes.ofUInt32 version ++ (Bytes.ofUInt32 count ++ d.bytes) ++ (records.flatten ++ []),
    by simp only [List.append_assoc, List.append_nil], ?_⟩
  refine (consumes_readHeader count d).bind ((?_ : Consumes _ _ rules).bind (.pure (d, rules)))
  rw [hcount]
  exact consumes_readRecords hrecords []

/-- What was read as rules under a digest has their form. -/
theorem isForm_of_decode (h : decode b = .ok (d, rules)) : IsForm d rules b := by
  by_cases hmagic : magic <+: b
  · obtain ⟨body, rfl⟩ := hmagic
    rw [decode_magic_append] at h
    cases hbody : readBody body with
    | error fault =>
      rw [hbody] at h
      cases h
    | ok x =>
      rw [hbody] at h
      obtain ⟨header, rest, hheader, hread⟩ := bind_eq_ok hbody
      obtain ⟨rules', rest', hrules, hpure⟩ := bind_eq_ok hread
      obtain rfl := Except.ok.inj hpure
      replace h : (if rest'.isEmpty then Except.ok (header.2, rules')
        else Except.error (Fault.trailingBytes rest'.length)) = Except.ok (d, rules) := h
      by_cases hempty : rest'.isEmpty
      · rw [if_pos hempty] at h
        obtain ⟨rfl, rfl⟩ := Prod.mk.inj (Except.ok.inj h)
        obtain ⟨count, hcount, rfl⟩ := readHeader_eq_ok hheader
        obtain ⟨more, records, hlen, hrecords, rfl, rfl⟩ := readRecords_eq_ok hrules
        rw [List.isEmpty_iff.1 hempty, List.append_nil]
        have hform := IsForm.intro (d := header.2) (hcount.trans hlen.symm) hrecords
        simpa only [List.append_assoc, List.reverse_nil, List.nil_append] using hform
      · rw [if_neg hempty] at h
        cases h
  · rw [decode_of_magic_ne hmagic] at h
    cases h

theorem IsForm.decode (h : IsForm d rules b) : Blob.decode b = .ok (d, rules) := by
  obtain ⟨body, rfl, hbody⟩ := h.exists_body
  have hwhole := hbody.whole []
  rw [List.append_nil] at hwhole
  rw [decode_magic_append, hwhole]
  rfl

/-- What follows the form is left over. -/
theorem IsForm.decode_append (h : IsForm d rules b) {s : Bytes} (hs : s ≠ []) :
    Blob.decode (b ++ s) = .error (.trailingBytes s.length) := by
  obtain ⟨body, rfl, hbody⟩ := h.exists_body
  rw [List.append_assoc, decode_magic_append, hbody.whole]
  show (if s.isEmpty then _ else _) = _
  rw [if_neg (mt List.isEmpty_iff.1 hs)]

/-- A form that was cut off behind its magic is too short. -/
theorem IsForm.decode_take (h : IsForm d rules b) {n : Nat} (hn : n < b.length) :
    Blob.decode (b.take n) = .error (if n < magic.length then .badMagic else .truncated) := by
  obtain ⟨body, rfl, hbody⟩ := h.exists_body
  by_cases hcut : n < magic.length
  · rw [if_pos hcut]
    refine decode_of_magic_ne fun hprefix => ?_
    have hlen := hprefix.length_le
    rw [List.length_take] at hlen
    omega
  · obtain ⟨m, rfl⟩ := Nat.exists_eq_add_of_le (Nat.le_of_not_lt hcut)
    rw [List.length_append] at hn
    rw [if_neg hcut, List.take_length_add_append, decode_magic_append,
      hbody.cut m (Nat.lt_of_add_lt_add_left hn)]
    rfl

/-- A byte string is read as rules exactly if it has their form. If it does, every proper beginning
of it is noticed, and so is everything that follows it. -/
theorem decode_form (b : Bytes) :
    (∀ d rules, decode b = .ok (d, rules) ↔ IsForm d rules b) ∧
    ∀ d rules, decode b = .ok (d, rules) →
      (∀ n < b.length, decode (b.take n) = .error (if n < 8 then .badMagic else .truncated)) ∧
      ∀ s ≠ [], decode (b ++ s) = .error (.trailingBytes s.length) :=
  ⟨fun _ _ => ⟨isForm_of_decode, IsForm.decode⟩, fun _ _ h =>
    ⟨fun _ hn => (isForm_of_decode h).decode_take hn,
      fun _ hs => (isForm_of_decode h).decode_append hs⟩⟩

/-- The form of one exact rule for `/bin`, with the mark `7`. -/
def singleForm : Bytes :=
  magic ++ Bytes.ofUInt32 version ++ Bytes.ofUInt32 1 ++ (Digest.replicate 9).bytes
    ++ [Bytes.ofUInt16 4 ++ Bytes.ofUInt16 0 ++ [7] ++ Bytes.ofString "/bin"].flatten

theorem decode_form_single :
    decode singleForm = .ok (Digest.replicate 9, [⟨"/bin", .none, true⟩]) ∧
    decode (singleForm.take 43) = .error .truncated ∧
    decode (singleForm ++ [0, 0]) = .error (.trailingBytes 2) := by
  have hrecord : IsRecord ⟨"/bin", .none, true⟩
      (Bytes.ofUInt16 4 ++ Bytes.ofUInt16 0 ++ [7] ++ Bytes.ofString "/bin") :=
    .intro (by decide) (by decide) (by decide)
  obtain ⟨hform, hexact⟩ := decode_form singleForm
  have hread := (hform (.replicate 9) _).2 (.intro (by decide) (.cons hrecord .nil))
  obtain ⟨hcut, hrest⟩ := hexact _ _ hread
  have hlen : 43 < singleForm.length := by
    unfold singleForm
    simp only [List.length_append, List.flatten_cons, Bytes.length_ofString,
      Digest.length_bytes]
    decide
  exact ⟨hread, hcut 43 hlen, hrest [0, 0] (by decide)⟩

end Decode

end PathPolicy.Protection.Blob
