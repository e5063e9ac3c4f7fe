import PathPolicy.Proofs.RecordForm
import PathPolicy.Proofs.Rereading
import PathPolicy.Proofs.TextIdentity

/-!
# Decompiling and compiling again

The lines of a binary form hold each column as one word, and a text of them cuts it at its blanks;
that makes no difference to who reads them (`Rule.read_line`). So the lines that a policy is turned
into are read as its records, one by one, and make a policy with the same records
(`compile_decompile`). Whatever has the binary form is turned into lines, for its words are valid
(`decompile_eq_ok_iff`).
-/

namespace PathPolicy.Protection

open Config (Line)

/-! ## What is turned into lines -/

theorem Blob.isValid_of_decode {b : Bytes} {d : Digest} {rules : List Rule}
    (h : Blob.decode b = .ok (d, rules)) {r : Rule} (hr : r ∈ rules) : r.flags.isValid = true := by
  obtain ⟨-, hrecords⟩ := isForm_of_decode h
  clear h
  induction hrecords with
  | nil => cases hr
  | cons hrecord _ ih =>
    rcases List.mem_cons.1 hr with rfl | hr
    · cases hrecord
      assumption
    · exact ih hr

theorem decompile_of_decode {b : Bytes} {d : Digest} {rules : List Rule}
    (h : Blob.decode b = .ok (d, rules)) : decompile b = .ok (rules.map Rule.line) :=
  decompile_eq h fun _ hr => Blob.isValid_of_decode h hr

theorem decompile_eq_ok_iff (b : Bytes) :
    (∃ told, decompile b = .ok told) ↔ ∃ x, Blob.decode b = .ok x := by
  constructor
  · rintro ⟨told, htold⟩
    unfold decompile at htold
    cases h : Blob.decode b with
    | error fault =>
      rw [h] at htold
      cases htold
    | ok x => exact ⟨x, rfl⟩
  · rintro ⟨⟨d, rules⟩, h⟩
    exact ⟨_, decompile_of_decode h⟩

/-! ## The lines are read as the records -/

/-- The line of a rule is read as if its column were cut at the blanks. -/
theorem Rule.read_line {rule : Rule} (h : rule.flags.isValid = true) (r : Reader) :
    r.read rule.line.tokens = r.read rule.reread.tokens :=
  Reader.read_congr (Rule.text_reread h).symm rfl

/-- A policy is turned into lines, which make a policy with the same records and are what it is
turned into again. -/
structure Restores (ctx : Context) (p : Policy) (told : List Line) (p' : Policy)
    (records : List Rule) : Prop where
  compile_again : (compile told { ctx with strictness := .strict }).result = .ok p'
  decode : Blob.decode p.binary = .ok (p.digest, records)
  decode_again : Blob.decode p'.binary = .ok (p'.digest, records)
  decompile_again : decompile p'.binary = .ok told

theorem exists_restores {lines : List Line} {ctx : Context} {p : Policy}
    (hp : (compile lines ctx).result = .ok p) {told : List Line}
    (htold : decompile p.binary = .ok told) : ∃ p' records, Restores ctx p told p' records := by
  obtain ⟨d, hd, rfl⟩ := draft_of_compile hp
  have hrecordable : ∀ rule ∈ Blob.sorted d.rules.reverse, Blob.Recordable rule :=
    fun rule hrule => hd.recordable (hd.perm_sorted.mem_iff.1 hrule)
  have hdecode : ∀ digest, Blob.decode (Blob.bytesOf (Blob.sorted d.rules.reverse) digest) =
      .ok (digest, Blob.sorted d.rules.reverse) := by
    obtain ⟨_, hx⟩ := (decompile_eq_ok_iff _).1 ⟨told, htold⟩
    exact fun _ => Blob.decode_bytesOf hrecordable (Blob.length_lt_of_decode hrecordable hx)
  obtain rfl : (Blob.sorted d.rules.reverse).map Rule.line = told :=
    Except.ok.inj ((decompile_of_decode (hdecode _)).symm.trans htold)
  have hread : ((Blob.sorted d.rules.reverse).map Rule.line).map
      (fun line => (Reader.ofContext { ctx with strictness := .strict }).read line.tokens) =
        (Blob.sorted d.rules.reverse).map .ok := by
    have hallows : (Reader.ofContext { ctx with strictness := .strict }).Allows
        (Reader.ofContext ctx) := Reader.Allows.refl _
    rw [← hd.map_read_reread hallows, List.map_map]
    exact List.map_congr_left fun rule hrule => Rule.read_line (hrecordable rule hrule).isValid _
  obtain ⟨p', hp', -, hbinary⟩ := hd.compile_again hread
  refine ⟨p', _, hp', hdecode _, ?_, ?_⟩
  · rw [hbinary, hdecode]
  · rw [hbinary]
    exact decompile_of_decode (hdecode _)

/-- The policy of fewer lines than a count can say is turned into lines. Whatever lines a policy is
turned into, a strict compilation of them in the same context gives a policy with the same records,
which is turned into the same lines. Every binary form is turned into lines. -/
theorem compile_decompile (lines : List Line) (ctx : Context) :
    (∀ p, (compile lines ctx).result = .ok p →
      (lines.length < 2 ^ 32 → ∃ told, decompile p.binary = .ok told) ∧
        ∀ told, decompile p.binary = .ok told → ∃ p' records, Restores ctx p told p' records) ∧
      ∀ b, (∃ told, decompile b = .ok told) ↔ ∃ x, Blob.decode b = .ok x := by
  refine ⟨fun p hp => ⟨fun hlen => ?_, fun told htold => exists_restores hp htold⟩,
    decompile_eq_ok_iff⟩
  obtain ⟨records, htaken⟩ := isTaken_of_compile hp hlen
  exact ⟨_, decompile_of_decode htaken⟩

/-- The sample lines give a policy that is restored from its binary form. -/
theorem compile_decompile_sample : ∃ p told p' records,
    (compile sampleLines sampleContext).result = .ok p ∧ decompile p.binary = .ok told ∧
      Restores sampleContext p told p' records := by
  obtain ⟨p, hp, -⟩ :=
    compile_lenient sampleLines (show sampleContext.strictness = .lenient from rfl)
  obtain ⟨htold, hrestores⟩ := (compile_decompile sampleLines sampleContext).1 p hp
  obtain ⟨told, htold⟩ := htold (by decide)
  obtain ⟨p', records, h⟩ := hrestores told htold
  exact ⟨p, told, p', records, hp, htold, h⟩

end PathPolicy.Protection
