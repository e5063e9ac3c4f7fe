import PathPolicy.Proofs.TableDecoding

/-!
# Looking up a path stays inside the tables

A look-up reads the tables at places that the tables themselves name: the base of a state leads to a
row, and the owner of an entry decides whether the row or the default counts. The look-up is repeated
here with an account of what it does, and with no value where an entry that it reads is missing.

Decoding checks every part on its own. That is enough for one invariant, which a step keeps whoever
owns the entry: the state is one of the tables. Everything that is read for such a state is there
(`Packed.WellFormed.inside`), so a look-up in tables that were decoded has a value, whatever bytes
they were decoded from (`Packed.lookup?_of_decode`).
-/

namespace PathPolicy.Packed

/-! ## Look-ups that may fail -/

/-- The target of state `s` on symbol `c`, unless an entry that is read is missing. -/
def step? (t : Packed) (s : StateId) (c : Symbol) : Option (Option StateId) := do
  let group ← t.base[s]?
  let owner ← t.owners[group * 255 + c.val]?
  if owner = some s then t.targets[group * 255 + c.val]? else t.default[s]?

/-- What a look-up did: the states that it was in, how many targets it read, and what it found. -/
structure Course where
  passed : List StateId
  transitions : Nat
  value : Option Value

/-- The look-up of a path from state `s`, unless an entry that is read is missing. -/
def lookupFrom? (t : Packed) (s : StateId) : Bytes → Option Course
  | [] => do
    let value ← t.outputs[s]?
    return ⟨[s], 0, value⟩
  | b :: rest =>
    match symbol? b with
    | none => some ⟨[s], 0, none⟩
    | some c => do
      let target ← t.step? s c
      match target with
      | none => return ⟨[s], 1, none⟩
      | some next => do
        let course ← t.lookupFrom? next rest
        return ⟨s :: course.passed, course.transitions + 1, course.value⟩

/-- The look-up of a path, unless an entry that is read is missing. -/
def lookup? (t : Packed) (path : Bytes) : Option Course := t.lookupFrom? 0 path

/-- Everything that is read for a state is there: the state has a default, a base that is a group,
entries in the row of that group, and an output. -/
structure Inside (t : Packed) (s : StateId) : Prop where
  state : s < t.states
  base : ∃ group, t.base[s]? = some group ∧ group < t.groups
  target : ∀ c, t.index s c < t.targets.size
  owner : ∀ c, t.index s c < t.owners.size
  output : s < t.outputs.size

section Inside

variable {t : Packed} {s next : StateId} {c : Symbol}

theorem index_eq {group : Nat} (h : t.base[s]? = some group) (c : Symbol) :
    t.index s c = group * 255 + c.val := by
  rw [index, Array.getD_eq_getD_getElem?, h, Option.getD_some]

theorem getElem?_of_lt {α : Type} {xs : Array α} {i : Nat} (h : i < xs.size) (x : α) :
    xs[i]? = some (xs.getD i x) := by
  rw [Array.getD_eq_getD_getElem?, Array.getElem?_eq_getElem h, Option.getD_some]

theorem WellFormed.inside (ht : t.WellFormed) (hs : s < t.states) : t.Inside s := by
  have hbase : s < t.base.size := hs.trans_eq ht.base_size.symm
  have hgroup : t.base[s] < t.groups := ht.base_valid _ (Array.getElem_mem hbase)
  -- a row of a group lies before the end of the last one
  have hindex : ∀ c, t.index s c < t.groups * 255 := by
    intro c
    rw [index_eq (Array.getElem?_eq_getElem hbase)]
    have hc := c.isLt
    omega
  exact ⟨hs, ⟨_, Array.getElem?_eq_getElem hbase, hgroup⟩,
    fun c => (hindex c).trans_eq ht.targets_size.symm,
    fun c => (hindex c).trans_eq ht.owners_size.symm, hs.trans_eq ht.outputs_size.symm⟩

theorem Inside.step?_eq (h : t.Inside s) (c : Symbol) : t.step? s c = some (t.step s c) := by
  obtain ⟨group, hgroup, -⟩ := h.base
  have hindex := index_eq hgroup c
  have howner := getElem?_of_lt (h.owner c) none
  have htarget := getElem?_of_lt (h.target c) none
  have hdefault : t.default[s]? = some (t.default.getD s none) := getElem?_of_lt h.state none
  unfold step? step
  rw [hindex] at howner htarget ⊢
  simp only [hgroup, howner, htarget, hdefault, Option.bind_eq_bind, Option.bind_some]
  split <;> rfl

theorem Inside.output_eq (h : t.Inside s) : t.outputs[s]? = some (t.output s) :=
  getElem?_of_lt h.output none

theorem lt_of_valid {xs : Array (Option StateId)} {i : Nat}
    (hvalid : ∀ e ∈ xs, validTarget t.states e = true) (h : xs.getD i none = some next) :
    next < t.states := by
  rw [Array.getD_eq_getD_getElem?] at h
  cases hi : xs[i]? with
  | none =>
    rw [hi] at h
    cases h
  | some e =>
    rw [hi, Option.getD_some] at h
    subst h
    exact of_decide_eq_true (hvalid _ (Array.mem_of_getElem? hi))

/-- Steps stay inside the tables, whoever owns the entry. -/
theorem WellFormed.step_lt (ht : t.WellFormed) (h : t.step s c = some next) : next < t.states := by
  unfold step at h
  split at h
  · exact lt_of_valid ht.targets_valid h
  · exact lt_of_valid ht.default_valid h

end Inside

/-! ## Whole look-ups -/

/-- What is known of the look-up of a path from state `s`: it finds what the walk finds, reads no
more than one target for each byte, is in the states that the walk passes, and all of them are
inside the tables. -/
structure Course.Of (t : Packed) (s : StateId) (path : Bytes) (course : Course) : Prop where
  value : course.value = (t.walk s path).bind t.output
  transitions_le : course.transitions ≤ path.length
  length_le : course.passed.length ≤ course.transitions + 1
  passed : ∀ k ≤ path.length, course.passed[k]? = t.walk s (path.take k)
  inside : ∀ r ∈ course.passed, t.Inside r

section Course

variable {t : Packed} {s next : StateId} {b : UInt8} {c : Symbol} {rest : Bytes}

theorem Course.of_nil (h : t.Inside s) : Course.Of t s [] ⟨[s], 0, t.output s⟩ where
  value := rfl
  transitions_le := Nat.le_refl 0
  length_le := Nat.le_refl 1
  passed := fun k hk => by
    obtain rfl := Nat.le_zero.1 hk
    rfl
  inside := fun r hr => List.mem_singleton.1 hr ▸ h

/-- The look-up of a path that goes no further, with or without a target that was read. -/
theorem Course.of_stop (h : t.Inside s) (hstop : ∀ more, t.walk s (b :: more) = none) {n : Nat}
    (hn : n ≤ 1) : Course.Of t s (b :: rest) ⟨[s], n, none⟩ where
  value := by rw [hstop]; rfl
  transitions_le := Nat.le_trans hn (Nat.le_add_left 1 _)
  length_le := Nat.le_add_left 1 n
  passed := fun k hk => by
    cases k with
    | zero => rfl
    | succ k => rw [List.take_succ_cons, hstop]; rfl
  inside := fun r hr => List.mem_singleton.1 hr ▸ h

/-- The look-up of a path that goes on in the next state. -/
theorem Course.Of.cons {course : Course} (h : t.Inside s) (hb : symbol? b = some c)
    (hstep : t.step s c = some next) (hcourse : course.Of t next rest) :
    Course.Of t s (b :: rest)
      ⟨s :: course.passed, course.transitions + 1, course.value⟩ where
  value := by rw [walk_cons, hb, Option.bind_some, hstep]; exact hcourse.value
  transitions_le := Nat.succ_le_succ hcourse.transitions_le
  length_le := Nat.succ_le_succ hcourse.length_le
  passed := fun k hk => by
    cases k with
    | zero => rfl
    | succ k =>
      rw [List.take_succ_cons, walk_cons, hb, Option.bind_some, hstep, List.getElem?_cons_succ]
      exact hcourse.passed k (Nat.le_of_succ_le_succ hk)
  inside := fun r hr => by
    rcases List.mem_cons.1 hr with rfl | hr
    · exact h
    · exact hcourse.inside r hr

/-- From a state of well-formed tables every path is looked up without an entry missing. -/
theorem WellFormed.exists_course (ht : t.WellFormed) (hs : s < t.states) (path : Bytes) :
    ∃ course, t.lookupFrom? s path = some course ∧ course.Of t s path := by
  have h := ht.inside hs
  induction path generalizing s with
  | nil =>
    refine ⟨_, ?_, Course.of_nil h⟩
    unfold lookupFrom?
    rw [h.output_eq]
    rfl
  | cons b rest ih =>
    unfold lookupFrom?
    cases hb : symbol? b with
    | none =>
      refine ⟨_, rfl, Course.of_stop h (fun more => ?_) (Nat.zero_le 1)⟩
      rw [walk_cons, hb, Option.bind_none]
    | some c =>
      simp only [h.step?_eq c, Option.bind_eq_bind, Option.bind_some]
      cases hstep : t.step s c with
      | none =>
        refine ⟨_, rfl, Course.of_stop h (fun more => ?_) (Nat.le_refl 1)⟩
        rw [walk_cons, hb, Option.bind_some, hstep, Option.bind_none]
      | some next =>
        have hnext := ht.step_lt hstep
        obtain ⟨course, hcourse, hof⟩ := ih hnext (ht.inside hnext)
        simp only [hcourse, Option.bind_some]
        exact ⟨_, rfl, hof.cons h hb hstep⟩

end Course

/-- A look-up in tables that were decoded finds every entry that it reads, whatever bytes they were
decoded from, and gives the value of the path. It reads no more than one target for each byte. The
states that it is in are those that the beginnings of the path lead to; each is a state of the
tables, with a base that is a group, and with indices that are inside all tables. -/
theorem lookup?_of_decode {b : Bytes} {expected : Option Digest} {t : Packed}
    (h : decode b expected = .ok t) (path : Bytes) :
    ∃ course, t.lookup? path = some course ∧ course.value = t.lookup path ∧
      course.transitions ≤ path.length ∧ course.passed.length ≤ course.transitions + 1 ∧
      (∀ k ≤ path.length, course.passed[k]? = t.walk 0 (path.take k)) ∧
      ∀ s ∈ course.passed, t.Inside s := by
  obtain ⟨ht, -⟩ := eq_encode_of_decode h
  obtain ⟨course, hcourse, hof⟩ := ht.exists_course ht.states_pos path
  have hvalue : (t.walk 0 path).bind t.output = t.lookup path :=
    (t.walk_bind_output 0 path).trans (t.lookup_eq_pathValue path).symm
  exact ⟨course, hcourse, hof.value.trans hvalue, hof.transitions_le, hof.length_le, hof.passed,
    hof.inside⟩

/-- Tables that no automaton is packed to: each state has a row of its own, but the first one owns
the entries of both. -/
def crossed : Packed where
  default := #[none, some 0]
  base := #[1, 0]
  targets := Array.replicate 510 (some 1)
  owners := Array.replicate 510 (some 0)
  outputs := #[some 5, none]

theorem groups_crossed : crossed.groups = 2 := by
  rw [groups, crossed, Array.size_replicate]

theorem wellFormed_crossed : crossed.WellFormed where
  states_pos := by decide
  states_lt := by decide
  groups_pos := by rw [groups_crossed]; decide
  groups_le := by rw [groups_crossed]; decide
  base_size := rfl
  outputs_size := rfl
  targets_size := by rw [groups_crossed, crossed, Array.size_replicate]
  owners_size := by rw [groups_crossed, crossed, Array.size_replicate]
  default_valid := by decide
  targets_valid := fun e he => by
    rw [(Array.mem_replicate.1 he).2]
    rfl
  owners_valid := fun e he => by
    rw [(Array.mem_replicate.1 he).2]
    rfl
  base_valid := by rw [groups_crossed]; decide
  outputs_valid := by simp [crossed, reservedValue]

theorem lookup?_of_decode_crossed :
    decode (crossed.encode (Digest.replicate 7)) none = .ok crossed ∧
      ∃ course, crossed.lookup? [0x2f, 0x61, 0x62] = some course ∧
        course.value = crossed.lookup [0x2f, 0x61, 0x62] ∧ course.transitions ≤ 3 ∧
        course.passed.length ≤ course.transitions + 1 ∧
        (∀ k ≤ 3, course.passed[k]? = crossed.walk 0 (List.take k [0x2f, 0x61, 0x62])) ∧
        ∀ s ∈ course.passed, crossed.Inside s := by
  have hdecode := decode_encode wellFormed_crossed (Digest.replicate 7) (.inl rfl)
  exact ⟨hdecode, lookup?_of_decode hdecode [0x2f, 0x61, 0x62]⟩

end PathPolicy.Packed
