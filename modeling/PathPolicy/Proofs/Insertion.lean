import PathPolicy.Proofs.Growth

/-!
# Inserting rules

`Answers b node rules`: the nodes of the tree have the answers of the rules as their outputs, and
lead into the sink of the longest beginning that a rule is about. A rule may be inserted if it does
not cover what an earlier one covers (`MayFollow`): then the answers are those of all rules so far
(`Grown.insert`), and in the end those of the whole list (`Grown.insertAll`).
-/

namespace PathPolicy

namespace Builder

variable {b : Builder} {node : List Symbol → Option StateId} {rules : List Rule}

/-- The sink of the pattern that is a word. -/
def sinkAt (b : Builder) (node : List Symbol → Option StateId) (u : List Symbol) :
    Option StateId :=
  (node u).bind b.sink?

/-- The nodes answer as the rules do. -/
structure Answers (b : Builder) (node : List Symbol → Option StateId) (rules : List Rule) :
    Prop where
  mem : ∀ {r}, r ∈ rules → (node r.word).isSome
  fallback : ∀ {u c s}, node u = some s → node (u ++ [c]) = none →
    b.step s c = nearest (b.sinkAt node) u
  sink : ∀ u, (b.sinkAt node u).map b.output = (ruleAt rules false u).map fun r => some r.value
  output : ∀ {u s}, node u = some s → b.output s = answer rules u

theorem Answers.ruleAt_eq_none (ha : b.Answers node rules) {u : List Symbol} (hu : node u = none)
    (exact : Bool) : ruleAt rules exact u = none := by
  refine ruleAt_eq_none_iff.2 fun r hr _ hw => ?_
  have := ha.mem hr
  rw [hw, hu] at this
  cases this

theorem Answers.sinkAt_eq_none (ha : b.Answers node rules) {u : List Symbol}
    (hnone : ruleAt rules false u = none) : b.sinkAt node u = none := by
  have hmap := ha.sink u
  rw [hnone] at hmap
  exact Option.map_eq_none_iff.1 hmap

/-- As long as sinks keep their values, the sinks of words do. -/
theorem Tree.map_output_sinkAt {b' : Builder} (ht : b.Tree node)
    (h : ∀ s, b.IsSink node s → b'.output s = b.output s) (u : List Symbol) :
    (b.sinkAt node u).map b'.output = (b.sinkAt node u).map b.output := by
  refine Option.map_congr fun s hs => ?_
  obtain ⟨t, -, hts⟩ := Option.bind_eq_some_iff.1 hs
  exact h s (ht.sink hts)

/-- The sink that a word falls into has the value of the rule about its longest beginning. -/
theorem Answers.nearest_sinkAt (ha : b.Answers node rules) (u : List Symbol) :
    (nearest (b.sinkAt node) u).bind b.output =
      (nearest (ruleAt rules false) u).map (·.value) := by
  have hmap : (nearest (b.sinkAt node) u).map b.output =
      (nearest (ruleAt rules false) u).map fun r => some r.value := by
    rw [map_nearest, map_nearest]
    exact nearest_congr fun v _ => ha.sink v
  cases hs : nearest (b.sinkAt node) u <;> cases hr : nearest (ruleAt rules false) u <;>
    rw [hs, hr] at hmap
  · rfl
  · cases hmap
  · cases hmap
  · exact Option.some.inj hmap

/-! ## Values of the tree -/

section Values

variable (ht : b.Tree node) (ha : b.Answers node rules)

theorem IsSink.valueAlong_eq {s : StateId} (hs : b.IsSink node s) (v : List Symbol) :
    valueAlong b.step b.output s v = b.output s :=
  valueAlong_of_loop hs.loop v

theorem nearest_append {α : Type} {mark : List Symbol → Option α} {u v : List Symbol}
    (h : ∀ p, p ≠ [] → p <+: v → mark (u ++ p) = none) :
    nearest mark (u ++ v) = nearest mark u := by
  induction v using List.reverseRecOn with
  | nil => rw [List.append_nil]
  | append_singleton v c ih =>
    rw [← List.append_assoc, nearest_snoc, List.append_assoc, h _ (by simp) List.prefix_rfl,
      Option.none_or]
    exact ih fun p hp hpv => h p hp (hpv.trans (List.prefix_append _ _))

include ht ha

/-- Where a word leaves the tree, only rules about what came before are left. -/
theorem answer_of_leaf {u rest : List Symbol} {c : Symbol} (hc : node (u ++ [c]) = none) :
    answer rules (u ++ c :: rest) = (nearest (ruleAt rules false) u).map (·.value) := by
  have hnone : ∀ p, p ≠ [] → p <+: c :: rest → ∀ e, ruleAt rules e (u ++ p) = none := by
    intro p hp hpre e
    obtain ⟨d, q, rfl⟩ := List.exists_cons_of_ne_nil hp
    obtain ⟨rfl, -⟩ := List.cons_prefix_cons.1 hpre
    refine ha.ruleAt_eq_none (ht.eq_none_of_isPrefix hc ?_) e
    exact ⟨q, by simp⟩
  unfold answer
  rw [hnone (c :: rest) (by simp) List.prefix_rfl, Option.none_or,
    nearest_append fun p hp hpre => hnone p hp hpre false]

/-- From a node every word has the value that the rules give the whole of it. -/
theorem valueAlong_node {u : List Symbol} {s : StateId} (hu : node u = some s) (v : List Symbol) :
    valueAlong b.step b.output s v = answer rules (u ++ v) := by
  induction v generalizing u s with
  | nil =>
    rw [List.append_nil]
    exact ha.output hu
  | cons c rest ih =>
    rw [valueAlong]
    cases hc : node (u ++ [c]) with
    | some t =>
      rw [ht.child hu hc, Option.bind_some, ih hc, List.append_assoc]
      rfl
    | none =>
      rw [answer_of_leaf ht ha hc, ← ha.nearest_sinkAt u, ← ha.fallback hu hc]
      cases hst : b.step s c with
      | none => rfl
      | some t => exact (ht.leaf hu hc hst).valueAlong_eq rest

end Values

/-! ## A walk along a pattern -/

def walk (b : Builder) (r : Rule) : Cursor := r.word.foldl Cursor.advance ⟨b, 0, none⟩

/-- States were added, all of them nodes. What was a state before is as it was. -/
structure Extends (b : Builder) (node : List Symbol → Option StateId) (b' : Builder)
    (node' : List Symbol → Option StateId) : Prop where
  size_le : b.size ≤ b'.size
  keeps : ∀ {v s}, node v = some s → node' v = some s
  fresh : ∀ {v s}, node' v = some s → node v = some s ∨ b.size ≤ s
  cover : ∀ {s}, b.size ≤ s → s < b'.size → ∃ v, node' v = some s
  output : ∀ {s}, s < b.size → b'.output s = b.output s

theorem Extends.refl (b : Builder) (node : List Symbol → Option StateId) :
    b.Extends node b node :=
  ⟨Nat.le_refl _, id, .inl, fun hle hlt => absurd hlt (Nat.not_lt.2 hle), fun _ => rfl⟩

theorem Extends.trans {b₁ b₂ : Builder} {node₁ node₂ : List Symbol → Option StateId}
    (h : b.Extends node b₁ node₁) (h' : b₁.Extends node₁ b₂ node₂) : b.Extends node b₂ node₂ where
  size_le := h.size_le.trans h'.size_le
  keeps hv := h'.keeps (h.keeps hv)
  fresh hv := (h'.fresh hv).elim h.fresh fun hle => .inr (h.size_le.trans hle)
  cover := by
    intro s hle hlt
    rcases Nat.lt_or_ge s b₁.size with hs | hs
    · exact (h.cover hle hs).imp fun _ => h'.keeps
    · exact h'.cover hs hlt
  output hs := (h'.output (Nat.lt_of_lt_of_le hs h.size_le)).trans (h.output hs)

/-- A cursor has reached a word. -/
structure Cursor.At (k : Cursor) (node : List Symbol → Option StateId) (u : List Symbol) :
    Prop where
  state : node u = some k.state
  reached : k.reached = nearest (k.builder.sinkAt node) u
  inherited : ∀ s, k.inherited = some s → k.builder.IsSink node s

section Walk

variable {k : Cursor} {u : List Symbol} (ht : k.builder.Tree node)

include ht

theorem Cursor.At.isSink_reached (hk : k.At node u) {s : StateId} (hs : k.reached = some s) :
    k.builder.IsSink node s := by
  unfold Cursor.reached at hs
  cases hsink : k.builder.sink? k.state with
  | some t =>
    rw [hsink] at hs
    cases hs
    exact ht.sink hsink
  | none =>
    rw [hsink] at hs
    exact hk.inherited s hs

theorem Cursor.At.advance_child (hk : k.At node u) {c : Symbol} {t : StateId}
    (hc : node (u ++ [c]) = some t) :
    k.advance c = ⟨k.builder, t, k.reached⟩ := by
  rw [Cursor.advance_eq, ht.child hk.state hc]
  simp only [ht.isMatchAll_eq_false hc, Bool.false_eq_true, if_false]
  rfl

theorem Cursor.At.advance_leaf (hk : k.At node u) {c : Symbol} (hc : node (u ++ [c]) = none) :
    k.advance c = k.settle.fork c := by
  rw [Cursor.advance_eq]
  cases hst : k.builder.step k.state c with
  | none => rfl
  | some t => simp only [isMatchAll_iff.2 (ht.leaf hk.state hc hst).loop, if_true]

theorem sinkAt_fork (hu : node u = some k.state) {c : Symbol} (hc : node (u ++ [c]) = none) :
    (k.fork c).builder.sinkAt (grow node (u ++ [c]) k.builder.size) = k.builder.sinkAt node := by
  funext v
  unfold sinkAt
  by_cases hv : v = u ++ [c]
  · rw [hv, grow_self, hc, Option.bind_some, Cursor.sink?_fork (ht.lt hu), if_pos rfl]
    rfl
  · rw [grow_of_ne hv]
    cases hs : node v with
    | none => rfl
    | some s =>
      rw [Option.bind_some, Option.bind_some, Cursor.sink?_fork (ht.lt hu),
        if_neg (Nat.ne_of_lt (ht.lt hs))]

theorem Tree.extends_fork (hu : node u = some k.state) {c : Symbol}
    (hc : node (u ++ [c]) = none) :
    k.builder.Extends node (k.fork c).builder (grow node (u ++ [c]) k.builder.size) where
  size_le := by
    rw [Cursor.size_fork]
    exact Nat.le_succ _
  keeps := by
    intro v s hv
    rwa [grow_of_ne]
    rintro rfl
    rw [hc] at hv
    cases hv
  fresh hv := (grow_eq_some hv).elim (fun h => .inr h.2.ge) fun h => .inl h.2
  cover := by
    intro s hle hlt
    rw [Cursor.size_fork] at hlt
    exact ⟨u ++ [c], by rw [grow_self, Nat.le_antisymm hle (Nat.le_of_lt_succ hlt)]⟩
  output hs := by rw [Cursor.output_fork (ht.lt hu), if_neg (Nat.ne_of_lt hs)]

/-- A fork that falls back to the sink reached keeps the answers. -/
theorem Answers.fork (ha : k.builder.Answers node rules) (hu : node u = some k.state)
    (hi : k.inherited = nearest (k.builder.sinkAt node) u) {c : Symbol}
    (hc : node (u ++ [c]) = none) :
    (k.fork c).builder.Answers (grow node (u ++ [c]) k.builder.size) rules := by
  have hlt := ht.lt hu
  have hsink := sinkAt_fork ht hu hc
  refine ⟨?_, ?_, ?_, ?_⟩
  · intro r hr
    by_cases hv : r.word = u ++ [c]
    · rw [hv, grow_self]
      rfl
    · rw [grow_of_ne hv]
      exact ha.mem hr
  · intro v d s hv hvd
    rw [hsink]
    by_cases hd : v ++ [d] = u ++ [c]
    · rw [hd, grow_self] at hvd
      cases hvd
    rw [grow_of_ne hd] at hvd
    by_cases hv' : v = u ++ [c]
    · -- the fresh state: it falls back to what its parent would
      rw [hv', grow_self] at hv
      have hat : k.builder.sinkAt node (u ++ [c]) = none := by
        rw [sinkAt, hc]
        rfl
      rw [Cursor.step_fork hlt, if_pos (Option.some.inj hv).symm, hv', nearest_snoc, hat,
        Option.none_or, hi]
    · rw [grow_of_ne hv'] at hv
      rw [ht.step_fork_of_ne hu hv hd]
      exact ha.fallback hv hvd
  · intro v
    rw [hsink, ← ha.sink v]
    refine ht.map_output_sinkAt (fun s hs => ?_) v
    rw [Cursor.output_fork hlt, if_neg (Nat.ne_of_lt hs.lt)]
  · intro v s hv
    rw [Cursor.output_fork hlt]
    by_cases hv' : v = u ++ [c]
    · rw [hv', grow_self] at hv
      rw [if_pos (Option.some.inj hv).symm, hi, ha.nearest_sinkAt, hv', answer_of_leaf ht ha hc]
    · rw [grow_of_ne hv'] at hv
      rw [if_neg (Nat.ne_of_lt (ht.lt hv))]
      exact ha.output hv

/-- One symbol: the cursor reaches the longer word, which is a node from then on. -/
theorem Cursor.At.advance (hk : k.At node u) (c : Symbol) :
    ∃ node', (k.advance c).builder.Tree node' ∧ (k.advance c).At node' (u ++ [c]) ∧
      (∀ v, (node' v).isSome ↔ (node v).isSome ∨ v = u ++ [c]) ∧
      k.builder.Extends node (k.advance c).builder node' ∧
      ∀ rules, k.builder.Answers node rules → (k.advance c).builder.Answers node' rules := by
  cases hc : node (u ++ [c]) with
  | some t =>
    rw [hk.advance_child ht hc]
    refine ⟨node, ht, ⟨hc, ?_, fun s hs => hk.isSink_reached ht hs⟩, ?_, .refl _ _, fun _ ha => ha⟩
    · show (k.builder.sink? t).or k.reached = nearest (k.builder.sinkAt node) (u ++ [c])
      rw [nearest_snoc, ← hk.reached, sinkAt, hc]
      rfl
    · intro v
      refine ⟨Or.inl, fun h => h.elim id ?_⟩
      rintro rfl
      rw [hc]
      rfl
  | none =>
    rw [hk.advance_leaf ht hc]
    have hlt : k.settle.state < k.settle.builder.size := ht.lt hk.state
    have htree := ht.fork (k := k.settle) hk.state hc fun s hs => hk.isSink_reached ht hs
    refine ⟨_, htree, ⟨grow_self _ _ _, ?_, ?_⟩, ?_, ht.extends_fork (k := k.settle) hk.state hc,
      fun rules ha => ?_⟩
    · rw [Cursor.reached_fork hlt, sinkAt_fork (k := k.settle) ht hk.state hc, nearest_snoc,
        sinkAt, hc,
        Option.bind_none, Option.none_or]
      exact hk.reached
    · intro s hs
      exact (hk.isSink_reached ht hs).fork (k := k.settle) ht hk.state
    · intro v
      by_cases hv : v = u ++ [c]
      · rw [hv, grow_self]
        simp
      · rw [grow_of_ne hv]
        simp [hv]
    · exact ha.fork (k := k.settle) ht hk.state hk.reached hc

/-- A whole word: its beginnings are nodes from then on. -/
theorem Cursor.At.foldl (hk : k.At node u) (w : List Symbol) :
    ∃ node', (w.foldl Cursor.advance k).builder.Tree node' ∧
      (w.foldl Cursor.advance k).At node' (u ++ w) ∧
      (∀ v, (node' v).isSome ↔ (node v).isSome ∨ ∃ p, p <+: w ∧ v = u ++ p) ∧
      k.builder.Extends node (w.foldl Cursor.advance k).builder node' ∧
      ∀ rules, k.builder.Answers node rules →
        (w.foldl Cursor.advance k).builder.Answers node' rules := by
  induction w generalizing k u node with
  | nil =>
    refine ⟨node, ht, by rwa [List.append_nil], fun v => ⟨Or.inl, ?_⟩, .refl _ _, fun _ ha => ha⟩
    rintro (h | ⟨p, hp, rfl⟩)
    · exact h
    · rw [List.prefix_nil.1 hp, List.append_nil, hk.state]
      rfl
  | cons c rest ih =>
    obtain ⟨node₁, ht₁, hk₁, hdom₁, hext₁, hans₁⟩ := hk.advance ht c
    obtain ⟨node₂, ht₂, hk₂, hdom₂, hext₂, hans₂⟩ := ih ht₁ hk₁
    refine ⟨node₂, ht₂, by rwa [List.append_assoc] at hk₂, fun v => ?_, hext₁.trans hext₂,
      fun rules ha => hans₂ rules (hans₁ rules ha)⟩
    rw [hdom₂, hdom₁]
    constructor
    · rintro ((h | rfl) | ⟨p, hp, rfl⟩)
      · exact Or.inl h
      · exact Or.inr ⟨[c], by simp, rfl⟩
      · exact Or.inr ⟨c :: p, List.cons_prefix_cons.2 ⟨rfl, hp⟩, by simp⟩
    · rintro (h | ⟨p, hp, rfl⟩)
      · exact Or.inl (Or.inl h)
      · cases p with
        | nil =>
          rw [List.append_nil, hk.state]
          exact Or.inl (Or.inl rfl)
        | cons d q =>
          obtain ⟨rfl, hq⟩ := List.cons_prefix_cons.1 hp
          exact Or.inr ⟨q, hq, by simp⟩

omit ht in
theorem Tree.at_root (hb : b.Tree node) : Cursor.At ⟨b, 0, none⟩ node [] := by
  refine ⟨hb.root, ?_, fun s hs => by cases hs⟩
  rw [nearest_nil, sinkAt, hb.root]
  exact Option.or_none

omit ht in
/-- A walk along the word of one more rule: its beginnings are nodes from then on. -/
theorem Tree.walk (hb : b.Tree node)
    (hdom : ∀ v, (node v).isSome ↔ v = [] ∨ ∃ a ∈ rules, v <+: a.word) (r : Rule) :
    ∃ node', (b.walk r).builder.Tree node' ∧ (b.walk r).At node' r.word ∧
      (∀ v, (node' v).isSome ↔ v = [] ∨ ∃ a ∈ rules ++ [r], v <+: a.word) ∧
      b.Extends node (b.walk r).builder node' ∧
      ∀ rules, b.Answers node rules → (b.walk r).builder.Answers node' rules := by
  obtain ⟨node', htree, hat, hdom', hext, hans⟩ := hb.at_root.foldl hb r.word
  refine ⟨node', htree, hat, fun v => ?_, hext, hans⟩
  rw [hdom', hdom]
  simp only [List.nil_append, exists_eq_right', List.mem_append, List.mem_singleton, or_and_right,
    exists_or, exists_eq_left, or_assoc]

end Walk

/-! ## The end of a walk -/

section Finish

variable {k : Cursor} {u : List Symbol} {r : Rule}

theorem sinkAt_finish_exact (he : r.pattern.exact = true) :
    (k.finish r).sinkAt node = k.builder.sinkAt node := by
  funext v
  unfold sinkAt
  cases node v with
  | none => rfl
  | some s => exact Cursor.sink?_finish_exact he s

/-- Where no rule ends, the cursor has not reached another sink than it has inherited. -/
theorem Cursor.At.inherited_eq (hk : k.At node u) (hnone : k.builder.sinkAt node u = none) :
    k.inherited = nearest (k.builder.sinkAt node) u := by
  have hstate : k.builder.sink? k.state = none := by
    rwa [sinkAt, hk.state] at hnone
  rw [← hk.reached, Cursor.reached, hstate]
  rfl

theorem Answers.mem_append (ha : b.Answers node rules) (hr : (node r.word).isSome) {a : Rule}
    (h : a ∈ rules ++ [r]) : (node a.word).isSome := by
  rcases List.mem_append.1 h with h | h
  · exact ha.mem h
  · rwa [List.mem_singleton.1 h]

variable (ht : k.builder.Tree node)

include ht

theorem sinkAt_finish_close (hu : node u = some k.state) (he : r.pattern.exact = false)
    (v : List Symbol) :
    (k.finish r).sinkAt node v =
      if v = u then some k.builder.size else k.builder.sinkAt node v := by
  have hlt := ht.lt hu
  unfold sinkAt
  by_cases hvu : v = u
  · rw [if_pos hvu, hvu, hu, Option.bind_some, Cursor.sink?_finish_close he hlt,
      if_neg (Nat.ne_of_lt hlt), if_pos rfl]
  · rw [if_neg hvu]
    cases hv : node v with
    | none => rfl
    | some s =>
      rw [Option.bind_some, Option.bind_some, Cursor.sink?_finish_close he hlt,
        if_neg (Nat.ne_of_lt (ht.lt hv)), if_neg]
      rintro rfl
      exact hvu (ht.inj hv hu)

variable (ha : k.builder.Answers node rules) (hk : k.At node u) (hu : r.word = u)

include ha hk hu

/-- An exact rule answers its own word, and nothing else. -/
theorem Answers.finish_exact (he : r.pattern.exact = true)
    (hnew : ruleAt rules true u = none) : (k.finish r).Answers node (rules ++ [r]) := by
  have hlt := ht.lt hk.state
  have hfalse : ∀ v, ruleAt (rules ++ [r]) false v = ruleAt rules false v := by
    intro v
    rw [ruleAt_append, if_neg (by rw [he]; exact fun h => Bool.false_ne_true h.1.symm),
      Option.or_none]
  refine ⟨ha.mem_append (by rw [hu, hk.state]; rfl), ?_, ?_, ?_⟩
  · intro v c s hv hc
    rw [sinkAt_finish_exact he, Cursor.step_finish_exact he]
    exact ha.fallback hv hc
  · intro v
    rw [sinkAt_finish_exact he, hfalse, ← ha.sink v]
    exact ht.map_output_sinkAt (fun s hs => hs.output_finish ht hk.state) v
  · intro v s hv
    rw [Cursor.output_finish_exact he _ hlt]
    unfold answer
    rw [ruleAt_append, nearest_congr fun q _ => hfalse q]
    by_cases hvu : v = u
    · subst hvu
      rw [if_pos (Option.some.inj (hv.symm.trans hk.state)), hnew, if_pos ⟨he, hu⟩]
      rfl
    · rw [if_neg, if_neg, Option.or_none]
      · exact ha.output hv
      · exact fun h => hvu (h.2.symm.trans hu)
      · rintro rfl
        exact hvu (ht.inj hv hk.state)

/-- A rule about the beginning of a path answers every word that begins so, if no earlier rule is
about such a word. -/
theorem Answers.finish_close (he : r.pattern.exact = false) (hleaf : ∀ c, node (u ++ [c]) = none)
    (hnew : ∀ e, ruleAt rules e u = none) : (k.finish r).Answers node (rules ++ [r]) := by
  have hlt := ht.lt hk.state
  have hi := hk.inherited_eq (ha.sinkAt_eq_none (hnew false))
  have hsink := sinkAt_finish_close (r := r) ht hk.state he
  have hrule : ∀ e v, v ≠ u → ruleAt (rules ++ [r]) e v = ruleAt rules e v := by
    intro e v hvu
    rw [ruleAt_append, if_neg fun h => hvu (h.2.symm.trans hu), Option.or_none]
  have hself : ruleAt (rules ++ [r]) false u = some r := by
    rw [ruleAt_append, hnew, if_pos ⟨he, hu⟩]
    rfl
  -- a node other than the last one does not begin with its word
  have hbelow : ∀ v s, node v = some s → v ≠ u → ∀ q, q <+: v → q ≠ u := by
    rintro v s hv hvu q hq rfl
    exact hvu (ht.eq_of_isPrefix_of_leaf hleaf hv hq)
  refine ⟨ha.mem_append (by rw [hu, hk.state]; rfl), ?_, ?_, ?_⟩
  · intro v c s hv hc
    rw [Cursor.step_finish_close he hlt, if_neg (Nat.ne_of_lt (ht.lt hv))]
    by_cases hvu : v = u
    · subst hvu
      have hst := ha.fallback hv hc
      rw [if_pos (Option.some.inj (hv.symm.trans hk.state)), if_pos (Or.inr (hst.trans hi.symm))]
      exact (nearest_eq_of_some (by rw [hsink, if_pos rfl])).symm
    · rw [if_neg, nearest_congr fun q hq => (hsink q).trans (if_neg (hbelow v s hv hvu q hq))]
      · exact ha.fallback hv hc
      · rintro rfl
        exact hvu (ht.inj hv hk.state)
  · intro v
    rw [hsink]
    by_cases hvu : v = u
    · rw [if_pos hvu, hvu, hself, Option.map_some, Option.map_some,
        Cursor.output_finish_close he hlt, if_pos (Or.inl rfl)]
    · rw [if_neg hvu, hrule false v hvu, ← ha.sink v]
      exact ht.map_output_sinkAt (fun s hs => hs.output_finish ht hk.state) v
  · intro v s hv
    rw [Cursor.output_finish_close he hlt]
    unfold answer
    by_cases hvu : v = u
    · subst hvu
      have htrue : ruleAt (rules ++ [r]) true v = none := by
        rw [ruleAt_append, hnew, if_neg fun h => Bool.false_ne_true (he.symm.trans h.1)]
        rfl
      rw [if_pos (Or.inr (Option.some.inj (hv.symm.trans hk.state))), htrue, Option.none_or,
        nearest_eq_of_some hself]
      rfl
    · rw [if_neg, hrule true v hvu,
        nearest_congr fun q hq => hrule false q (hbelow v s hv hvu q hq)]
      · exact ha.output hv
      · rintro (rfl | rfl)
        · exact Nat.lt_irrefl _ (ht.lt hv)
        · exact hvu (ht.inj hv hk.state)

end Finish

/-! ## Insertion -/

end Builder

/-- Rule `r` may be inserted after rule `a`: it is about another pattern, and does not cover what
`a` covers. -/
def Rule.MayFollow (a r : Rule) : Prop :=
  a.pattern ≠ r.pattern ∧ (r.pattern.exact = false → ¬ r.word <+: a.word)

namespace Builder

variable {b : Builder} {rules : List Rule}

/-- A builder that has grown by the insertion of rules: a tree of the beginnings of their patterns
that answers as they do. -/
def Grown (b : Builder) (rules : List Rule) : Prop :=
  ∃ node, b.Tree node ∧ b.Answers node rules ∧
    ∀ v, (node v).isSome ↔ v = [] ∨ ∃ r ∈ rules, v <+: r.word

theorem grown_start : start.Grown [] := by
  have hsink : ∀ s, start.sink? s = none := by
    intro s
    rw [Option.eq_none_iff_forall_ne_some]
    intro t h
    obtain rfl : s = 0 := Nat.lt_one_iff.1 (lt_size_of_sink? h)
    cases h
  have hat : ∀ node u, start.sinkAt node u = none := by
    intro node u
    unfold sinkAt
    cases node u with
    | none => rfl
    | some s => exact hsink s
  refine ⟨_, tree_start, ⟨fun h => (List.not_mem_nil h).elim, ?_, fun u => ?_, ?_⟩, fun v => ?_⟩
  · intro u c s hu _
    obtain ⟨rfl, rfl⟩ := eq_of_start_node hu
    rw [step_start, nearest_eq_none_iff.2 fun v _ => hat _ v]
  · rw [hat]
    rfl
  · intro u s hu
    obtain ⟨rfl, rfl⟩ := eq_of_start_node hu
    rfl
  · by_cases hv : v = [] <;> simp [hv]

theorem insert_eq_finish (b : Builder) (r : Rule) : b.insert r = (b.walk r).finish r := rfl

theorem Grown.insert (hg : b.Grown rules) {r : Rule} (h : ∀ a ∈ rules, a.MayFollow r) :
    (b.insert r).Grown (rules ++ [r]) := by
  obtain ⟨node, ht, ha, hdom⟩ := hg
  obtain ⟨node', ht', hk', hdom', -, hans⟩ := ht.walk hdom r
  have ha' := hans rules ha
  have hdiff : ∀ a ∈ rules, a.pattern.exact = r.pattern.exact → a.word ≠ r.word :=
    fun a ham he hw => (h a ham).1 (Rule.pattern_eq hw he)
  rw [insert_eq_finish]
  cases he : r.pattern.exact with
  | true =>
    refine ⟨node', ht'.finish_exact he, ha'.finish_exact ht' hk' rfl he ?_, hdom'⟩
    exact ruleAt_eq_none_iff.2 fun a ham hae => hdiff a ham (hae.trans he.symm)
  | false =>
    refine ⟨node', ht'.finish_close hk'.state he hk'.inherited,
      ha'.finish_close ht' hk' rfl he (fun c => ?_) fun e => ?_, hdom'⟩
    · -- an earlier pattern that runs through this one would be covered by it
      rw [← Option.not_isSome_iff_eq_none, hdom']
      rintro (hnil | ⟨a, ham, hpre⟩)
      · simp at hnil
      rcases List.mem_append.1 ham with ham | ham
      · exact (h a ham).2 he ((List.prefix_append _ _).trans hpre)
      · have hle := hpre.length_le
        rw [List.mem_singleton.1 ham, List.length_append] at hle
        exact Nat.not_succ_le_self _ hle
    · exact ruleAt_eq_none_iff.2 fun a ham _ hw => (h a ham).2 he (hw ▸ List.prefix_rfl)

theorem Grown.insertAll {done rest : List Rule} (hg : b.Grown done)
    (h : (done ++ rest).Pairwise Rule.MayFollow) : (b.insertAll rest).Grown (done ++ rest) := by
  induction rest generalizing b done with
  | nil => rwa [List.append_nil]
  | cons r rest ih =>
    have hr := (List.pairwise_append.1 h).2.2
    have hg' := hg.insert fun a ha => hr a ha r List.mem_cons_self
    rw [List.append_cons] at h ⊢
    exact ih hg' h

/-- What has grown answers a path as the rules do. -/
theorem Grown.lookup (hg : b.Grown rules) {w : Bytes} (hw : 0 ∉ w) :
    b.automaton.lookup w = answer rules (symbolsOf w) := by
  obtain ⟨node, ht, ha, -⟩ := hg
  have hstep : b.automaton.step = b.step := by
    funext s c
    exact b.automaton_step s c
  have hout : b.automaton.output = b.output := funext b.automaton_output
  rw [Automaton.lookup_eq_pathValue, pathValue, if_neg hw, hstep, hout,
    valueAlong_node ht ha ht.root, List.nil_append]

theorem Grown.wellFormed (hg : b.Grown rules) : b.automaton.WellFormed := by
  obtain ⟨node, ht, -⟩ := hg
  exact ht.wellFormed

theorem Grown.size_pos (hg : b.Grown rules) : 0 < b.size := by
  obtain ⟨node, ht, -⟩ := hg
  exact ht.lt ht.root

end Builder

end PathPolicy
