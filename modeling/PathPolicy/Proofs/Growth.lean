import PathPolicy.Proofs.Cursor

/-!
# The shape of an automaton under construction

`Tree b node`: the states of `b` are the nodes of a tree of words, which `node` numbers, and sinks.
A node leads to its children, and otherwise nowhere or into a sink. The lone start state is such a
tree, and a walk along any pattern keeps it one (`Tree.fork`, `Tree.finish_exact`,
`Tree.finish_close`), whatever is inserted in which order.
-/

namespace PathPolicy

namespace Builder

variable {b : Builder} {node : List Symbol → Option StateId}

/-- A state that leads to itself on every symbol, and is no node. -/
structure IsSink (b : Builder) (node : List Symbol → Option StateId) (s : StateId) : Prop where
  loop : ∀ c, b.step s c = some s
  ne_node : ∀ u, node u ≠ some s

/-- The states are the nodes of a tree of words, and sinks. -/
structure Tree (b : Builder) (node : List Symbol → Option StateId) : Prop where
  root : node [] = some 0
  parent : ∀ {u c}, (node (u ++ [c])).isSome → (node u).isSome
  inj : ∀ {u v s}, node u = some s → node v = some s → u = v
  lt : ∀ {u s}, node u = some s → s < b.size
  child : ∀ {u c s t}, node u = some s → node (u ++ [c]) = some t → b.step s c = some t
  leaf : ∀ {u c s t}, node u = some s → node (u ++ [c]) = none → b.step s c = some t →
    b.IsSink node t
  sink : ∀ {s t}, b.sink? s = some t → b.IsSink node t
  sink_inj : ∀ {s s' t}, b.sink? s = some t → b.sink? s' = some t → s = s'
  cover : ∀ {s}, s < b.size → (∃ u, node u = some s) ∨ b.IsSink node s

theorem IsSink.lt {s : StateId} (h : b.IsSink node s) : s < b.size :=
  lt_size_of_step (h.loop 0)

theorem IsSink.ne {s t : StateId} {u : List Symbol} (h : b.IsSink node t) (hu : node u = some s) :
    t ≠ s := by
  rintro rfl
  exact h.ne_node u hu

theorem step_start (c : Symbol) : start.step 0 c = none := Row.getElem_fill none c

theorem eq_of_start_node {u : List Symbol} {s : StateId}
    (h : (if u = [] then some 0 else none) = some s) : u = [] ∧ s = 0 := by
  split at h
  · exact ⟨‹_›, (Option.some.inj h).symm⟩
  · cases h

theorem tree_start : start.Tree fun u => if u = [] then some 0 else none where
  root := rfl
  parent := by
    intro u c h
    rw [if_neg (by simp)] at h
    cases h
  inj := by
    intro u v s hu hv
    rw [(eq_of_start_node hu).1, (eq_of_start_node hv).1]
  lt := by
    intro u s hu
    rw [(eq_of_start_node hu).2]
    exact Nat.one_pos
  child := by
    intro u c s t _ ht
    rw [if_neg (by simp)] at ht
    cases ht
  leaf := by
    intro u c s t hu _ ht
    rw [(eq_of_start_node hu).2, step_start] at ht
    cases ht
  sink := by
    intro s t h
    obtain rfl : s = 0 := Nat.lt_one_iff.1 (lt_size_of_sink? h)
    cases h
  sink_inj := by
    intro s s' t h h'
    have hs : s = 0 := Nat.lt_one_iff.1 (lt_size_of_sink? h)
    have hs' : s' = 0 := Nat.lt_one_iff.1 (lt_size_of_sink? h')
    rw [hs, hs']
  cover := by
    intro s hs
    exact Or.inl ⟨[], congrArg some (Nat.lt_one_iff.1 hs).symm⟩

namespace Tree

variable (ht : b.Tree node)

include ht

theorem isSome_of_isPrefix {u v : List Symbol} (hv : (node v).isSome) (h : u <+: v) :
    (node u).isSome := by
  obtain ⟨rest, rfl⟩ := h
  induction rest using List.reverseRecOn with
  | nil => rwa [List.append_nil] at hv
  | append_singleton rest c ih =>
    rw [← List.append_assoc] at hv
    exact ih (ht.parent hv)

theorem eq_none_of_isPrefix {u v : List Symbol} (hu : node u = none) (h : u <+: v) :
    node v = none := by
  by_contra hne
  have := ht.isSome_of_isPrefix (Option.isSome_iff_ne_none.2 hne) h
  rw [hu] at this
  cases this

theorem eq_of_isPrefix_of_leaf {u v : List Symbol} {s : StateId}
    (hleaf : ∀ c, node (u ++ [c]) = none) (hv : node v = some s) (h : u <+: v) : v = u := by
  obtain ⟨rest, rfl⟩ := h
  cases rest with
  | nil => exact List.append_nil u
  | cons c more =>
    rw [ht.eq_none_of_isPrefix (hleaf c) ⟨more, by simp⟩] at hv
    cases hv

theorem wellFormed : b.automaton.WellFormed := by
  intro s c t hst
  rw [automaton_step] at hst
  rw [automaton_size]
  rcases ht.cover (lt_size_of_step hst) with ⟨u, hu⟩ | hs
  · cases hc : node (u ++ [c]) with
    | some t' =>
      rw [ht.child hu hc] at hst
      cases hst
      exact ht.lt hc
    | none => exact (ht.leaf hu hc hst).lt
  · rw [hs.loop c] at hst
    cases hst
    exact hs.lt

/-- A child is no sink to the code: some symbol leads out of it. -/
theorem isMatchAll_eq_false {u : List Symbol} {s : StateId} (hu : node u = some s) :
    b.isMatchAll s = false := by
  rw [Bool.eq_false_iff]
  intro hall
  have h0 := isMatchAll_iff.1 hall 0
  cases hc : node (u ++ [0]) with
  | some t =>
    rw [ht.child hu hc] at h0
    cases h0
    simpa using ht.inj hc hu
  | none => exact (ht.leaf hu hc h0).ne hu rfl

end Tree

/-! ## A fork -/

/-- A numbering with one more node. -/
def grow (node : List Symbol → Option StateId) (u : List Symbol) (s : StateId) :
    List Symbol → Option StateId :=
  fun v => if v = u then some s else node v

theorem grow_self (node : List Symbol → Option StateId) (u : List Symbol) (s : StateId) :
    grow node u s u = some s := if_pos rfl

theorem grow_of_ne {u v : List Symbol} (h : v ≠ u) (s : StateId) : grow node u s v = node v :=
  if_neg h

theorem grow_eq_some {u v : List Symbol} {s t : StateId} (h : grow node u s v = some t) :
    v = u ∧ t = s ∨ v ≠ u ∧ node v = some t := by
  by_cases hv : v = u
  · rw [hv, grow_self] at h
    exact .inl ⟨hv, (Option.some.inj h).symm⟩
  · rw [grow_of_ne hv] at h
    exact .inr ⟨hv, h⟩

section Fork

variable {k : Cursor} {u : List Symbol} {c : Symbol} (ht : k.builder.Tree node)
  (hu : node u = some k.state) (hc : node (u ++ [c]) = none)

include ht hu

/-- Away from the fresh state and from the edge that leads to it, nothing changes. -/
theorem Tree.step_fork_of_ne {v : List Symbol} {d : Symbol} {s : StateId} (hv : node v = some s)
    (hne : v ++ [d] ≠ u ++ [c]) : (k.fork c).builder.step s d = k.builder.step s d := by
  rw [Cursor.step_fork (ht.lt hu), if_neg (Nat.ne_of_lt (ht.lt hv)), if_neg]
  rintro ⟨rfl, rfl⟩
  exact hne (by rw [ht.inj hv hu])

theorem IsSink.fork {s : StateId} (hs : k.builder.IsSink node s) :
    (k.fork c).builder.IsSink (grow node (u ++ [c]) k.builder.size) s where
  loop := by
    intro d
    rw [Cursor.step_fork (ht.lt hu), if_neg (Nat.ne_of_lt hs.lt), if_neg fun h => hs.ne hu h.1]
    exact hs.loop d
  ne_node := by
    intro v hv
    rcases grow_eq_some hv with ⟨-, hfresh⟩ | ⟨-, hv⟩
    · exact Nat.ne_of_lt hs.lt hfresh
    · exact hs.ne_node v hv

include hc

/-- The new node has its parent, and no children yet. -/
theorem Tree.parent_grow {v : List Symbol} {d : Symbol} {s : StateId}
    (h : (grow node (u ++ [c]) s (v ++ [d])).isSome) : (grow node (u ++ [c]) s v).isSome := by
  by_cases hvd : v ++ [d] = u ++ [c]
  · obtain ⟨rfl, -⟩ := List.append_inj' hvd rfl
    rw [grow_of_ne (by simp), hu]
    rfl
  · rw [grow_of_ne hvd] at h
    by_cases hv : v = u ++ [c]
    · rw [hv, ht.eq_none_of_isPrefix hc (List.prefix_append _ _)] at h
      cases h
    · rw [grow_of_ne hv]
      exact ht.parent h

/-- A fork adds a child to the node that it starts from. -/
theorem Tree.fork (hi : ∀ s, k.inherited = some s → k.builder.IsSink node s) :
    (k.fork c).builder.Tree (grow node (u ++ [c]) k.builder.size) where
  root := by
    rw [grow_of_ne (by simp)]
    exact ht.root
  parent := ht.parent_grow hu hc
  inj := by
    intro v v' s hv hv'
    rcases grow_eq_some hv with ⟨h, rfl⟩ | ⟨-, hv⟩ <;>
      rcases grow_eq_some hv' with ⟨h', hs⟩ | ⟨-, hv'⟩
    · rw [h, h']
    · exact absurd (ht.lt hv') (Nat.lt_irrefl _)
    · exact absurd hs (Nat.ne_of_lt (ht.lt hv))
    · exact ht.inj hv hv'
  lt := by
    intro v s hv
    rw [Cursor.size_fork]
    rcases grow_eq_some hv with ⟨-, rfl⟩ | ⟨-, hv⟩
    · exact Nat.lt_succ_self _
    · exact Nat.lt_succ_of_lt (ht.lt hv)
  child := by
    intro v d s t hs hst
    rcases grow_eq_some hs with ⟨rfl, -⟩ | ⟨-, hv⟩
    · -- the fresh state has no children yet
      rw [grow_of_ne (by simp), ht.eq_none_of_isPrefix hc (List.prefix_append _ _)] at hst
      cases hst
    rcases grow_eq_some hst with ⟨hd, rfl⟩ | ⟨hd, hvd⟩
    · obtain ⟨rfl, hd'⟩ := List.append_inj' hd rfl
      rw [Cursor.step_fork (ht.lt hu), if_neg (Nat.ne_of_lt (ht.lt hv)), if_pos]
      exact ⟨Option.some.inj (hv.symm.trans hu), List.cons.inj hd' |>.1⟩
    · rw [ht.step_fork_of_ne hu hv hd]
      exact ht.child hv hvd
  leaf := by
    intro v d s t hv hvd hst
    have hd : v ++ [d] ≠ u ++ [c] := by
      intro hd
      rw [hd, grow_self] at hvd
      cases hvd
    rw [grow_of_ne hd] at hvd
    rcases grow_eq_some hv with ⟨-, rfl⟩ | ⟨-, hv⟩
    · rw [Cursor.step_fork (ht.lt hu), if_pos rfl] at hst
      exact (hi t hst).fork ht hu
    · rw [ht.step_fork_of_ne hu hv hd] at hst
      exact (ht.leaf hv hvd hst).fork ht hu
  sink := by
    intro s t hs
    rw [Cursor.sink?_fork (ht.lt hu)] at hs
    split at hs
    · cases hs
    · exact (ht.sink hs).fork ht hu
  sink_inj := by
    intro s s' t hs hs'
    rw [Cursor.sink?_fork (ht.lt hu)] at hs hs'
    split at hs
    · cases hs
    · split at hs'
      · cases hs'
      · exact ht.sink_inj hs hs'
  cover := by
    intro s hs
    rw [Cursor.size_fork] at hs
    rcases Nat.lt_or_eq_of_le (Nat.le_of_lt_succ hs) with hlt | heq
    · rcases ht.cover hlt with ⟨v, hv⟩ | hsink
      · refine Or.inl ⟨v, ?_⟩
        rw [grow_of_ne]
        · exact hv
        · rintro rfl
          rw [hc] at hv
          cases hv
      · exact Or.inr (hsink.fork ht hu)
    · exact Or.inl ⟨u ++ [c], by rw [grow_self, heq]⟩

end Fork

/-! ## The end of a walk -/

section Finish

variable {k : Cursor} {r : Rule} {u : List Symbol} (ht : k.builder.Tree node)
  (hu : node u = some k.state)

include ht

/-- The end of an exact pattern changes outputs only. -/
theorem Tree.finish_exact (he : r.pattern.exact = true) : (k.finish r).Tree node := by
  have hsink : ∀ s, k.builder.IsSink node s → (k.finish r).IsSink node s := fun s hs =>
    ⟨fun c => by rw [Cursor.step_finish_exact he]; exact hs.loop c, hs.ne_node⟩
  exact {
    root := ht.root
    parent := ht.parent
    inj := ht.inj
    lt := fun h => by rw [Cursor.size_finish_exact he]; exact ht.lt h
    child := fun h hc => by rw [Cursor.step_finish_exact he]; exact ht.child h hc
    leaf := fun h hc hst => by
      rw [Cursor.step_finish_exact he] at hst
      exact hsink _ (ht.leaf h hc hst)
    sink := fun h => by
      rw [Cursor.sink?_finish_exact he] at h
      exact hsink _ (ht.sink h)
    sink_inj := fun h h' => by
      rw [Cursor.sink?_finish_exact he] at h h'
      exact ht.sink_inj h h'
    cover := fun h => by
      rw [Cursor.size_finish_exact he] at h
      exact (ht.cover h).imp_right (hsink _) }

include hu

theorem IsSink.finish_close (he : r.pattern.exact = false) {s : StateId}
    (hs : k.builder.IsSink node s) : (k.finish r).IsSink node s where
  loop := by
    intro c
    rw [Cursor.step_finish_close he (ht.lt hu), if_neg (Nat.ne_of_lt hs.lt), if_neg (hs.ne hu)]
    exact hs.loop c
  ne_node := hs.ne_node

/-- A sink keeps its value, which is not that of the state reached. -/
theorem IsSink.output_finish {s : StateId} (hs : k.builder.IsSink node s) :
    (k.finish r).output s = k.builder.output s := by
  have hlt := ht.lt hu
  cases he : r.pattern.exact with
  | true => rw [Cursor.output_finish_exact he _ hlt, if_neg (hs.ne hu)]
  | false =>
    rw [Cursor.output_finish_close he hlt,
      if_neg (not_or.2 ⟨Nat.ne_of_lt hs.lt, hs.ne hu⟩)]

omit hu in
theorem isSink_fresh (he : r.pattern.exact = false) (hlt : k.state < k.builder.size) :
    (k.finish r).IsSink node k.builder.size where
  loop := fun c => by rw [Cursor.step_finish_close he hlt, if_pos rfl]
  ne_node := fun _ hv => Nat.lt_irrefl _ (ht.lt hv)

/-- The end of the beginning of a path adds a sink and leads the last node into it where it led
nowhere, or into the sink that the walk has inherited. -/
theorem Tree.finish_close (he : r.pattern.exact = false)
    (hi : ∀ s, k.inherited = some s → k.builder.IsSink node s) : (k.finish r).Tree node where
  root := ht.root
  parent := ht.parent
  inj := ht.inj
  lt := by
    intro v s hv
    rw [Cursor.size_finish_close he]
    exact Nat.lt_succ_of_lt (ht.lt hv)
  child := by
    intro v c s t hv hc
    have hst := ht.child hv hc
    rw [Cursor.step_finish_close he (ht.lt hu), if_neg (Nat.ne_of_lt (ht.lt hv)), hst]
    split
    · rw [if_neg]
      rintro (h | h)
      · cases h
      · exact (hi t h.symm).ne hc rfl
    · rfl
  leaf := by
    intro v c s t hv hc hst
    rw [Cursor.step_finish_close he (ht.lt hu), if_neg (Nat.ne_of_lt (ht.lt hv))] at hst
    split at hst
    · split at hst
      · cases hst
        exact isSink_fresh ht he (ht.lt hu)
      · exact (ht.leaf hv hc hst).finish_close ht hu he
    · exact (ht.leaf hv hc hst).finish_close ht hu he
  sink := by
    intro s t hs
    rw [Cursor.sink?_finish_close he (ht.lt hu)] at hs
    split at hs
    · cases hs
    · split at hs
      · cases hs
        exact isSink_fresh ht he (ht.lt hu)
      · exact (ht.sink hs).finish_close ht hu he
  sink_inj := by
    intro s s' t hs hs'
    rw [Cursor.sink?_finish_close he (ht.lt hu)] at hs hs'
    split at hs
    · cases hs
    split at hs'
    · cases hs'
    -- no sink of before is the fresh one
    split at hs <;> split at hs'
    · exact Eq.trans ‹s = k.state› (Eq.symm ‹s' = k.state›)
    · cases hs
      exact absurd (ht.sink hs').lt (Nat.lt_irrefl _)
    · cases hs'
      exact absurd (ht.sink hs).lt (Nat.lt_irrefl _)
    · exact ht.sink_inj hs hs'
  cover := by
    intro s hs
    rw [Cursor.size_finish_close he] at hs
    rcases Nat.lt_or_eq_of_le (Nat.le_of_lt_succ hs) with hlt | rfl
    · exact (ht.cover hlt).imp_right (·.finish_close ht hu he)
    · exact Or.inr (isSink_fresh ht he (ht.lt hu))

end Finish

end Builder

end PathPolicy
