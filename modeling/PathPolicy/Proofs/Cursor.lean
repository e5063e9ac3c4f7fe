import PathPolicy.Proofs.Answers

/-!
# What the operations of a cursor do

Every operation of a builder adds a state or changes one. What that does to steps, outputs and sinks
is said here, state by state: for a fork, for the end of an exact pattern and for the end of the
beginning of a path. Nothing later opens the operations again.
-/

namespace PathPolicy

open Builder (symbolsOf)

namespace Builder

/-! ## Adding and changing states -/

section Operations

variable (b : Builder) (s t : StateId) (c d : Symbol)

theorem step_eq : b.step s c = (b.nodes[s]?).bind fun n => n.row[c] := by
  unfold step
  cases b.nodes[s]? <;> rfl

theorem output_eq : b.output s = (b.nodes[s]?).bind fun n => n.output := by
  unfold output
  cases b.nodes[s]? <;> rfl

theorem sink?_eq : b.sink? s = (b.nodes[s]?).bind fun n => n.sink := by
  unfold sink?
  cases b.nodes[s]? <;> rfl

theorem lt_size_of_step {b : Builder} {s t : StateId} {c : Symbol} (h : b.step s c = some t) :
    s < b.size := by
  rw [step_eq] at h
  obtain ⟨n, hn, -⟩ := Option.bind_eq_some_iff.1 h
  exact (Array.getElem?_eq_some_iff.1 hn).1

theorem lt_size_of_sink? {b : Builder} {s t : StateId} (h : b.sink? s = some t) : s < b.size := by
  rw [sink?_eq] at h
  obtain ⟨n, hn, -⟩ := Option.bind_eq_some_iff.1 h
  exact (Array.getElem?_eq_some_iff.1 hn).1

theorem isMatchAll_iff {b : Builder} {s : StateId} :
    b.isMatchAll s = true ↔ ∀ c, b.step s c = some s := by
  unfold isMatchAll
  simp only [step_eq]
  cases b.nodes[s]? with
  | none => simp
  | some n => exact Row.leadsTo_iff

theorem automaton_step : b.automaton.step s c = b.step s c := by
  unfold Automaton.step automaton
  rw [step_eq, Array.getElem?_map]
  cases b.nodes[s]? <;> rfl

theorem automaton_output : b.automaton.output s = b.output s := by
  unfold Automaton.output automaton
  rw [output_eq, Array.getElem?_map]
  cases b.nodes[s]? <;> rfl

theorem automaton_size : b.automaton.size = b.size := Array.size_map

theorem nodes_push (n : Node) :
    (b.push n).nodes[s]? = if s = b.size then some n else b.nodes[s]? :=
  Array.getElem?_push

theorem nodes_modify (f : Node → Node) :
    (b.modify t f).nodes[s]? = if s = t then (b.nodes[s]?).map f else b.nodes[s]? := by
  unfold modify
  rw [Array.getElem?_modify]
  by_cases h : t = s
  · rw [if_pos h, if_pos h.symm]
  · rw [if_neg h, if_neg (Ne.symm h)]

theorem nodes_modify_push (h : t < b.size) (n : Node) (f : Node → Node) :
    ((b.push n).modify t f).nodes[s]? =
      if s = b.size then some n else if s = t then (b.nodes[s]?).map f else b.nodes[s]? := by
  rw [nodes_modify, nodes_push]
  by_cases hs : s = t
  · have hfresh : s ≠ b.size := hs ▸ Nat.ne_of_lt h
    rw [if_pos hs, if_neg hfresh, if_neg hfresh, if_pos hs]
  · rw [if_neg hs, if_neg hs]

theorem size_push (n : Node) : (b.push n).size = b.size + 1 := Array.size_push _

theorem size_modify (f : Node → Node) : (b.modify t f).size = b.size := Array.size_modify

end Operations

/-! ## The operations of a cursor -/

namespace Cursor

/-- The sink that a fork would fall back to. -/
def reached (k : Cursor) : Option StateId := (k.builder.sink? k.state).or k.inherited

/-- A cursor that has taken note of the sink that it has reached. -/
def settle (k : Cursor) : Cursor := { k with inherited := k.reached }

theorem advance_eq (k : Cursor) (c : Symbol) :
    k.advance c =
      match k.builder.step k.state c with
      | none => k.settle.fork c
      | some next =>
        if k.builder.isMatchAll next then k.settle.fork c else { k.settle with state := next } :=
  rfl

def finish (k : Cursor) (r : Rule) : Builder :=
  (if r.pattern.exact then k.builder else k.close r.value).modify k.state fun n =>
    { n with output := some r.value }

section Fork

variable {k : Cursor} (h : k.state < k.builder.size) (s : StateId) (c d : Symbol)

theorem size_fork : (k.fork c).builder.size = k.builder.size + 1 := by
  unfold fork
  rw [size_modify, size_push]

include h

theorem nodes_fork :
    (k.fork c).builder.nodes[s]? =
      if s = k.builder.size then
        some {
          row := Row.fill k.inherited
          output := k.inherited.bind k.builder.output
          sink := none }
      else if s = k.state then
        (k.builder.nodes[s]?).map fun n =>
          { n with row := n.row.set c (some k.builder.size) c.isLt }
      else k.builder.nodes[s]? :=
  nodes_modify_push _ _ _ h _ _

/-- What does not depend on rows is changed by a fork for the fresh state only. -/
theorem bind_nodes_fork {α : Type} (f : Node → Option α)
    (hf : ∀ n row, f { n with row := row } = f n) :
    ((k.fork c).builder.nodes[s]?).bind f =
      if s = k.builder.size then
        f { row := Row.fill k.inherited
            output := k.inherited.bind k.builder.output
            sink := none }
      else (k.builder.nodes[s]?).bind f := by
  rw [nodes_fork h]
  split
  · rfl
  split
  · cases k.builder.nodes[s]? with
    | none => rfl
    | some n => exact hf n _
  · rfl

theorem step_fork :
    (k.fork c).builder.step s d =
      if s = k.builder.size then k.inherited
      else if s = k.state ∧ d = c then some k.builder.size
      else k.builder.step s d := by
  rw [step_eq, nodes_fork h]
  by_cases hf : s = k.builder.size
  · rw [if_pos hf, if_pos hf]
    exact Row.getElem_fill _ _
  rw [if_neg hf, if_neg hf]
  by_cases hs : s = k.state
  · subst hs
    rw [if_pos rfl, Array.getElem?_eq_getElem h, Option.map_some, Option.bind_some,
      Row.getElem_eq, Vector.getElem_set]
    by_cases hd : d = c
    · rw [if_pos (congrArg Fin.val hd.symm), if_pos ⟨rfl, hd⟩]
    · rw [if_neg fun hv => hd (Fin.ext hv.symm), if_neg fun hv => hd hv.2, step_eq,
        Array.getElem?_eq_getElem h]
      rfl
  · rw [if_neg hs, if_neg fun hv => hs hv.1, step_eq]

theorem output_fork :
    (k.fork c).builder.output s =
      if s = k.builder.size then k.inherited.bind k.builder.output else k.builder.output s := by
  rw [output_eq, output_eq, bind_nodes_fork h s c (fun n => n.output) fun _ _ => rfl]

theorem sink?_fork :
    (k.fork c).builder.sink? s = if s = k.builder.size then none else k.builder.sink? s := by
  rw [sink?_eq, sink?_eq, bind_nodes_fork h s c (fun n => n.sink) fun _ _ => rfl]

theorem reached_fork : (k.fork c).reached = k.inherited := by
  have hfresh : (k.fork c).state = k.builder.size := rfl
  rw [reached, sink?_fork h, if_pos hfresh]
  rfl

end Fork

section FinishExact

variable {k : Cursor} {r : Rule} (he : r.pattern.exact = true) (s : StateId) (c : Symbol)

include he

theorem finish_exact :
    k.finish r = k.builder.modify k.state fun n => { n with output := some r.value } := by
  unfold finish
  rw [if_pos he]

theorem size_finish_exact : (k.finish r).size = k.builder.size := by
  rw [finish_exact he, size_modify]

theorem step_finish_exact : (k.finish r).step s c = k.builder.step s c := by
  rw [finish_exact he, step_eq, nodes_modify, step_eq]
  split
  · cases k.builder.nodes[s]? <;> rfl
  · rfl

theorem sink?_finish_exact : (k.finish r).sink? s = k.builder.sink? s := by
  rw [finish_exact he, sink?_eq, nodes_modify, sink?_eq]
  split
  · cases k.builder.nodes[s]? <;> rfl
  · rfl

theorem output_finish_exact (h : k.state < k.builder.size) :
    (k.finish r).output s = if s = k.state then some r.value else k.builder.output s := by
  rw [finish_exact he, output_eq, nodes_modify]
  by_cases hs : s = k.state
  · subst hs
    rw [if_pos rfl, if_pos rfl, Array.getElem?_eq_getElem h]
    rfl
  · rw [if_neg hs, if_neg hs, output_eq]

end FinishExact

section FinishClose

variable {k : Cursor} {r : Rule} (he : r.pattern.exact = false)
  (h : k.state < k.builder.size) (s : StateId) (c : Symbol)

include he

theorem finish_close :
    k.finish r = (k.close r.value).modify k.state fun n => { n with output := some r.value } := by
  unfold finish
  rw [if_neg (by rw [he]; exact Bool.false_ne_true)]

theorem size_finish_close : (k.finish r).size = k.builder.size + 1 := by
  rw [finish_close he, size_modify, close, size_modify, size_push]

include h

theorem nodes_finish_close :
    (k.finish r).nodes[s]? =
      if s = k.builder.size then
        some { row := Row.fill (some k.builder.size), output := some r.value, sink := none }
      else if s = k.state then
        (k.builder.nodes[s]?).map fun n =>
          { row := n.row.map fun t => if t = none ∨ t = k.inherited then some k.builder.size else t
            output := some r.value
            sink := some k.builder.size }
      else k.builder.nodes[s]? := by
  rw [finish_close he, nodes_modify, close, nodes_modify_push _ _ _ h]
  by_cases hs : s = k.state
  · have hf : s ≠ k.builder.size := hs ▸ Nat.ne_of_lt h
    rw [if_pos hs, if_neg hf, if_neg hf, if_pos hs, if_pos hs, Option.map_map]
    rfl
  · rw [if_neg hs, if_neg hs, if_neg hs]

theorem step_finish_close :
    (k.finish r).step s c =
      if s = k.builder.size then some k.builder.size
      else if s = k.state then
        if k.builder.step s c = none ∨ k.builder.step s c = k.inherited then some k.builder.size
        else k.builder.step s c
      else k.builder.step s c := by
  rw [step_eq, nodes_finish_close he h]
  by_cases hf : s = k.builder.size
  · rw [if_pos hf, if_pos hf]
    exact Row.getElem_fill _ _
  rw [if_neg hf, if_neg hf, step_eq]
  by_cases hs : s = k.state
  · subst hs
    rw [if_pos rfl, if_pos rfl, Array.getElem?_eq_getElem h, Option.map_some, Option.bind_some,
      Option.bind_some, Row.getElem_eq, Vector.getElem_map]
    rfl
  · rw [if_neg hs, if_neg hs]

theorem output_finish_close :
    (k.finish r).output s =
      if s = k.builder.size ∨ s = k.state then some r.value else k.builder.output s := by
  rw [output_eq, nodes_finish_close he h]
  by_cases hf : s = k.builder.size
  · rw [if_pos hf, if_pos (Or.inl hf)]
    rfl
  by_cases hs : s = k.state
  · subst hs
    rw [if_neg hf, if_pos rfl, if_pos (Or.inr rfl), Array.getElem?_eq_getElem h]
    rfl
  · rw [if_neg hf, if_neg hs, if_neg (not_or.2 ⟨hf, hs⟩), output_eq]

theorem sink?_finish_close :
    (k.finish r).sink? s =
      if s = k.builder.size then none
      else if s = k.state then some k.builder.size
      else k.builder.sink? s := by
  rw [sink?_eq, nodes_finish_close he h]
  by_cases hf : s = k.builder.size
  · rw [if_pos hf, if_pos hf]
    rfl
  rw [if_neg hf, if_neg hf]
  by_cases hs : s = k.state
  · subst hs
    rw [if_pos rfl, if_pos rfl, Array.getElem?_eq_getElem h]
    rfl
  · rw [if_neg hs, if_neg hs, sink?_eq]

end FinishClose

end Cursor

end Builder

end PathPolicy
