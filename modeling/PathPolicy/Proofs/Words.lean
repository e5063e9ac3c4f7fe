import Mathlib.Data.List.Infix
import PathPolicy.Automaton.Builder
import PathPolicy.Automaton.Packed

/-!
# Words of symbols

A path without zero bytes is a word of symbols, and both kinds of automata read it symbol by symbol.
`valueAlong` is the value that a machine gives a word, whatever the machine is made of, and
`valueAlong_eq` compares two machines: it is enough that related states have related targets and
equal outputs. Where the states of one are mapped to states of the other (`Image`), words lead to
the images as well.

`nearest` looks for the longest beginning of a word that carries a mark. The sinks of the builder
and the rules about the beginnings of a path are both found in this way.
-/

namespace PathPolicy

/-! ## Bytes and symbols -/

def byteOf (c : Symbol) : UInt8 := UInt8.ofNat (c.val + 1)

theorem toNat_byteOf (c : Symbol) : (byteOf c).toNat = c.val + 1 := by
  have := c.isLt
  rw [byteOf, UInt8.toNat_ofNat']
  omega

theorem byteOf_eq_of_symbol? {b : UInt8} {c : Symbol} (h : symbol? b = some c) : byteOf c = b := by
  unfold symbol? at h
  split at h
  · cases h
  · rename_i hne
    injection h with h
    apply UInt8.toNat.inj
    rw [toNat_byteOf, ← h]
    simp only
    omega

theorem symbol?_byteOf (c : Symbol) : symbol? (byteOf c) = some c := by
  have hc := toNat_byteOf c
  unfold symbol?
  rw [dif_neg (by omega)]
  exact congrArg some (Fin.ext (by simp only [hc, Nat.add_sub_cancel]))

theorem zero_notMem_map_byteOf (u : List Symbol) : (0 : UInt8) ∉ u.map byteOf := by
  intro h
  obtain ⟨c, -, hc⟩ := List.mem_map.1 h
  have hsymbol := symbol?_byteOf c
  rw [hc] at hsymbol
  cases hsymbol

theorem symbol?_eq_none_iff {b : UInt8} : symbol? b = none ↔ b = 0 := by
  unfold symbol?
  constructor
  · intro h
    split at h
    · rename_i h0
      exact UInt8.toNat.inj h0
    · cases h
  · rintro rfl
    rfl

namespace Builder

theorem map_byteOf_symbolsOf {w : Bytes} (h : 0 ∉ w) : (symbolsOf w).map byteOf = w := by
  induction w with
  | nil => rfl
  | cons b rest ih =>
    rw [List.mem_cons, not_or] at h
    cases hb : symbol? b with
    | none => exact absurd (symbol?_eq_none_iff.1 hb).symm h.1
    | some c =>
      rw [symbolsOf, List.filterMap_cons_some hb, List.map_cons, byteOf_eq_of_symbol? hb]
      exact congrArg (b :: ·) (ih h.2)

theorem symbolsOf_cons_some {b : UInt8} {c : Symbol} {w : Bytes} (h : symbol? b = some c) :
    symbolsOf (b :: w) = c :: symbolsOf w := by
  rw [symbolsOf, List.filterMap_cons_some h]
  rfl

theorem symbolsOf_inj {v w : Bytes} (hv : 0 ∉ v) (hw : 0 ∉ w) (h : symbolsOf v = symbolsOf w) :
    v = w := by
  rw [← map_byteOf_symbolsOf hv, ← map_byteOf_symbolsOf hw, h]

theorem symbolsOf_map_byteOf (u : List Symbol) : symbolsOf (u.map byteOf) = u := by
  induction u with
  | nil => rfl
  | cons c rest ih => rw [List.map_cons, symbolsOf_cons_some (symbol?_byteOf c), ih]

/-- Words begin with each other as the paths do. -/
theorem symbolsOf_isPrefix_iff {v w : Bytes} (hv : 0 ∉ v) (hw : 0 ∉ w) :
    symbolsOf v <+: symbolsOf w ↔ v <+: w := by
  constructor
  · intro h
    rw [← map_byteOf_symbolsOf hv, ← map_byteOf_symbolsOf hw]
    exact h.map byteOf
  · exact fun h => h.filterMap _

end Builder

open Builder (symbolsOf symbolsOf_cons_some)

/-! ## Rows -/

namespace Row

theorem getElem_fill (target : Option StateId) (c : Symbol) : (fill target)[c] = target :=
  Vector.getElem_replicate _

theorem leadsTo_iff {row : Row} {s : StateId} :
    row.leadsTo s = true ↔ ∀ c : Symbol, row[c] = some s := by
  unfold leadsTo
  rw [Vector.all_eq_true]
  constructor
  · intro h c
    exact eq_of_beq (h c.val c.isLt)
  · intro h i hi
    exact beq_iff_eq.2 (h ⟨i, hi⟩)

end Row

/-! ## Values along a word -/

section ValueAlong

variable {σ τ : Type}

/-- The value that a word leads to from a state. -/
def valueAlong (step : σ → Symbol → Option σ) (output : σ → Option Value) (s : σ) :
    List Symbol → Option Value
  | [] => output s
  | c :: rest => (step s c).bind fun t => valueAlong step output t rest

/-- Two machines agree where a relation holds that every step keeps and that the outputs respect. -/
theorem valueAlong_eq {step : σ → Symbol → Option σ} {output : σ → Option Value}
    {step' : τ → Symbol → Option τ} {output' : τ → Option Value} (R : σ → τ → Prop)
    (hstep : ∀ s t c, R s t → Option.Rel R (step s c) (step' t c))
    (hout : ∀ s t, R s t → output s = output' t) {s : σ} {t : τ} (h : R s t) (u : List Symbol) :
    valueAlong step output s u = valueAlong step' output' t u := by
  induction u generalizing s t with
  | nil => exact hout s t h
  | cons c rest ih =>
    have hc := hstep s t c h
    unfold valueAlong
    cases hs : step s c <;> cases ht : step' t c <;> rw [hs, ht] at hc <;> cases hc
    · rfl
    · rename_i hR
      exact ih hR

def stepsAlong (step : σ → Symbol → Option σ) (s : σ) : List Symbol → Option σ
  | [] => some s
  | c :: rest => (step s c).bind fun t => stepsAlong step t rest

theorem stepsAlong_append (step : σ → Symbol → Option σ) (s : σ) (u v : List Symbol) :
    stepsAlong step s (u ++ v) = (stepsAlong step s u).bind fun t => stepsAlong step t v := by
  induction u generalizing s with
  | nil => rfl
  | cons c rest ih =>
    rw [List.cons_append, stepsAlong, stepsAlong, Option.bind_assoc]
    exact congrArg _ (funext fun t => ih t)

theorem stepsAlong_bind_output (step : σ → Symbol → Option σ) (output : σ → Option Value) (s : σ)
    (u : List Symbol) : (stepsAlong step s u).bind output = valueAlong step output s u := by
  induction u generalizing s with
  | nil => rfl
  | cons c rest ih =>
    rw [stepsAlong, Option.bind_assoc]
    exact congrArg _ (funext fun t => ih t)

theorem valueAlong_of_loop {step : σ → Symbol → Option σ} {output : σ → Option Value} {s : σ}
    (hloop : ∀ c, step s c = some s) (u : List Symbol) : valueAlong step output s u = output s := by
  induction u with
  | nil => rfl
  | cons c rest ih =>
    rw [valueAlong, hloop c]
    exact ih

/-- The states with a property have images in another machine, which lead where the states lead and
have their outputs. -/
structure Image (step : σ → Symbol → Option σ) (output : σ → Option Value)
    (step' : τ → Symbol → Option τ) (output' : τ → Option Value) (P : σ → Prop) (f : σ → τ) :
    Prop where
  closed : ∀ {s c t}, P s → step s c = some t → P t
  step : ∀ {s}, P s → ∀ c, step' (f s) c = (step s c).map f
  output : ∀ {s}, P s → output' (f s) = output s

namespace Image

variable {step : σ → Symbol → Option σ} {output : σ → Option Value} {step' : τ → Symbol → Option τ}
  {output' : τ → Option Value} {P : σ → Prop} {f : σ → τ} {s : σ}
  (h : Image step output step' output' P f)

include h

theorem stepsAlong_eq (hs : P s) (u : List Symbol) :
    stepsAlong step' (f s) u = (stepsAlong step s u).map f := by
  induction u generalizing s with
  | nil => rfl
  | cons c rest ih =>
    rw [stepsAlong, stepsAlong, h.step hs]
    cases hc : step s c with
    | none => rfl
    | some t => exact ih (h.closed hs hc)

theorem valueAlong_eq (hs : P s) (u : List Symbol) :
    valueAlong step' output' (f s) u = valueAlong step output s u := by
  refine (PathPolicy.valueAlong_eq (fun s t => P s ∧ t = f s) ?_ ?_ ⟨hs, rfl⟩ u).symm
  · rintro s _ c ⟨hs, rfl⟩
    rw [h.step hs]
    cases hc : step s c with
    | none => exact .none
    | some t => exact .some ⟨h.closed hs hc, rfl⟩
  · rintro s _ ⟨hs, rfl⟩
    exact (h.output hs).symm

theorem trans {υ : Type} {step'' : υ → Symbol → Option υ} {output'' : υ → Option Value}
    {Q : τ → Prop} {g : τ → υ} (h' : Image step' output' step'' output'' Q g)
    (hQ : ∀ s, P s → Q (f s)) : Image step output step'' output'' P (g ∘ f) where
  closed := h.closed
  step := fun hs c => by
    rw [Function.comp_apply, h'.step (hQ _ hs), h.step hs, Option.map_map]
  output := fun hs => by rw [Function.comp_apply, h'.output (hQ _ hs), h.output hs]

end Image

/-- The value of a path: none if it has a zero byte. -/
def pathValue (step : σ → Symbol → Option σ) (output : σ → Option Value) (s : σ) (w : Bytes) :
    Option Value :=
  if 0 ∈ w then none else valueAlong step output s (symbolsOf w)

theorem pathValue_map_byteOf (step : σ → Symbol → Option σ) (output : σ → Option Value) (s : σ)
    (u : List Symbol) :
    pathValue step output s (u.map byteOf) = valueAlong step output s u := by
  rw [pathValue, if_neg (zero_notMem_map_byteOf u), Builder.symbolsOf_map_byteOf]

section Walk

variable {step : σ → Symbol → Option σ} {walk : σ → Bytes → Option σ}
  (hnil : ∀ s, walk s [] = some s)
  (hcons : ∀ s b w, walk s (b :: w) =
    (symbol? b).bind fun c => (step s c).bind fun t => walk t w)

include hnil hcons

/-- To read a path byte by byte is to follow its symbols, if it has no zero byte. -/
theorem walk_eq_stepsAlong (s : σ) (w : Bytes) :
    walk s w = if 0 ∈ w then none else stepsAlong step s (symbolsOf w) := by
  induction w generalizing s with
  | nil => exact hnil s
  | cons b rest ih =>
    rw [hcons]
    cases hb : symbol? b with
    | none => rw [symbol?_eq_none_iff.1 hb, if_pos List.mem_cons_self, Option.bind_none]
    | some c =>
      have hzero : 0 ∈ b :: rest ↔ 0 ∈ rest := by
        refine List.mem_cons.trans (or_iff_right ?_)
        rintro rfl
        cases hb
      simp only [ih, hzero, symbolsOf_cons_some hb, stepsAlong, Option.bind_some]
      split
      · exact Option.bind_fun_none _
      · rfl

theorem walk_bind_eq_pathValue (output : σ → Option Value) (s : σ) (w : Bytes) :
    (walk s w).bind output = pathValue step output s w := by
  rw [walk_eq_stepsAlong hnil hcons, pathValue]
  split
  · rfl
  · exact stepsAlong_bind_output step output s _

end Walk

end ValueAlong

theorem Automaton.walk_cons (a : Automaton) (s : StateId) (b : UInt8) (w : Bytes) :
    a.walk s (b :: w) = (symbol? b).bind fun c => (a.step s c).bind fun t => a.walk t w := by
  rw [walk]
  cases symbol? b with
  | none => rfl
  | some c =>
    dsimp only [Option.bind_some]
    cases a.step s c <;> rfl

theorem Automaton.walk_eq (a : Automaton) (s : StateId) (w : Bytes) :
    a.walk s w = if 0 ∈ w then none else stepsAlong a.step s (symbolsOf w) :=
  walk_eq_stepsAlong (fun _ => rfl) a.walk_cons s w

theorem Automaton.walk_map_byteOf (a : Automaton) (s : StateId) (u : List Symbol) :
    a.walk s (u.map byteOf) = stepsAlong a.step s u := by
  rw [walk_eq, if_neg (zero_notMem_map_byteOf u), Builder.symbolsOf_map_byteOf]

theorem Automaton.walk_image {a b : Automaton} {P : StateId → Prop} {f : StateId → StateId}
    (h : Image a.step a.output b.step b.output P f) {s : StateId} (hs : P s) (w : Bytes) :
    b.walk (f s) w = (a.walk s w).map f := by
  rw [walk_eq, walk_eq, h.stepsAlong_eq hs]
  split <;> rfl

/-- A path that can be walked leads to a state with every property that steps keep. -/
theorem Automaton.walk_holds {a : Automaton} {P : StateId → Prop}
    (hP : ∀ {s c t}, P s → a.step s c = some t → P t) {s t : StateId} {w : Bytes} (hs : P s)
    (h : a.walk s w = some t) : P t := by
  induction w generalizing s with
  | nil => exact Option.some.inj h ▸ hs
  | cons x rest ih =>
    rw [walk_cons] at h
    obtain ⟨c, -, h⟩ := Option.bind_eq_some_iff.1 h
    obtain ⟨r, hr, h⟩ := Option.bind_eq_some_iff.1 h
    exact ih (hP hs hr) h

theorem Automaton.walk_bind_output (a : Automaton) (s : StateId) (w : Bytes) :
    (a.walk s w).bind a.output = pathValue a.step a.output s w :=
  walk_bind_eq_pathValue (fun _ => rfl) a.walk_cons a.output s w

theorem Automaton.lookup_eq_pathValue (a : Automaton) (w : Bytes) :
    a.lookup w = pathValue a.step a.output 0 w := by
  rw [← walk_bind_output, lookup]
  cases a.walk 0 w <;> rfl

def Packed.output (t : Packed) (s : StateId) : Option Value := t.outputs.getD s none

theorem Packed.walk_cons (t : Packed) (s : StateId) (b : UInt8) (w : Bytes) :
    t.walk s (b :: w) = (symbol? b).bind fun c => (t.step s c).bind fun next => t.walk next w := by
  rw [walk]
  cases symbol? b with
  | none => rfl
  | some c =>
    dsimp only [Option.bind_some]
    cases t.step s c <;> rfl

theorem Packed.walk_bind_output (t : Packed) (s : StateId) (w : Bytes) :
    (t.walk s w).bind t.output = pathValue t.step t.output s w :=
  walk_bind_eq_pathValue (fun _ => rfl) t.walk_cons t.output s w

theorem Packed.lookup_eq_pathValue (t : Packed) (w : Bytes) :
    t.lookup w = pathValue t.step t.output 0 w := by
  rw [← walk_bind_output, lookup]
  cases t.walk 0 w <;> rfl

/-! ## The longest beginning that is marked -/

section Nearest

variable {α β : Type}

/-- The mark of the longest beginning of a word that has one. -/
def nearest (mark : List Symbol → Option α) (u : List Symbol) : Option α :=
  u.inits.reverse.findSome? mark

theorem nearest_nil (mark : List Symbol → Option α) : nearest mark [] = mark [] := by
  simp [nearest]

theorem nearest_snoc (mark : List Symbol → Option α) (u : List Symbol) (c : Symbol) :
    nearest mark (u ++ [c]) = (mark (u ++ [c])).or (nearest mark u) := by
  unfold nearest
  rw [List.inits_append, List.reverse_append]
  cases h : mark (u ++ [c]) <;> simp [h]

theorem nearest_eq_of_some {mark : List Symbol → Option α} {u : List Symbol} {x : α}
    (h : mark u = some x) : nearest mark u = some x := by
  cases u using List.reverseRecOn with
  | nil => rw [nearest_nil, h]
  | append_singleton u c => rw [nearest_snoc, h, Option.some_or]

theorem nearest_congr {mark mark' : List Symbol → Option α} {u : List Symbol}
    (h : ∀ v, v <+: u → mark v = mark' v) : nearest mark u = nearest mark' u := by
  induction u using List.reverseRecOn with
  | nil => rw [nearest_nil, nearest_nil, h [] List.prefix_rfl]
  | append_singleton u c ih =>
    rw [nearest_snoc, nearest_snoc, h _ List.prefix_rfl,
      ih fun v hv => h v (hv.trans (List.prefix_append u [c]))]

theorem map_nearest (f : α → β) (mark : List Symbol → Option α) (u : List Symbol) :
    (nearest mark u).map f = nearest (fun v => (mark v).map f) u := by
  unfold nearest
  rw [List.map_findSome?]
  rfl

theorem nearest_eq_none_iff {mark : List Symbol → Option α} {u : List Symbol} :
    nearest mark u = none ↔ ∀ v, v <+: u → mark v = none := by
  simp [nearest, List.findSome?_eq_none_iff]

/-- The mark that is found belongs to a beginning, and no longer one has a mark. -/
theorem nearest_eq_some {mark : List Symbol → Option α} {u : List Symbol} {x : α}
    (h : nearest mark u = some x) :
    ∃ v, v <+: u ∧ mark v = some x ∧
      ∀ v', v' <+: u → v.length < v'.length → mark v' = none := by
  induction u using List.reverseRecOn with
  | nil =>
    rw [nearest_nil] at h
    refine ⟨[], List.prefix_rfl, h, fun v' hv' hlt => ?_⟩
    rw [List.prefix_nil.1 hv'] at hlt
    exact absurd hlt (Nat.lt_irrefl 0)
  | append_singleton u c ih =>
    rw [nearest_snoc] at h
    cases hm : mark (u ++ [c]) with
    | some y =>
      rw [hm, Option.some_or] at h
      refine ⟨u ++ [c], List.prefix_rfl, h ▸ hm, fun v' hv' hlt => ?_⟩
      exact absurd hlt (Nat.not_lt_of_le hv'.length_le)
    | none =>
      rw [hm, Option.none_or] at h
      obtain ⟨v, hvu, hv, hlong⟩ := ih h
      refine ⟨v, hvu.trans (List.prefix_append u [c]), hv, fun v' hv' hlt => ?_⟩
      rcases List.prefix_concat_iff.1 hv' with rfl | hv'
      · exact hm
      · exact hlong v' hv' hlt

end Nearest

end PathPolicy
