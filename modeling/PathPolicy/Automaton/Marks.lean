import PathPolicy.Automaton.Basic

/-!
# Marks on states

A walk over an automaton marks the states that it has seen. It ends because every step marks a state
that was not marked.
-/

namespace PathPolicy

/-- For every state, whether it is marked. -/
abbrev Marks := Array Bool

namespace Marks

/-- No marks on `n` states. -/
def blank (n : Nat) : Marks := Array.replicate n false

/-- Whether a state can be marked, and is not. -/
def isOpen (marks : Marks) (s : StateId) : Bool := marks[s]? == some false

def add (marks : Marks) (s : StateId) : Marks := marks.setIfInBounds s true

def addAll (marks : Marks) (states : List StateId) : Marks := states.foldl add marks

/-- How many states are not marked. -/
def openCount (marks : Marks) : Nat := marks.count false

theorem openCount_add_lt {marks : Marks} {s : StateId} (h : marks.isOpen s) :
    (marks.add s).openCount < marks.openCount := by
  obtain ⟨hs, hval⟩ := Array.getElem?_eq_some_iff.1 (eq_of_beq h)
  have hpos : 0 < marks.count false := Array.count_pos_iff.2 (hval ▸ Array.getElem_mem hs)
  have hcount : (marks.add s).count false = marks.count false - 1 := by
    simp [add, Array.setIfInBounds, hs, Array.count_set hs, hval]
  rw [openCount, openCount, hcount]
  exact Nat.sub_lt hpos Nat.one_pos

theorem add_of_not_isOpen {marks : Marks} {s : StateId} (h : ¬ marks.isOpen s) :
    marks.add s = marks := by
  rw [add, Array.setIfInBounds]
  split
  · rename_i hs
    have hval : marks[s] = true := by
      cases hb : marks[s] with
      | true => rfl
      | false => exact absurd (beq_iff_eq.2 (Array.getElem?_eq_some_iff.2 ⟨hs, hb⟩)) h
    rw [← hval, Array.set_getElem_self]
  · rfl

theorem openCount_add_le (marks : Marks) (s : StateId) :
    (marks.add s).openCount ≤ marks.openCount := by
  by_cases h : marks.isOpen s
  · exact Nat.le_of_lt (openCount_add_lt h)
  · exact Nat.le_of_eq (congrArg openCount (add_of_not_isOpen h))

theorem openCount_addAll_le (marks : Marks) (states : List StateId) :
    (marks.addAll states).openCount ≤ marks.openCount := by
  induction states generalizing marks with
  | nil => exact Nat.le_refl _
  | cons s rest ih => exact Nat.le_trans (ih _) (openCount_add_le marks s)

/-- Marking states of which one was open leaves fewer open. -/
theorem openCount_addAll_lt {marks : Marks} {states : List StateId}
    (h : states.any marks.isOpen) : (marks.addAll states).openCount < marks.openCount := by
  induction states generalizing marks with
  | nil => exact absurd h Bool.false_ne_true
  | cons s rest ih =>
    by_cases hs : marks.isOpen s
    · exact Nat.lt_of_le_of_lt (openCount_addAll_le (marks.add s) rest) (openCount_add_lt hs)
    · have hsame := add_of_not_isOpen hs
      rw [List.any_cons, Bool.or_eq_true] at h
      show ((marks.add s).addAll rest).openCount < _
      rw [hsame]
      exact ih (h.resolve_left hs)

end Marks

end PathPolicy
