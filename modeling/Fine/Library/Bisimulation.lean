import Mathlib

/-!
# Bisimulations of labelled systems

Related states have one label, and steps of either are matched by steps of the other.
-/

namespace Fine.Bisimulation

variable {α β : Type}

/-- Steps between states, and the states with the label. -/
structure System (α : Type) where
  step : α → α → Prop
  label : α → Prop

/-- Related states have one label and match each other's steps. -/
structure IsBisimulation (left : System α) (right : System β) (related : α → β → Prop) :
    Prop where
  labels : ∀ a b, related a b → (left.label a ↔ right.label b)
  forth : ∀ a b next, related a b → left.step a next →
    ∃ next', right.step b next' ∧ related next next'
  back : ∀ a b next', related a b → right.step b next' →
    ∃ next, left.step a next ∧ related next next'

theorem isBisimulation_congr {left : System α} {right : System β} {related other : α → β → Prop}
    (same : ∀ a b, related a b ↔ other a b) :
    IsBisimulation left right related ↔ IsBisimulation left right other := by
  have equal : related = other := funext fun a => funext fun b => propext (same a b)
  rw [equal]

end Fine.Bisimulation
