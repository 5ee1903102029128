import Mathlib

/-!
# Functions by recursion on a size

A step that asks a function only about smaller arguments has exactly one fixed point.
-/

namespace Fine.Recursion

variable {α β : Type}

/-- The step asks only about arguments of smaller size. -/
def Descends (size : α → Nat) (step : (α → β) → α → β) : Prop :=
  ∀ first second argument, (∀ smaller, size smaller < size argument →
    first smaller = second smaller) → step first argument = step second argument

variable {size : α → Nat} {step : (α → β) → α → β}

theorem Descends.unique (descends : Descends size step) {first second : α → β}
    (one : step first = first) (two : step second = second) : first = second := by
  funext argument
  induction argument using (measure size).wf.induction with
  | _ argument ih =>
    have same : step first argument = step second argument := descends first second argument ih
    rwa [one, two] at same

/-- What is known of smaller arguments, any value elsewhere. -/
noncomputable def extend [Nonempty β] (size : α → Nat) (argument : α)
    (known : ∀ smaller, size smaller < size argument → β) (other : α) : β :=
  if smaller : size other < size argument then known other smaller else Classical.ofNonempty

theorem Descends.fixed [Nonempty β] (descends : Descends size step) :
    ∃ function, step function = function := by
  refine ⟨(measure size).wf.fix fun argument known => step (extend size argument known) argument,
    funext fun argument => ?_⟩
  rw [WellFounded.fix_eq]
  apply descends
  intro smaller below
  rw [extend, dif_pos below]

theorem Descends.existsUnique [Nonempty β] (descends : Descends size step) :
    ∃! function, step function = function := by
  obtain ⟨function, fixed⟩ := descends.fixed
  exact ⟨function, fixed, fun other is => descends.unique is fixed⟩

end Fine.Recursion
