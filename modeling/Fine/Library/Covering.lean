import Mathlib

/-!
# Covering by candidates in order

Candidates come in a fixed order; one is selected when it covers a point that no selected one
covers, and is dropped for ever otherwise. Dropping loses nothing, as the uncovered points only
become fewer.
-/

namespace Fine.Covering

variable {α π : Type} (candidate : Nat → α) (covers : α → π → Prop)

def Uncovered (selected : List α) (point : π) : Prop := ∀ item ∈ selected, ¬ covers item point

/-- How many candidates were looked at, and those selected. -/
structure Search (α : Type) where
  consumed : Nat
  selected : List α

/-- The next candidate is looked at while a point is uncovered. -/
inductive Step : Search α → Search α → Prop where
  | select {consumed : Nat} {selected : List α} (point : π)
      (uncovered : Uncovered covers selected point) (new : covers (candidate consumed) point) :
      Step ⟨consumed, selected⟩ ⟨consumed + 1, selected ++ [candidate consumed]⟩
  | reject {consumed : Nat} {selected : List α} (point : π)
      (uncovered : Uncovered covers selected point)
      (useless : ∀ point, Uncovered covers selected point → ¬ covers (candidate consumed) point) :
      Step ⟨consumed, selected⟩ ⟨consumed + 1, selected⟩

/-- What was selected was looked at, and what was looked at covers no uncovered point. -/
structure Spent (search : Search α) : Prop where
  useless : ∀ index < search.consumed, ∀ point, Uncovered covers search.selected point →
    ¬ covers (candidate index) point
  seen : ∀ item ∈ search.selected, ∃ index < search.consumed, item = candidate index

theorem Spent.initial : Spent candidate covers ⟨0, []⟩ := ⟨nofun, nofun⟩

variable {candidate covers}

theorem Uncovered.before {selected : List α} {item : α} {point : π}
    (uncovered : Uncovered covers (selected ++ [item]) point) : Uncovered covers selected point :=
  fun other member => uncovered other (List.mem_append_left _ member)

theorem Step.spent {before after : Search α} (step : Step candidate covers before after)
    (spent : Spent candidate covers before) : Spent candidate covers after := by
  cases step with
  | @select consumed selected point uncovered new =>
    constructor
    · intro index below point open_
      by_cases here : index = consumed
      · subst here
        exact open_ _ (List.mem_append_right _ (List.mem_singleton_self _))
      · exact spent.useless index (by simp only at below ⊢; omega) point open_.before
    · intro item member
      rcases List.mem_append.mp member with old | new
      · obtain ⟨index, below, same⟩ := spent.seen item old
        exact ⟨index, Nat.lt_succ_of_lt below, same⟩
      · exact ⟨consumed, Nat.lt_succ_self _, List.mem_singleton.mp new⟩
  | @reject consumed selected point uncovered useless =>
    constructor
    · intro index below point open_
      by_cases here : index = consumed
      · subst here
        exact useless point open_
      · exact spent.useless index (by simp only at below ⊢; omega) point open_
    · intro item member
      obtain ⟨index, below, same⟩ := spent.seen item member
      exact ⟨index, Nat.lt_succ_of_lt below, same⟩

theorem Spent.consumed_le {search : Search α} (spent : Spent candidate covers search) {last : Nat}
    (enough : ∀ point, ∃ index ≤ last, covers (candidate index) point) {point : π}
    (uncovered : Uncovered covers search.selected point) : search.consumed ≤ last := by
  obtain ⟨index, within, covered⟩ := enough point
  have ahead : ¬ index < search.consumed := fun below =>
    spent.useless index below point uncovered covered
  omega

end Fine.Covering
