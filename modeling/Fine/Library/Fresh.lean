import Mathlib

/-!
# Fresh names by counting

Trying the candidates of an injective sequence ends one step after as many as are taken.
-/

namespace Fine.Fresh

variable {α : Type} [DecidableEq α]

/-- First candidate from an index on that is not taken. -/
def search (taken : List α) (candidate : Nat → α) : Nat → Nat → α
  | 0, index => candidate index
  | trials + 1, index =>
    if candidate index ∈ taken then search taken candidate trials (index + 1)
    else candidate index

theorem search_eq_candidate (taken : List α) (candidate : Nat → α) (trials index : Nat) :
    ∃ found, index ≤ found ∧ search taken candidate trials index = candidate found := by
  induction trials generalizing index with
  | zero => exact ⟨index, Nat.le_refl _, rfl⟩
  | succ trials ih =>
    by_cases used : candidate index ∈ taken
    · obtain ⟨found, later, reached⟩ := ih (index + 1)
      exact ⟨found, by omega, by rw [search, if_pos used, reached]⟩
    · exact ⟨index, Nat.le_refl _, by rw [search, if_neg used]⟩

variable {taken : List α} {candidate : Nat → α}

theorem taken_of_search_taken {trials index : Nat}
    (failed : search taken candidate trials index ∈ taken) :
    ∀ offset ≤ trials, candidate (index + offset) ∈ taken := by
  induction trials generalizing index with
  | zero =>
    intro offset bound
    obtain rfl : offset = 0 := by omega
    exact failed
  | succ trials ih =>
    by_cases used : candidate index ∈ taken
    · rw [search, if_pos used] at failed
      intro offset bound
      cases offset with
      | zero => exact used
      | succ offset =>
        have passed := ih failed offset (by omega)
        rwa [Nat.add_right_comm] at passed
    · rw [search, if_neg used] at failed
      exact absurd failed used

theorem search_fresh (injective : Function.Injective candidate) (index : Nat) :
    search taken candidate taken.length index ∉ taken := by
  intro failed
  have passed := taken_of_search_taken failed
  -- Otherwise `length + 1` distinct candidates would all be among `length` taken names.
  have inside : (Finset.range (taken.length + 1)).image (fun offset => candidate (index + offset)) ⊆
      taken.toFinset := by
    intro name member
    obtain ⟨offset, bound, rfl⟩ := Finset.mem_image.mp member
    exact List.mem_toFinset.mpr (passed offset (by simpa [Nat.lt_succ_iff] using bound))
  have size := Finset.card_le_card inside
  rw [Finset.card_image_of_injective _ (fun left right same => by
    have := injective same
    omega), Finset.card_range] at size
  have bound := List.toFinset_card_le taken
  omega

end Fine.Fresh
