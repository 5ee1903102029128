import Mathlib

/-!
# Balanced brackets

A word is read with a count of the open brackets. A balanced word in brackets is not balanced
without those of one end.
-/

namespace Fine.Brackets

/-- What a letter is for the count. -/
inductive Side where
  | opens
  | closes
  | neither
  deriving DecidableEq

/-- The count behind a letter, unless it closes what is not open. -/
def count : Nat → Side → Option Nat
  | depth, .opens => some (depth + 1)
  | 0, .closes => none
  | depth + 1, .closes => some depth
  | depth, .neither => some depth

/-- The count behind a word. -/
def countAfter (depth : Nat) (word : List Side) : Option Nat := word.foldlM count depth

/-- The word closes the brackets that it opens, and no others. -/
def Balanced (word : List Side) : Prop := ∀ depth, countAfter depth word = some depth

@[simp] theorem countAfter_cons (depth : Nat) (side : Side) (word : List Side) :
    countAfter depth (side :: word) = (count depth side).bind fun later =>
      countAfter later word := rfl

theorem countAfter_append (depth : Nat) (first second : List Side) :
    countAfter depth (first ++ second) = (countAfter depth first).bind fun later =>
      countAfter later second := List.foldlM_append

variable {word : List Side}

theorem countAfter_opens (opens : ∀ side ∈ word, side = .opens) (depth : Nat) :
    countAfter depth word = some (depth + word.length) := by
  induction word generalizing depth with
  | nil => rfl
  | cons side word ih =>
    obtain rfl := opens side List.mem_cons_self
    have later := ih (fun other member => opens other (List.mem_cons_of_mem _ member)) (depth + 1)
    rw [countAfter_cons, count, Option.bind_some, later, List.length_cons]
    congr 1
    omega

namespace Balanced

theorem nil : Balanced [] := fun _ => rfl

variable {first : List Side}

theorem append {second : List Side} (left : Balanced first) (right : Balanced second) :
    Balanced (first ++ second) := by
  intro depth
  rw [countAfter_append, left depth, Option.bind_some, right depth]

theorem cons (rest : Balanced word) : Balanced (.neither :: word) := by
  intro depth
  rw [countAfter_cons, count, Option.bind_some, rest depth]

theorem wrap (inner : Balanced word) : Balanced (.opens :: (word ++ [.closes])) := by
  intro depth
  rw [countAfter_cons, count, Option.bind_some, countAfter_append, inner, Option.bind_some]
  rfl

theorem no_close {later : List Side} (inner : Balanced word) :
    ¬ Balanced (word ++ .closes :: later) := by
  intro balanced
  have none := balanced 0
  rw [countAfter_append, inner 0] at none
  cases none

theorem no_open {opens : List Side} (before : Balanced first) (all : ∀ side ∈ opens, side = .opens)
    (some : opens ≠ []) (inner : Balanced word) :
    ¬ Balanced (first ++ .neither :: (opens ++ word)) := by
  intro balanced
  have count := balanced 0
  rw [countAfter_append, before 0, Option.bind_some, countAfter_cons, Brackets.count,
    Option.bind_some, countAfter_append, countAfter_opens all, Option.bind_some, inner] at count
  have positive := List.length_pos_iff.mpr some
  have same := Option.some.inj count
  omega

end Balanced

end Fine.Brackets
