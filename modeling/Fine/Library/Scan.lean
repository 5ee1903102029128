import Mathlib

/-!
# Maximal munch

The longest run of characters of a class is a printed word when what follows begins outside it.
-/

namespace Fine.Scan

variable {α : Type}

/-- The text does not go on with an element of the class. -/
def Stops (accepts : α → Bool) (rest : List α) : Prop :=
  ∀ head ∈ rest.head?, accepts head = false

@[simp] theorem stops_nil (accepts : α → Bool) : Stops accepts [] := by
  intro head found
  cases found

variable {accepts : α → Bool} {rest : List α}

@[simp] theorem stops_cons {head : α} : Stops accepts (head :: rest) ↔ accepts head = false := by
  simp [Stops]

theorem takeWhile_of_stops (stops : Stops accepts rest) : rest.takeWhile accepts = [] := by
  cases rest with
  | nil => rfl
  | cons head tail => simp [stops_cons.mp stops]

theorem dropWhile_of_stops (stops : Stops accepts rest) : rest.dropWhile accepts = rest := by
  cases rest with
  | nil => rfl
  | cons head tail => simp [stops_cons.mp stops]

variable {word : List α} {character : Char}

theorem takeWhile_word (inside : ∀ element ∈ word, accepts element = true)
    (stops : Stops accepts rest) : (word ++ rest).takeWhile accepts = word := by
  rw [List.takeWhile_append_of_pos inside, takeWhile_of_stops stops, List.append_nil]

theorem dropWhile_word (inside : ∀ element ∈ word, accepts element = true)
    (stops : Stops accepts rest) : (word ++ rest).dropWhile accepts = rest := by
  rw [List.dropWhile_append_of_pos inside, dropWhile_of_stops stops]

theorem isDigit_iff_code :
    character.isDigit = true ↔ 48 ≤ character.toNat ∧ character.toNat ≤ 57 := by
  simp only [Char.isDigit, Bool.and_eq_true, decide_eq_true_eq, ge_iff_le, UInt32.le_iff_toNat_le]
  rfl

theorem isAlpha_iff_code : character.isAlpha = true ↔
    (65 ≤ character.toNat ∧ character.toNat ≤ 90) ∨
      (97 ≤ character.toNat ∧ character.toNat ≤ 122) := by
  simp only [Char.isAlpha, Char.isUpper, Char.isLower, Bool.or_eq_true, Bool.and_eq_true,
    decide_eq_true_eq, ge_iff_le, UInt32.le_iff_toNat_le]
  rfl

/-- Decimal text of a number. -/
def decimal (number : Nat) : List Char := Nat.toDigits 10 number

/-- Number that a run of decimal digits denotes. -/
def ofDecimal (digits : List Char) : Nat := Nat.ofDigitChars 10 digits 0

@[simp] theorem ofDecimal_decimal (number : Nat) : ofDecimal (decimal number) = number :=
  Nat.ofDigitChars_ten_toDigits

theorem decimal_injective : Function.Injective decimal := by
  intro left right same
  rw [← ofDecimal_decimal left, same, ofDecimal_decimal]

theorem toString_injective : Function.Injective (toString : Nat → String) := by
  intro left right same
  apply decimal_injective
  have digits := congrArg String.toList same
  simpa [Nat.repr, decimal] using digits

theorem decimal_digits (number : Nat) : ∀ digit ∈ decimal number, digit.isDigit = true :=
  fun _ member => Nat.isDigit_of_mem_toDigits (by decide) (by decide) member

theorem decimal_ne_nil (number : Nat) : decimal number ≠ [] := Nat.toDigits_ne_nil

theorem decimal_cons (number : Nat) : ∃ digit digits, decimal number = digit :: digits ∧
    digit.isDigit = true ∧ ∀ later ∈ digits, later.isDigit = true := by
  obtain ⟨digit, digits, shape⟩ := List.exists_cons_of_ne_nil (decimal_ne_nil number)
  have all := decimal_digits number
  rw [shape] at all
  exact ⟨digit, digits, shape, all digit (by simp), fun later member => all later (by simp [member])⟩

end Fine.Scan
