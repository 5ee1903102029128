import Fine.Runtime.Term
import Mathlib

/-!
# Candidate terms of a synthesis

`CandidateEnumerator` hands out exactly the grammar, each term at its own size and none left out.
-/

namespace Fine.RuntimeDetail

open List

/-- A candidate with its size. -/
structure Candidate where
  size : Nat
  term : Term
deriving DecidableEq

/-- Add a term unless it is there. -/
def addUnique (terms : List Term) (term : Term) : List Term :=
  if term ∈ terms then terms else terms ++ [term]

def atoms (inputs : List Const) : List Term :=
  (inputs.filter fun input : Const => input.sort = .int).map Term.constant ++
    [.numeral 0, .numeral 1]

/-- Candidates of size one. -/
def sizeOne (inputs : List Const) : List Term := (atoms inputs).foldl addUnique []

/-- Add the sum and the difference of two terms. -/
def addOperations (left : Term) (terms : List Term) (right : Term) : List Term :=
  addUnique (addUnique terms (.app .add [left, right])) (.app .sub [left, right])

/-- Candidates of a size, from those of smaller ones. -/
def combine (table : List (List Term)) : List Term :=
  let target := table.length
  if target < 3 then []
  else (List.range' 1 (target - 2)).foldl (fun terms leftSize =>
    (table.getD leftSize []).foldl (fun terms left =>
      (table.getD (target - leftSize - 1) []).foldl (addOperations left) terms) terms) []

/-- A table with the candidates of one more size. -/
def grow (table : List (List Term)) : List (List Term) := table ++ [combine table]

/-- A table that reaches a size. -/
def ensureSize (table : List (List Term)) (size : Nat) : List (List Term) :=
  grow^[size + 1 - table.length] table

/-- The table of candidates, and the place of the next one. -/
structure CandidateEnumerator where
  bySize : List (List Term)
  currentSize : Nat
  currentIndex : Nat

namespace CandidateEnumerator

def initial (inputs : List Const) : CandidateEnumerator := ⟨[[], sizeOne inputs], 1, 0⟩

/-- The next candidate, within so many sizes. -/
def nextWithin : Nat → CandidateEnumerator → Option (Candidate × CandidateEnumerator)
  | 0, _ => none
  | sizes + 1, enumerator =>
    let table := ensureSize enumerator.bySize enumerator.currentSize
    match (table.getD enumerator.currentSize [])[enumerator.currentIndex]? with
    | some term => some (⟨enumerator.currentSize, term⟩,
        ⟨table, enumerator.currentSize, enumerator.currentIndex + 1⟩)
    | none => nextWithin sizes ⟨table, enumerator.currentSize + 1, 0⟩

/-- The next candidate, at the third size at the latest. -/
def next (enumerator : CandidateEnumerator) : Candidate × CandidateEnumerator :=
  (nextWithin 3 enumerator).getD (⟨0, .numeral 0⟩, enumerator)

end CandidateEnumerator

/-- Terms over integer inputs, `0`, `1`, `+` and `-`, by number of nodes. -/
inductive Grammar (inputs : List Const) : Nat → Term → Prop where
  | input {symbol : Const} (member : symbol ∈ inputs) (isInt : symbol.sort = .int) :
      Grammar inputs 1 (.constant symbol)
  | zero : Grammar inputs 1 (.numeral 0)
  | one : Grammar inputs 1 (.numeral 1)
  | add {first second : Nat} {left right : Term} (ofLeft : Grammar inputs first left)
      (ofRight : Grammar inputs second right) :
      Grammar inputs (first + second + 1) (.app .add [left, right])
  | sub {first second : Nat} {left right : Term} (ofLeft : Grammar inputs first left)
      (ofRight : Grammar inputs second right) :
      Grammar inputs (first + second + 1) (.app .sub [left, right])

variable {inputs : List Const}

/-! ## Members of the table -/

variable {term : Term} {size : Nat}

theorem mem_addUnique {terms : List Term} {other : Term} :
    other ∈ addUnique terms term ↔ other ∈ terms ∨ other = term := by
  unfold addUnique
  split
  · rename_i known
    constructor
    · exact Or.inl
    · rintro (member | rfl)
      · exact member
      · exact known
  · simp

theorem mem_foldl_add {α : Type} {step : List Term → α → List Term} {adds : α → Term → Prop}
    (each : ∀ terms item term, term ∈ step terms item ↔ term ∈ terms ∨ adds item term)
    (items : List α) (terms : List Term) (term : Term) :
    term ∈ items.foldl step terms ↔ term ∈ terms ∨ ∃ item ∈ items, adds item term := by
  induction items generalizing terms with
  | nil => simp
  | cons item items ih =>
    rw [foldl_cons, ih, each, or_assoc]
    simp

theorem Grammar.positive (grammar : Grammar inputs size term) : 1 ≤ size := by
  cases grammar <;> omega

theorem mem_atoms : term ∈ atoms inputs ↔ Grammar inputs 1 term := by
  constructor
  · intro member
    rcases mem_append.mp member with input | literal
    · obtain ⟨symbol, known, rfl⟩ := mem_map.mp input
      obtain ⟨known, isInt⟩ := mem_filter.mp known
      exact .input known (of_decide_eq_true isInt)
    · rcases mem_cons.mp literal with rfl | literal
      · exact .zero
      · rw [mem_singleton.mp literal]
        exact .one
  · intro grammar
    generalize size : 1 = count at grammar
    cases grammar with
    | @input symbol member isInt =>
      refine mem_append_left _ (mem_map.mpr ⟨symbol, ?_, rfl⟩)
      exact mem_filter.mpr ⟨member, decide_eq_true isInt⟩
    | zero => exact mem_append_right _ mem_cons_self
    | one => exact mem_append_right _ (mem_cons_of_mem _ mem_cons_self)
    | add ofLeft ofRight | sub ofLeft ofRight =>
      have positive := ofLeft.positive
      omega

theorem mem_sizeOne : term ∈ sizeOne inputs ↔ Grammar inputs 1 term := by
  have added := @mem_foldl_add Term addUnique (fun item term => term = item)
    (fun _ _ _ => mem_addUnique) (atoms inputs) [] term
  rw [sizeOne, added, ← mem_atoms]
  simp

/-- The sums and differences of a size. -/
theorem mem_combine {table : List (List Term)} :
    term ∈ combine table ↔ ∃ leftSize rightSize, 1 ≤ leftSize ∧ 1 ≤ rightSize ∧
      leftSize + rightSize + 1 = table.length ∧ ∃ left ∈ table.getD leftSize [],
        ∃ right ∈ table.getD rightSize [],
          term = .app .add [left, right] ∨ term = .app .sub [left, right] := by
  have operations : ∀ (left : Term) (terms : List Term) (right other : Term),
      other ∈ addOperations left terms right ↔ other ∈ terms ∨
        (other = .app .add [left, right] ∨ other = .app .sub [left, right]) := by
    intro left terms right other
    rw [addOperations, mem_addUnique, mem_addUnique, or_assoc]
  have rights := fun size (terms : List Term) (left : Term) =>
    mem_foldl_add (operations left) (table.getD (table.length - size - 1) []) terms
  have lefts := fun (terms : List Term) size =>
    mem_foldl_add (rights size) (table.getD size []) terms
  unfold combine
  simp only
  split
  · rename_i small
    constructor
    · nofun
    · rintro ⟨leftSize, rightSize, positive, positive', total, -⟩
      omega
  · rename_i large
    rw [mem_foldl_add lefts]
    constructor
    · rintro (nothing | ⟨leftSize, inside, left, onLeft, right, onRight, same⟩)
      · cases nothing
      · have bounds := mem_range'_1.mp inside
        exact ⟨leftSize, table.length - leftSize - 1, bounds.1, by omega, by omega, left, onLeft,
          right, onRight, same⟩
    · rintro ⟨leftSize, rightSize, positive, positive', total, left, onLeft, right, onRight, same⟩
      have size : table.length - leftSize - 1 = rightSize := by omega
      refine .inr ⟨leftSize, mem_range'_1.mpr ⟨positive, by omega⟩, left, onLeft, right, ?_, same⟩
      rwa [size]

/-! ## Levels of the grammar -/

def tableAfter (inputs : List Const) (steps : Nat) : List (List Term) :=
  grow^[steps] [[], sizeOne inputs]

theorem tableAfter_succ (steps : Nat) :
    tableAfter inputs (steps + 1) = tableAfter inputs steps ++ [combine (tableAfter inputs steps)] :=
  Function.iterate_succ_apply' grow steps _

@[simp] theorem length_tableAfter (steps : Nat) : (tableAfter inputs steps).length = steps + 2 := by
  induction steps with
  | zero => rfl
  | succ steps ih =>
    rw [tableAfter_succ, length_append, ih]
    rfl

/-- The candidates of a size. -/
def level (inputs : List Const) (size : Nat) : List Term := (tableAfter inputs size).getD size []

theorem getD_tableAfter {steps : Nat} (has : size < steps + 2) :
    (tableAfter inputs steps).getD size [] = level inputs size := by
  have later : ∀ more, (tableAfter inputs (size + more)).getD size [] = level inputs size := by
    intro more
    induction more with
    | zero => rfl
    | succ more ih =>
      rw [← Nat.add_assoc, tableAfter_succ, getD_append _ _ _ _ (by simp; omega), ih]
  by_cases enough : size ≤ steps
  · rw [← Nat.add_sub_cancel' enough]
    exact later _
  · obtain rfl : size = steps + 1 := by omega
    have next := later 0
    rw [Nat.add_zero, tableAfter_succ, getD_append _ _ _ _ (by simp)] at next
    exact next

theorem ensureSize_tableAfter (steps size : Nat) :
    ∃ more, ensureSize (tableAfter inputs steps) size = tableAfter inputs more ∧
      size < more + 2 := by
  refine ⟨size + 1 - (steps + 2) + steps, ?_, by omega⟩
  rw [ensureSize, length_tableAfter, tableAfter, tableAfter, ← Function.iterate_add_apply]

theorem level_combine (steps : Nat) :
    level inputs (steps + 2) = combine (tableAfter inputs steps) := by
  rw [← @getD_tableAfter inputs (steps + 2) (steps + 1) (by omega), tableAfter_succ,
    getD_append_right _ _ _ _ (by simp)]
  simp

/-- Candidates of a size are the grammar's terms of it. -/
theorem mem_level : term ∈ level inputs size ↔ Grammar inputs size term := by
  induction size using Nat.strongRecOn generalizing term with
  | ind size ih =>
    match size, ih with
    | 0, _ =>
      constructor
      · nofun
      · intro grammar
        have positive := grammar.positive
        omega
    | 1, _ =>
      have one : level inputs 1 = sizeOne inputs := (@getD_tableAfter inputs 1 0 (by omega)).symm
      rw [one, mem_sizeOne]
    | steps + 2, ih =>
      rw [level_combine, mem_combine, length_tableAfter]
      constructor
      · rintro ⟨leftSize, rightSize, positive, positive', total, left, onLeft, right, onRight, same⟩
        rw [getD_tableAfter (by omega), ih leftSize (by omega)] at onLeft
        rw [getD_tableAfter (by omega), ih rightSize (by omega)] at onRight
        rw [← total]
        rcases same with rfl | rfl
        · exact .add onLeft onRight
        · exact .sub onLeft onRight
      · intro grammar
        generalize whole : steps + 2 = count at grammar
        cases grammar with
        | input | zero | one => omega
        | @add first second left right ofLeft ofRight =>
          refine ⟨first, second, ofLeft.positive, ofRight.positive, rfl, left, ?_, right, ?_,
            .inl rfl⟩
          · rw [getD_tableAfter (by have := ofRight.positive; omega)]
            exact (ih first (by omega)).mpr ofLeft
          · rw [getD_tableAfter (by have := ofLeft.positive; omega)]
            exact (ih second (by omega)).mpr ofRight
        | @sub first second left right ofLeft ofRight =>
          refine ⟨first, second, ofLeft.positive, ofRight.positive, rfl, left, ?_, right, ?_,
            .inr rfl⟩
          · rw [getD_tableAfter (by have := ofRight.positive; omega)]
            exact (ih first (by omega)).mpr ofLeft
          · rw [getD_tableAfter (by have := ofLeft.positive; omega)]
            exact (ih second (by omega)).mpr ofRight

theorem level_odd (half : Nat) : level inputs (2 * half + 1) ≠ [] := by
  have some : ∃ term, Grammar inputs (2 * half + 1) term := by
    induction half with
    | zero => exact ⟨_, .zero⟩
    | succ half ih =>
      obtain ⟨term, grammar⟩ := ih
      exact ⟨_, grammar.add .zero⟩
  obtain ⟨term, grammar⟩ := some
  exact ne_nil_of_mem (mem_level.mpr grammar)

/-! ## Order of the candidates -/

def candidatesOf (inputs : List Const) (size : Nat) : List Candidate :=
  (level inputs size).map (Candidate.mk size)

def candidatesBelow (inputs : List Const) (size : Nat) : List Candidate :=
  (List.range size).flatMap (candidatesOf inputs)

theorem candidatesBelow_succ (size : Nat) : candidatesBelow inputs (size + 1) =
    candidatesBelow inputs size ++ candidatesOf inputs size := by
  rw [candidatesBelow, range_succ, flatMap_append, flatMap_singleton]
  rfl

theorem candidatesBelow_mono {larger : Nat} (le : size ≤ larger) :
    candidatesBelow inputs size <+: candidatesBelow inputs larger := by
  obtain ⟨more, rfl⟩ := Nat.exists_eq_add_of_le le
  induction more with
  | zero => exact prefix_refl _
  | succ more ih =>
    rw [← Nat.add_assoc, candidatesBelow_succ]
    exact (ih (Nat.le_add_right _ _)).trans (prefix_append _ _)

namespace CandidateEnumerator

/-- Stands among the candidates over some inputs. -/
structure Over (enumerator : CandidateEnumerator) (inputs : List Const) : Prop where
  table : ∃ steps, enumerator.bySize = tableAfter inputs steps
  place : enumerator.currentIndex ≤ (level inputs enumerator.currentSize).length

def consumed (enumerator : CandidateEnumerator) (inputs : List Const) : List Candidate :=
  candidatesBelow inputs enumerator.currentSize ++
    (candidatesOf inputs enumerator.currentSize).take enumerator.currentIndex

theorem initial_over : (initial inputs).Over inputs ∧ (initial inputs).consumed inputs = [] :=
  ⟨⟨⟨0, rfl⟩, Nat.zero_le _⟩, rfl⟩

variable {enumerator : CandidateEnumerator}

section

variable (within : enumerator.Over inputs)

include within

variable {sizes : Nat}

/-- What the loop finds is the next candidate in order. -/
theorem nextWithin_over {found : Candidate} {later : CandidateEnumerator}
    (run : nextWithin sizes enumerator = some (found, later)) :
    later.Over inputs ∧ later.consumed inputs = enumerator.consumed inputs ++ [found] := by
  induction sizes generalizing enumerator with
  | zero => cases run
  | succ sizes ih =>
    obtain ⟨steps, table⟩ := within.table
    obtain ⟨more, grown, has⟩ := @ensureSize_tableAfter inputs steps enumerator.currentSize
    simp only [nextWithin, table, grown, getD_tableAfter has] at run
    split at run
    · rename_i term here
      cases run
      have inside := (List.getElem?_eq_some_iff.mp here).1
      refine ⟨⟨⟨more, rfl⟩, inside⟩, ?_⟩
      have candidate : (candidatesOf inputs enumerator.currentSize)[enumerator.currentIndex]? =
          some ⟨enumerator.currentSize, term⟩ := by
        rw [candidatesOf, List.getElem?_map, here]
        rfl
      simp only [consumed]
      rw [append_assoc, take_add_one, candidate]
      rfl
    · rename_i exhausted
      have all : enumerator.currentIndex = (level inputs enumerator.currentSize).length :=
        Nat.le_antisymm within.place (List.getElem?_eq_none_iff.mp exhausted)
      obtain ⟨within', same⟩ := ih ⟨⟨more, rfl⟩, Nat.zero_le _⟩ run
      refine ⟨within', same.trans (congrArg (· ++ [found]) ?_)⟩
      have whole : (candidatesOf inputs enumerator.currentSize).take enumerator.currentIndex =
          candidatesOf inputs enumerator.currentSize := by
        rw [all, take_of_length_le (by simp [candidatesOf])]
      simp only [consumed, take_zero, append_nil]
      rw [candidatesBelow_succ, whole]

/-- A candidate is found where the current size has one left. -/
theorem nextWithin_found
    (later : level inputs enumerator.currentSize = [] ∨
        enumerator.currentIndex = (level inputs enumerator.currentSize).length →
      ∀ next : CandidateEnumerator, next.Over inputs → next.currentIndex = 0 →
        next.currentSize = enumerator.currentSize + 1 → (nextWithin sizes next).isSome = true) :
    (nextWithin (sizes + 1) enumerator).isSome = true := by
  obtain ⟨steps, table⟩ := within.table
  obtain ⟨more, grown, has⟩ := @ensureSize_tableAfter inputs steps enumerator.currentSize
  simp only [nextWithin, table, grown, getD_tableAfter has]
  split
  · rfl
  · rename_i exhausted
    have all := Nat.le_antisymm within.place (List.getElem?_eq_none_iff.mp exhausted)
    exact later (.inr all) _ ⟨⟨more, rfl⟩, Nat.zero_le _⟩ rfl rfl

/-- Of two sizes in a row one is odd, so the third is the last. -/
theorem nextWithin_three :
    (nextWithin 3 enumerator).isSome = true := by
  refine nextWithin_found within fun _ second within₂ start₂ size₂ => ?_
  refine nextWithin_found within₂ fun empty₂ third within₃ start₃ size₃ => ?_
  refine nextWithin_found within₃ fun empty₃ _ _ _ _ => ?_
  have none₂ : level inputs second.currentSize = [] := by
    rcases empty₂ with empty | all
    · exact empty
    · exact eq_nil_of_length_eq_zero (by omega)
  have none₃ : level inputs third.currentSize = [] := by
    rcases empty₃ with empty | all
    · exact empty
    · exact eq_nil_of_length_eq_zero (by omega)
  rcases Nat.even_or_odd' second.currentSize with ⟨half, even | odd⟩
  · rw [size₃, even] at none₃
    exact absurd none₃ (level_odd half)
  · rw [odd] at none₂
    exact absurd none₂ (level_odd half)

theorem next_over : enumerator.next.2.Over inputs ∧
    enumerator.next.2.consumed inputs = enumerator.consumed inputs ++ [enumerator.next.1] := by
  obtain ⟨⟨found, later⟩, run⟩ := Option.isSome_iff_exists.mp (nextWithin_three within)
  have same : enumerator.next = (found, later) := by rw [next, run, Option.getD_some]
  rw [same]
  exact nextWithin_over within run

end

def after (inputs : List Const) : Nat → CandidateEnumerator
  | 0 => initial inputs
  | count + 1 => (after inputs count).next.2

end CandidateEnumerator

/-- The candidates in the order they are handed out. -/
def candidate (inputs : List Const) (index : Nat) : Candidate :=
  (CandidateEnumerator.after inputs index).next.1

theorem consumed_after (inputs : List Const) (count : Nat) :
    (CandidateEnumerator.after inputs count).Over inputs ∧
      (CandidateEnumerator.after inputs count).consumed inputs =
        (List.range count).map (candidate inputs) := by
  induction count with
  | zero => exact CandidateEnumerator.initial_over
  | succ count ih =>
    obtain ⟨within, consumed⟩ := ih
    have next := CandidateEnumerator.next_over within
    refine ⟨next.1, next.2.trans ?_⟩
    rw [consumed, range_succ, map_append]
    rfl

theorem candidate_grammar (inputs : List Const) (index : Nat) :
    Grammar inputs (candidate inputs index).size (candidate inputs index).term := by
  have consumed := (consumed_after inputs (index + 1)).2
  have member : candidate inputs index ∈
      (CandidateEnumerator.after inputs (index + 1)).consumed inputs := by
    rw [consumed, range_succ]
    simp
  have ofLevel : ∀ size, candidate inputs index ∈ candidatesOf inputs size →
      Grammar inputs (candidate inputs index).size (candidate inputs index).term := by
    intro size inside
    obtain ⟨term, known, same⟩ := mem_map.mp inside
    rw [← same]
    exact mem_level.mp known
  rcases mem_append.mp member with below | here
  · obtain ⟨size, -, inside⟩ := mem_flatMap.mp below
    exact ofLevel size inside
  · exact ofLevel _ (mem_of_mem_take here)

theorem exists_candidate (grammar : Grammar inputs size term) :
    ∃ index, candidate inputs index = ⟨size, term⟩ := by
  -- As many candidates as there are up to the size are exactly these.
  set count := (candidatesBelow inputs (size + 1)).length with count_eq
  obtain ⟨-, consumed⟩ := consumed_after inputs count
  set enumerator := CandidateEnumerator.after inputs count
  have front : enumerator.consumed inputs <+:
      candidatesBelow inputs (max (size + 1) (enumerator.currentSize + 1)) := by
    have here : enumerator.consumed inputs <+:
        candidatesBelow inputs (enumerator.currentSize + 1) := by
      rw [candidatesBelow_succ]
      exact (prefix_append_right_inj _).mpr ( take_prefix _ _)
    exact here.trans (candidatesBelow_mono (Nat.le_max_right _ _))
  have other : candidatesBelow inputs (size + 1) <+:
      candidatesBelow inputs (max (size + 1) (enumerator.currentSize + 1)) :=
    candidatesBelow_mono (Nat.le_max_left _ _)
  have same : enumerator.consumed inputs = candidatesBelow inputs (size + 1) := by
    have length : (enumerator.consumed inputs).length =
        (candidatesBelow inputs (size + 1)).length := by
      rw [consumed, length_map, length_range]
    exact (prefix_of_prefix_length_le front other (Nat.le_of_eq length)).eq_of_length length
  have member : (⟨size, term⟩ : Candidate) ∈ candidatesBelow inputs (size + 1) := by
    rw [candidatesBelow_succ]
    exact mem_append_right _ (mem_map_of_mem (mem_level.mpr grammar))
  rw [← same, consumed] at member
  obtain ⟨index, -, found⟩ := mem_map.mp member
  exact ⟨index, found⟩

theorem Grammar.mono {others : List Const} (grammar : Grammar inputs size term)
    (more : ∀ symbol ∈ inputs, symbol.sort = .int → symbol ∈ others) :
    Grammar others size term := by
  induction grammar with
  | input member isInt => exact .input (more _ member isInt) isInt
  | zero => exact .zero
  | one => exact .one
  | add _ _ left right => exact .add left right
  | sub _ _ left right => exact .sub left right

variable {symbol : Const}

theorem Grammar.of_constant (grammar : Grammar inputs size (.constant symbol)) :
    symbol ∈ inputs := by
  cases grammar with
  | input member => exact member

theorem sizeOne_head (term : Term) (terms : List Term) :
    ((term :: terms).foldl addUnique []).head? = some term := by
  have kept : ∀ (terms front : List Term), front <+: terms.foldl addUnique front := by
    intro terms
    induction terms with
    | nil => exact fun front => prefix_refl _
    | cons other terms ih =>
      intro front
      refine List.IsPrefix.trans ?_ (ih _)
      unfold addUnique
      split
      · exact prefix_refl _
      · exact prefix_append _ _
  have first : (addUnique [] term) = [term] := by simp [addUnique]
  rw [foldl_cons, first]
  obtain ⟨rest, same⟩ := kept terms [term]
  rw [← same]
  rfl

theorem candidate_zero (member : symbol ∈ inputs) (isInt : symbol.sort = .int) :
    ∃ other, candidate inputs 0 = ⟨1, .constant other⟩ := by
  have inside : symbol ∈ inputs.filter fun input : Const => input.sort = .int :=
    mem_filter.mpr ⟨member, decide_eq_true isInt⟩
  cases front : inputs.filter fun input : Const => input.sort = .int with
  | nil =>
    rw [front] at inside
    cases inside
  | cons other rest =>
    refine ⟨other, ?_⟩
    have head : (sizeOne inputs)[0]? = some (.constant other) := by
      rw [← head?_eq_getElem?, sizeOne, atoms, front]
      exact sizeOne_head _ _
    have next : CandidateEnumerator.nextWithin 3 (.initial inputs) = some (⟨1, .constant other⟩,
        ⟨ensureSize [[], sizeOne inputs] 1, 1, 1⟩) := by
      rw [CandidateEnumerator.nextWithin]
      have table : ((ensureSize [[], sizeOne inputs] 1).getD 1 [])[0]? = some (.constant other) :=
        head
      simp only [CandidateEnumerator.initial, table]
    rw [candidate, CandidateEnumerator.after, CandidateEnumerator.next, next]
    rfl

/-! ## Each term once, and the smaller first -/

theorem Grammar.size_unique {other : Nat} (grammar : Grammar inputs size term)
    (again : Grammar inputs other term) : size = other := by
  induction grammar generalizing other with
  | input | zero | one =>
    cases again
    rfl
  | add _ _ left right =>
    cases again with
    | add ofLeft ofRight => rw [left ofLeft, right ofRight]
  | sub _ _ left right =>
    cases again with
    | sub ofLeft ofRight => rw [left ofLeft, right ofRight]

theorem Grammar.odd (grammar : Grammar inputs size term) : size % 2 = 1 := by
  induction grammar <;> omega

theorem nodup_level (size : Nat) : (level inputs size).Nodup := by
  have unique : ∀ terms term, terms.Nodup → (addUnique terms term).Nodup := by
    intro terms term nodup
    unfold addUnique
    split
    · exact nodup
    · rename_i fresh
      exact nodup_append.mpr ⟨nodup, by simp, by grind⟩
  have loops : ∀ {α : Type} {step : List Term → α → List Term},
      (∀ terms item, terms.Nodup → (step terms item).Nodup) →
      ∀ (items : List α) (terms : List Term), terms.Nodup → (items.foldl step terms).Nodup := by
    intro α step each items terms nodup
    exact List.foldlRecOn items step nodup fun terms nodup item _ => each terms item nodup
  match size with
  | 0 => exact nodup_nil
  | 1 => exact loops unique _ _ nodup_nil
  | steps + 2 =>
    rw [level_combine, combine]
    split
    · exact nodup_nil
    · refine loops (fun _ _ => loops (fun _ left => loops ?_ _ _) _ _) _ _ nodup_nil
      exact fun terms right nodup => unique _ _ (unique _ _ nodup)

theorem candidatesBelow_ordered (size : Nat) : (candidatesBelow inputs size).Pairwise
    fun first second => first ≠ second ∧ first.size ≤ second.size := by
  have below : ∀ size, ∀ found ∈ candidatesBelow inputs size, found.size < size := by
    intro size found member
    obtain ⟨smaller, inside, here⟩ := mem_flatMap.mp member
    obtain ⟨term, -, rfl⟩ := mem_map.mp here
    exact mem_range.mp inside
  have here : ∀ size, ∀ found ∈ candidatesOf inputs size, found.size = size := by
    intro size found member
    obtain ⟨term, -, rfl⟩ := mem_map.mp member
    rfl
  induction size with
  | zero => exact List.Pairwise.nil
  | succ size ih =>
    rw [candidatesBelow_succ]
    refine pairwise_append.mpr ⟨ih, ?_, ?_⟩
    · refine pairwise_map.mpr ((nodup_level size).imp ?_)
      intro first second different
      exact ⟨fun same => different (Candidate.mk.inj same).2, Nat.le_refl _⟩
    · intro first before second last
      have smaller := below size first before
      have equal := here size second last
      refine ⟨?_, by omega⟩
      rintro rfl
      omega

theorem candidate_ordered {first second : Nat} (before : first < second) :
    candidate inputs first ≠ candidate inputs second ∧
      (candidate inputs first).size ≤ (candidate inputs second).size := by
  have consumed := (consumed_after inputs (second + 1)).2
  have ordered := @candidatesBelow_ordered inputs
    ((CandidateEnumerator.after inputs (second + 1)).currentSize + 1)
  rw [candidatesBelow_succ] at ordered
  have front := ordered.sublist ((prefix_append_right_inj _).mpr
    ( take_prefix (CandidateEnumerator.after inputs (second + 1)).currentIndex _)).sublist
  have known : ((List.range (second + 1)).map (candidate inputs)).Pairwise
      fun first second => first ≠ second ∧ first.size ≤ second.size := consumed ▸ front
  have pair := pairwise_iff_getElem.mp known first second (by simp; omega) (by simp) before
  simpa using pair

/-- Successive calls hand out exactly the terms over the inputs, zero and one, each once and the
smaller ones first; every call ends at the third size at the latest, although no even size has
candidates. -/
theorem next_enumerates (inputs : List Const) :
    (∀ index, CandidateEnumerator.nextWithin 3 (.after inputs index) =
      some (candidate inputs index, .after inputs (index + 1))) ∧
    (∀ index, Grammar inputs (candidate inputs index).size (candidate inputs index).term) ∧
    (∀ size term, Grammar inputs size term → ∃! index, (candidate inputs index).term = term) ∧
    (∀ first second, first ≤ second →
      (candidate inputs first).size ≤ (candidate inputs second).size) ∧
    ∀ half, level inputs (2 * half) = [] := by
  refine ⟨?_, candidate_grammar inputs, ?_, ?_, ?_⟩
  · intro index
    have found := CandidateEnumerator.nextWithin_three (consumed_after inputs index).1
    obtain ⟨pair, run⟩ := Option.isSome_iff_exists.mp found
    rw [candidate, CandidateEnumerator.after, CandidateEnumerator.next, run]
    rfl
  · intro size term grammar
    obtain ⟨index, found⟩ := exists_candidate grammar
    refine ⟨index, by simp only [found], ?_⟩
    intro other same
    have alike : candidate inputs other = candidate inputs index := by
      have sized := candidate_grammar inputs other
      rw [same] at sized
      rw [found, ← sized.size_unique grammar, ← same]
    rcases Nat.lt_trichotomy other index with before | equal | behind
    · exact absurd alike (candidate_ordered before).1
    · exact equal
    · exact absurd alike.symm (candidate_ordered behind).1
  · intro first second order
    rcases Nat.lt_or_eq_of_le order with before | rfl
    · exact (candidate_ordered before).2
    · exact Nat.le_refl _
  · intro half
    refine eq_nil_iff_forall_not_mem.mpr fun term member => ?_
    have odd := (mem_level.mp member).odd
    omega

end Fine.RuntimeDetail
