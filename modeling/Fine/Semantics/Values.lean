import Fine.Syntax.Tree
import Mathlib

/-!
# Types and values

Enumerations and datatypes are free algebras, tuples pairs, and tables all functions. Type names
mean what the declared shapes say.
-/

namespace Fine.Semantics

open Fine.Syntax

/-- Types of the language. -/
inductive FineType where
  | bool
  | int
  | named (name : Identifier)
  | tuple (first second : FineType)
  | table (key value : FineType)
deriving DecidableEq

/-- The type is a table. -/
def FineType.isTable : FineType → Bool
  | .table _ _ => true
  | _ => false

/-- Values of every type but a table. -/
inductive Value where
  | bool (value : Bool)
  | int (value : Int)
  | pair (first second : Value)
  | con (constructor : Identifier) (fields : List Value)

instance : Inhabited Value := ⟨.bool false⟩

@[induction_eliminator]
theorem Value.members_induction {motive : Value → Prop} (bool : ∀ value, motive (.bool value))
    (int : ∀ value, motive (.int value))
    (pair : ∀ first second, motive first → motive second → motive (.pair first second))
    (con : ∀ constructor fields, (∀ field ∈ fields, motive field) →
      motive (.con constructor fields)) (value : Value) : motive value :=
  @Value.rec motive (fun fields => ∀ field ∈ fields, motive field) bool int pair con
    (by simp) (fun _ _ head tail => by simpa using ⟨head, tail⟩) value

/-- Values, and tables as functions. -/
inductive Element where
  | plain (value : Value)
  | table (entry : Value → Value)

instance : Inhabited Element := ⟨.plain default⟩

namespace Element

def toValue : Element → Value
  | .plain value => value
  | .table _ => default

/-- The element is the truth value `true`. -/
def Holds (element : Element) : Prop := element = .plain (.bool true)

def number : Element → Int
  | .plain (.int number) => number
  | _ => 0

noncomputable def truth (proposition : Prop) : Element :=
  open Classical in .plain (.bool (decide proposition))

@[simp] theorem truth_holds (proposition : Prop) : (truth proposition).Holds ↔ proposition := by
  simp [Holds, truth]

theorem truth_congr {left right : Prop} (same : left ↔ right) : truth left = truth right := by
  rw [propext same]

end Element

/-- Constructors of types, with their fields' types. -/
abbrev Shapes := Identifier → Option (List (Identifier × List FineType))

mutual

def Inhabits (shapes : Shapes) : Value → FineType → Prop
  | .bool _, type => type = .bool
  | .int _, type => type = .int
  | .pair first second, type => ∃ left right, type = .tuple left right ∧
      Inhabits shapes first left ∧ Inhabits shapes second right
  | .con constructor fields, type => ∃ name cases types, type = .named name ∧
      shapes name = some cases ∧ (constructor, types) ∈ cases ∧ InhabitsAll shapes fields types

def InhabitsAll (shapes : Shapes) : List Value → List FineType → Prop
  | [], types => types = []
  | value :: values, types => ∃ type rest, types = type :: rest ∧ Inhabits shapes value type ∧
      InhabitsAll shapes values rest

end

variable {shapes : Shapes}

theorem inhabitsAll_iff {values : List Value} {types : List FineType} :
    InhabitsAll shapes values types ↔ List.Forall₂ (Inhabits shapes) values types := by
  induction values generalizing types with
  | nil => simp [InhabitsAll, List.forall₂_nil_left_iff]
  | cons value values ih =>
    simp only [InhabitsAll, ih, List.forall₂_cons_left_iff]
    constructor
    · rintro ⟨type, rest, rfl, here, there⟩
      exact ⟨type, rest, here, there, rfl⟩
    · rintro ⟨type, rest, here, there, rfl⟩
      exact ⟨type, rest, rfl, here, there⟩

variable {value : Value}

theorem Inhabits.not_table {key entry : FineType} : ¬ Inhabits shapes value (.table key entry) := by
  cases value <;> simp [Inhabits]

theorem inhabits_bool : Inhabits shapes value .bool ↔ ∃ truth, value = .bool truth := by
  cases value <;> simp [Inhabits]

theorem inhabits_named {name : Identifier} :
    Inhabits shapes value (.named name) ↔ ∃ constructor fields cases types,
      value = .con constructor fields ∧ shapes name = some cases ∧
      (constructor, types) ∈ cases ∧ InhabitsAll shapes fields types := by
  constructor
  · cases value with
    | bool | int | pair => simp [Inhabits]
    | con constructor fields =>
      rintro ⟨name', cases, types, same, shape, member, inside⟩
      cases same
      exact ⟨constructor, fields, cases, types, rfl, shape, member, inside⟩
  · rintro ⟨constructor, fields, cases, types, rfl, shape, member, inside⟩
    exact ⟨name, cases, types, rfl, shape, member, inside⟩

/-- The element is of the type; off its keys a table is one fixed value. -/
def Element.Inhabits (shapes : Shapes) : Element → FineType → Prop
  | .plain value, type => Semantics.Inhabits shapes value type
  | .table entry, type => ∃ key result, type = .table key result ∧
      (∀ value, Semantics.Inhabits shapes value key → Semantics.Inhabits shapes (entry value) result) ∧
      ∀ value, ¬ Semantics.Inhabits shapes value key → entry value = default

theorem Element.Inhabits.toValue {element : Element} {type : FineType}
    (inhabits : element.Inhabits shapes type) (flat : type.isTable = false) :
    element = .plain element.toValue ∧ Semantics.Inhabits shapes element.toValue type := by
  cases element with
  | plain value => exact ⟨rfl, inhabits⟩
  | table entry =>
    obtain ⟨key, result, rfl, -⟩ := inhabits
    cases flat

end Fine.Semantics
