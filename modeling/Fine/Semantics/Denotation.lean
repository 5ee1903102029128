import Fine.Semantics.Typing

/-!
# Direct denotation of expressions

What an expression means, read off the expression itself and not off any translation.
-/

namespace Fine.Semantics

open Fine.Syntax

/-- What the declared names mean. -/
structure Interp where
  /-- Constructors of the declared types. -/
  shapes : Shapes
  function : Identifier → List Value → Value
  relation : Identifier → List Value → Prop
  /-- What a field of a constructor is said to be for a value of another constructor. -/
  outside : Identifier → Nat → Value → Value

/-- What the names in scope mean. -/
abbrev Meaning := Identifier → Option Element

noncomputable def operate : BinaryOp → Element → Element → Element
  | .equal, left, right => .truth (left = right)
  | .greaterEqual, left, right => .truth (right.number ≤ left.number)
  | .lessEqual, left, right => .truth (left.number ≤ right.number)
  | .logicalAnd, left, right => .truth (left.Holds ∧ right.Holds)
  | .logicalOr, left, right => .truth (left.Holds ∨ right.Holds)
  | .add, left, right => .plain (.int (left.number + right.number))
  | .subtract, left, right => .plain (.int (left.number - right.number))

/-- Meaning of a conditional. -/
noncomputable def choose (condition yes no : Element) : Element :=
  open Classical in if condition.Holds then yes else no

/-- Meaning of a called name. -/
noncomputable def Interp.call (interp : Interp) (sig : Signature) (name : Identifier)
    (arguments : List Value) : Element :=
  match sig.constructors name with
  | some _ => .plain (.con name arguments)
  | none =>
    match sig.predicates name with
    | some _ => .truth (interp.relation name arguments)
    | none => .plain (interp.function name arguments)

/-- A call depends on the function only at the arguments. -/
theorem Interp.call_congr {interp other : Interp} {sig : Signature} {name : Identifier}
    {arguments : List Value} (relation : interp.relation = other.relation)
    (function : interp.function name arguments = other.function name arguments) :
    interp.call sig name arguments = other.call sig name arguments := by
  rw [Interp.call, Interp.call, relation, function]

mutual

noncomputable def denote (sig : Signature) (interp : Interp) (meaning : Meaning) : Expr → Element
  | .name _ name => (meaning name).getD (.plain (.con name []))
  | .boolean _ value => .plain (.bool value)
  | .integer _ literal => .plain (.int literal.value)
  | .tuple _ elements =>
    match denoteAll sig interp meaning elements with
    | [first, second] => .plain (.pair first second)
    | _ => default
  | .call _ name arguments => interp.call sig name (denoteAll sig interp meaning arguments)
  | .binary _ op left right =>
    operate op (denote sig interp meaning left) (denote sig interp meaning right)
  | .conditional _ condition yes no =>
    choose (denote sig interp meaning condition) (denote sig interp meaning yes)
      (denote sig interp meaning no)
  | .hole _ _ => default

noncomputable def denoteAll (sig : Signature) (interp : Interp) (meaning : Meaning) :
    List Expr → List Value
  | [] => []
  | expression :: expressions =>
    (denote sig interp meaning expression).toValue :: denoteAll sig interp meaning expressions

end

theorem denoteAll_eq (sig : Signature) (interp : Interp) (meaning : Meaning)
    (expressions : List Expr) : denoteAll sig interp meaning expressions =
      expressions.map fun expression => (denote sig interp meaning expression).toValue := by
  induction expressions with
  | nil => rfl
  | cons expression expressions ih => rw [denoteAll, ih, List.map_cons]

/-- Names in scope mean elements of their types. -/
def Meaning.Typed (shapes : Shapes) (meaning : Meaning) (scope : Scope) : Prop :=
  ∀ name, (meaning name).isSome = (scope name).isSome ∧
    ∀ type element, scope name = some type → meaning name = some element →
      element.Inhabits shapes type

/-- Types and constructors are those that are declared. -/
structure Interp.RespectsTypes (interp : Interp) (sig : Signature) : Prop where
  /-- A case without fields is a constructor of its enumeration. -/
  cases : ∀ name enumeration, sig.cases name = some enumeration →
    ∃ cases, interp.shapes enumeration = some cases ∧ (name, []) ∈ cases
  /-- A constructor builds values of its datatype. -/
  constructors : ∀ name datatype fields, sig.constructors name = some (datatype, fields) →
    ∃ cases, interp.shapes datatype = some cases ∧ (name, fields) ∈ cases
  /-- Functions take and give no tables. -/
  flat : ∀ name parameters result, sig.functions name = some (parameters, result) →
    result.isTable = false ∧ ∀ type ∈ parameters, type.isTable = false
  fields : ∀ name datatype fields, sig.constructors name = some (datatype, fields) →
    ∀ type ∈ fields, type.isTable = false

/-- Declared names have meanings of their types. -/
structure Interp.Respects (interp : Interp) (sig : Signature) : Prop
    extends interp.RespectsTypes sig where
  /-- A function maps values of its parameter types to values of its result type. -/
  functions : ∀ name parameters result, sig.functions name = some (parameters, result) →
    ∀ arguments, List.Forall₂ (Inhabits interp.shapes) arguments parameters →
      Inhabits interp.shapes (interp.function name arguments) result

/-- The expression calls the name with the arguments. -/
inductive CallsIn (callee : Identifier) : Expr → List Expr → Prop where
  | here {info arguments} : CallsIn callee (.call info callee arguments) arguments
  | inside {expression element arguments} : element ∈ expression.elements →
      CallsIn callee element arguments → CallsIn callee expression arguments

variable {sig : Signature} {scope : Scope} {interp : Interp} {meaning : Meaning}

theorem operate_typed {op : BinaryOp} {operand result : FineType}
    (known : operatorTypes op = some (operand, result)) (left right : Element) :
    (operate op left right).Inhabits interp.shapes result := by
  cases op <;> cases known <;>
    simp [operate, Element.Inhabits, Element.truth, Inhabits]

/-- Well-typed arguments denote values of the types, if each one does. -/
theorem denoteAll_typed {arguments : List Expr} {types : List FineType}
    (typed : HaveTypes sig scope arguments types) (flat : ∀ type ∈ types, type.isTable = false)
    (each : ∀ argument ∈ arguments, ∀ type, HasType sig scope argument type →
      (denote sig interp meaning argument).Inhabits interp.shapes type) :
    List.Forall₂ (Inhabits interp.shapes) (denoteAll sig interp meaning arguments) types := by
  induction arguments generalizing types with
  | nil => cases typed; exact .nil
  | cons argument arguments ih =>
    cases typed with
    | cons here there =>
      have inside := each argument (by simp) _ here
      refine .cons (inside.toValue (flat _ (by simp))).2 ?_
      exact ih there (fun type member => flat type (by simp [member]))
        fun other member => each other (by simp [member])

/-- Calls in the expression give values of the result types. -/
def CallsTyped (sig : Signature) (interp : Interp) (meaning : Meaning) (expression : Expr) : Prop :=
  ∀ callee arguments, CallsIn callee expression arguments → ∀ parameters result,
    sig.functions callee = some (parameters, result) →
    List.Forall₂ (Inhabits interp.shapes) (denoteAll sig interp meaning arguments) parameters →
    Inhabits interp.shapes (interp.function callee (denoteAll sig interp meaning arguments)) result

theorem CallsTyped.element {expression element : Expr}
    (calls : CallsTyped sig interp meaning expression) (member : element ∈ expression.elements) :
    CallsTyped sig interp meaning element :=
  fun callee arguments inside => calls callee arguments (.inside member inside)

/-- Well-typed expressions denote elements, if calls do. -/
theorem denote_typed_of_calls (respects : interp.RespectsTypes sig)
    (typedScope : meaning.Typed interp.shapes scope) (expression : Expr) {type : FineType}
    (typed : HasType sig scope expression type)
    (calls : CallsTyped sig interp meaning expression) :
    (denote sig interp meaning expression).Inhabits interp.shapes type := by
  induction expression generalizing type with
  | name info name =>
    cases typed with
    | inScope found =>
      obtain ⟨both, inside⟩ := typedScope name
      rw [found] at both
      obtain ⟨element, known⟩ := Option.isSome_iff_exists.mp both
      rw [denote, known]
      exact inside _ _ found known
    | enumCase hidden known =>
      have empty : meaning name = none := by simpa [hidden] using (typedScope name).1
      obtain ⟨cases, shape, member⟩ := respects.cases _ _ known
      rw [denote, empty]
      exact ⟨_, cases, [], rfl, shape, member, rfl⟩
    | constant hidden other known =>
      have empty : meaning name = none := by simpa [hidden] using (typedScope name).1
      obtain ⟨cases, shape, member⟩ := respects.constructors _ _ _ known
      rw [denote, empty]
      exact ⟨_, cases, [], rfl, shape, member, rfl⟩
  | boolean info value | integer info literal => cases typed; exact rfl
  | tuple info elements ih =>
    cases typed with
    | pair one two flat flat' =>
      have left := (ih _ (by simp) one (calls.element (by simp [Expr.elements]))).toValue flat
      have right := (ih _ (by simp) two (calls.element (by simp [Expr.elements]))).toValue flat'
      simp only [denote, denoteAll]
      exact ⟨_, _, rfl, left.2, right.2⟩
  | call info name arguments ih =>
    cases typed with
    | construct known there =>
      obtain ⟨cases, shape, member⟩ := respects.constructors _ _ _ known
      rw [denote, Interp.call, known]
      exact ⟨_, cases, _, rfl, shape, member, inhabitsAll_iff.mpr
        (denoteAll_typed there (respects.fields _ _ _ known) fun _ inside _ typed =>
          ih _ inside typed (calls.element inside))⟩
    | atom other known there =>
      rw [denote, Interp.call, other, known]
      exact rfl
    | apply other other' known there =>
      rw [denote, Interp.call, other, other']
      exact calls _ _ .here _ _ known
        (denoteAll_typed there (respects.flat _ _ _ known).2 fun _ inside _ typed =>
          ih _ inside typed (calls.element inside))
  | binary info op left right leftIh rightIh =>
    cases typed with
    | equal one two flat => exact rfl
    | operator known one two => exact operate_typed known _ _
  | conditional info condition yes no conditionIh yesIh noIh =>
    cases typed with
    | conditional one two three =>
      rw [denote, choose]
      split
      · exact yesIh two (calls.element (by simp [Expr.elements]))
      · exact noIh three (calls.element (by simp [Expr.elements]))
  | hole info name => cases typed

/-- An expression depends on called names only where it calls them. -/
theorem denote_congr {second : Signature} {other : Interp} (expression : Expr)
    (calls : ∀ callee arguments, CallsIn callee expression arguments →
      interp.call sig callee (denoteAll sig interp meaning arguments) =
        other.call second callee (denoteAll sig interp meaning arguments)) :
    denote sig interp meaning expression = denote second other meaning expression := by
  have all {elements : List Expr} (same : ∀ element ∈ elements,
      denote sig interp meaning element = denote second other meaning element) :
      denoteAll sig interp meaning elements = denoteAll second other meaning elements := by
    rw [denoteAll_eq, denoteAll_eq]
    exact List.map_congr_left fun element member => congrArg _ (same element member)
  induction expression with
  | name | boolean | integer | hole => rfl
  | tuple info elements ih =>
    rw [denote, denote, all fun element member => ih element member fun callee arguments inside =>
      calls callee arguments (.inside member inside)]
  | call info name elements ih =>
    have same := all fun element member => ih element member fun callee arguments inside =>
      calls callee arguments (.inside member inside)
    rw [denote, denote, ← same]
    exact calls name elements .here
  | binary info op left right leftIh rightIh =>
    have one := leftIh fun callee arguments inside =>
      calls callee arguments (.inside (by simp [Expr.elements]) inside)
    have two := rightIh fun callee arguments inside =>
      calls callee arguments (.inside (by simp [Expr.elements]) inside)
    rw [denote, denote, one, two]
  | conditional info condition yes no conditionIh yesIh noIh =>
    have one := conditionIh fun callee arguments inside =>
      calls callee arguments (.inside (by simp [Expr.elements]) inside)
    have two := yesIh fun callee arguments inside =>
      calls callee arguments (.inside (by simp [Expr.elements]) inside)
    have three := noIh fun callee arguments inside =>
      calls callee arguments (.inside (by simp [Expr.elements]) inside)
    rw [denote, denote, one, two, three]

end Fine.Semantics
