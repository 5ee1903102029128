import Fine.Semantics.Values

/-!
# Typing rules

A name in scope hides a declared one; a called name is a constructor, else a predicate, else a
function. Holes have no type.
-/

namespace Fine.Semantics

open Fine.Syntax

/-- What is declared of the names. -/
structure Signature where
  /-- Enumeration of a case without fields. -/
  cases : Identifier → Option Identifier
  /-- Datatype and field types of a constructor. -/
  constructors : Identifier → Option (Identifier × List FineType)
  /-- Parameter and result types of a function. -/
  functions : Identifier → Option (List FineType × FineType)
  predicates : Identifier → Option (List FineType)

/-- Types of the names in scope. -/
abbrev Scope := Identifier → Option FineType

/-- Operand and result types, equality apart. -/
def operatorTypes : BinaryOp → Option (FineType × FineType)
  | .equal => none
  | .greaterEqual | .lessEqual => some (.int, .bool)
  | .logicalAnd | .logicalOr => some (.bool, .bool)
  | .add | .subtract => some (.int, .int)

mutual

/-- The expression has the type. -/
inductive HasType (sig : Signature) (scope : Scope) : Expr → FineType → Prop where
  | inScope {info name type} : scope name = some type → HasType sig scope (.name info name) type
  | enumCase {info name enumeration} : scope name = none → sig.cases name = some enumeration →
      HasType sig scope (.name info name) (.named enumeration)
  | constant {info name datatype} : scope name = none → sig.cases name = none →
      sig.constructors name = some (datatype, []) →
      HasType sig scope (.name info name) (.named datatype)
  | boolean {info value} : HasType sig scope (.boolean info value) .bool
  | integer {info literal} : HasType sig scope (.integer info literal) .int
  | pair {info first second left right} : HasType sig scope first left →
      HasType sig scope second right → left.isTable = false → right.isTable = false →
      HasType sig scope (.tuple info [first, second]) (.tuple left right)
  | construct {info name arguments datatype fields} :
      sig.constructors name = some (datatype, fields) → HaveTypes sig scope arguments fields →
      HasType sig scope (.call info name arguments) (.named datatype)
  | atom {info name arguments indices} : sig.constructors name = none →
      sig.predicates name = some indices → HaveTypes sig scope arguments indices →
      HasType sig scope (.call info name arguments) .bool
  | apply {info name arguments parameters result} : sig.constructors name = none →
      sig.predicates name = none → sig.functions name = some (parameters, result) →
      HaveTypes sig scope arguments parameters →
      HasType sig scope (.call info name arguments) result
  | equal {info left right type} : HasType sig scope left type → HasType sig scope right type →
      type.isTable = false → HasType sig scope (.binary info .equal left right) .bool
  | operator {info op left right operand result} : operatorTypes op = some (operand, result) →
      HasType sig scope left operand → HasType sig scope right operand →
      HasType sig scope (.binary info op left right) result
  | conditional {info condition yes no type} : HasType sig scope condition .bool →
      HasType sig scope yes type → HasType sig scope no type →
      HasType sig scope (.conditional info condition yes no) type

/-- The expressions have the types, one by one. -/
inductive HaveTypes (sig : Signature) (scope : Scope) : List Expr → List FineType → Prop where
  | nil : HaveTypes sig scope [] []
  | cons {expression expressions type types} : HasType sig scope expression type →
      HaveTypes sig scope expressions types →
      HaveTypes sig scope (expression :: expressions) (type :: types)

end

variable {sig : Signature} {scope : Scope}

theorem HaveTypes.length_eq {expressions : List Expr} {types : List FineType}
    (typed : HaveTypes sig scope expressions types) : expressions.length = types.length := by
  induction expressions generalizing types with
  | nil => cases typed; rfl
  | cons expression expressions ih =>
    cases typed with
    | cons here there => rw [List.length_cons, List.length_cons, ih there]

/-- An expression has at most one type. -/
theorem HasType.unique (expression : Expr) {left right : FineType}
    (first : HasType sig scope expression left) (second : HasType sig scope expression right) :
    left = right := by
  induction expression generalizing left right with
  | name info name =>
    cases first <;> cases second <;> simp_all
  | boolean info value | integer info literal => cases first; cases second; rfl
  | tuple info elements ih =>
    cases first with
    | pair one two _ _ =>
      cases second with
      | pair one' two' _ _ =>
        rw [ih _ (by simp) one one', ih _ (by simp) two two']
  | call info name arguments ih => cases first <;> cases second <;> simp_all
  | binary info op left right leftIh rightIh =>
    cases first with
    | equal one two flat =>
      cases second with
      | equal => rfl
      | operator known => cases known
    | operator known one two =>
      cases second with
      | equal => cases known
      | operator known' => rw [known] at known'; cases known'; rfl
  | conditional info condition yes no conditionIh yesIh noIh =>
    cases first with
    | conditional _ one _ =>
      cases second with
      | conditional _ one' _ => exact yesIh one one'
  | hole info name => cases first

end Fine.Semantics
