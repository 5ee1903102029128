import Fine.Runtime.Predicate
import Fine.Library.Fallible

/-!
# How elaboration fails

All but the views of predicates fails in one way only: the document is rejected at a place.
-/

namespace Fine.RuntimeDetail

open Fine.Syntax Fine.Semantics Fine.Fallible

variable {α β : Type}

def Rejected (failure : Failure) : Prop := ∃ span message, failure = .semantic span message

/-- The computation fails only by rejecting the document. -/
def Rejects (action : Run α) : Prop := ∀ runtime, Ends Rejected action runtime fun _ _ => True

namespace Rejects

theorem pure (value : α) : Rejects (Pure.pure value : Run α) := fun _ => trivial

theorem reject (span : SourceSpan) (message : String) :
    Rejects (RuntimeDetail.reject span message : Run α) := fun _ => ⟨span, message, rfl⟩

theorem bind {first : Run α} {next : α → Run β} (head : Rejects first)
    (tail : ∀ value, Rejects (next value)) : Rejects (first >>= next) :=
  fun runtime => (head runtime).bind fun value later _ => tail value later

theorem get_bind {next : Runtime → Run α} (tail : ∀ runtime, Rejects (next runtime)) :
    Rejects (get >>= next) := fun runtime => tail runtime runtime

variable {runtime : Runtime}

theorem set_bind {next : PUnit → Run α} (tail : Rejects (next ⟨⟩)) :
    Rejects (set runtime >>= next) := fun _ => tail runtime

theorem ite {condition : Prop} [Decidable condition] {yes no : Run α} (left : Rejects yes)
    (right : Rejects no) : Rejects (if condition then yes else no) := by
  split
  · exact left
  · exact right

theorem ends {action : Run α} (rejects : Rejects action) {post : α → Runtime → Prop}
    (each : ∀ value later, action.run runtime = .ok (value, later) → post value later) :
    Ends Rejected action runtime post := (rejects runtime).of_ok each

end Rejects

/-! ## Types and parameters -/

theorem tupleType_rejects (first second : RuntimeType) (span : SourceSpan) :
    Rejects (tupleType first second span) := by
  unfold tupleType
  refine .ite (.reject _ _) (.get_bind fun runtime => ?_)
  split
  · exact .pure _
  · exact .set_bind (.pure _)

theorem tableType_rejects (first second : RuntimeType) (span : SourceSpan) :
    Rejects (tableType first second span) := by
  unfold tableType
  refine .ite (.reject _ _) (.get_bind fun runtime => ?_)
  split
  · exact .pure _
  · exact .set_bind (.pure _)

theorem resolveType_rejects (written : TypeSyntax) : Rejects (resolveType written) := by
  induction written using resolveType.induct with
  | case1 span name =>
    rw [resolveType, namedType]
    refine .get_bind fun runtime => ?_
    split
    · exact .pure _
    · exact .reject _ _
  | case2 span first second firstIh secondIh =>
    rw [resolveType]
    exact firstIh.bind fun _ => secondIh.bind fun _ => tupleType_rejects _ _ _
  | case3 span elements other =>
    rw [resolveType.eq_3 _ _ other]
    exact .reject _ _
  | case4 span key value keyIh valueIh =>
    rw [resolveType]
    exact keyIh.bind fun _ => valueIh.bind fun _ => tableType_rejects _ _ _

theorem declareParameters_rejects (rules : ParameterRules) (index : Nat) (seen : List Identifier)
    (parameters : List Parameter) : Rejects (declareParameters rules index seen parameters) := by
  have distinct : ∀ early seen parameter, Rejects (rules.distinct early seen parameter) :=
    fun _ _ _ => .ite (.reject _ _) (.pure _)
  have allowed : ∀ parameter, Rejects (rules.notReserved parameter) := by
    intro parameter
    unfold ParameterRules.notReserved
    split
    · exact .ite (.reject _ _) (.pure _)
    · exact .pure _
  induction parameters generalizing index seen with
  | nil => exact .pure _
  | cons parameter parameters ih =>
    rw [declareParameters]
    refine (allowed _).bind fun _ => (distinct _ _ _).bind fun _ =>
      (resolveType_rejects _).bind fun type => .ite (.reject _ _) ?_
    exact (distinct _ _ _).bind fun _ => (ih _ _).bind fun _ => .pure _

theorem reserveValueName_rejects (name : Identifier) (span : SourceSpan) :
    Rejects (reserveValueName name span) := by
  unfold reserveValueName
  exact .get_bind fun runtime => .ite (.reject _ _) fun _ => trivial

/-! ## Expressions -/

theorem elaborateOperator_rejects (span : SourceSpan) (operand result : RuntimeType)
    (decl : FuncDecl) (message : String) (left right : TypedExpression) :
    Rejects (elaborateOperator span operand result decl message left right) :=
  .ite (.reject _ _) (.pure _)

theorem elaborateBinary_rejects (span : SourceSpan) (op : BinaryOp)
    (left right : TypedExpression) : Rejects (elaborateBinary span op left right) := by
  unfold elaborateBinary
  refine .get_bind fun runtime => ?_
  cases op with
  | equal => exact .ite (.reject _ _) (.pure _)
  | greaterEqual | lessEqual | logicalAnd | logicalOr | add | subtract =>
    exact elaborateOperator_rejects _ _ _ _ _ _ _

theorem elaborateArguments_rejects_of {environment : Environment} {arguments : List Expr}
    (each : ∀ argument ∈ arguments, Rejects (elaborate environment argument))
    (mismatch : Nat → RuntimeType → String) (index : Nat) (types : List RuntimeType) :
    Rejects (elaborateArguments environment mismatch index arguments types) := by
  induction arguments generalizing index types with
  | nil => exact .pure _
  | cons argument arguments ih =>
    cases types with
    | nil => exact .pure _
    | cons type types =>
      rw [elaborateArguments]
      refine (each argument (by simp)).bind fun elaborated => .ite (.reject _ _) ?_
      exact (ih (fun other member => each other (by simp [member])) _ _).bind fun _ => .pure _

/-- An expression is rejected if at all. -/
theorem elaborate_rejects (environment : Environment) (expression : Expr) :
    Rejects (elaborate environment expression) := by
  induction expression with
  | name info name =>
    rw [elaborate, elaborateName]
    split
    · exact .pure _
    refine .get_bind fun runtime => ?_
    split
    · exact .pure _
    split
    · exact .reject _ _
    · exact .ite (.pure _) (.reject _ _)
  | boolean info value | integer info literal => rw [elaborate]; exact .get_bind fun _ => .pure _
  | tuple info elements ih =>
    rcases elements with _ | ⟨first, _ | ⟨second, _ | ⟨third, more⟩⟩⟩
    · exact .reject _ _
    · exact .reject _ _
    · rw [elaborate]
      exact (ih first (by simp)).bind fun _ => (ih second (by simp)).bind fun _ =>
        (tupleType_rejects _ _ _).bind fun _ => .pure _
    · exact .reject _ _
  | call info name arguments ih =>
    rw [elaborate]
    refine .get_bind fun runtime => ?_
    split
    · exact .reject _ _
    · exact .ite (.reject _ _) ((elaborateArguments_rejects_of ih _ _ _).bind fun _ => .pure _)
  | binary info op left right leftIh rightIh =>
    rw [elaborate]
    exact leftIh.bind fun _ => rightIh.bind fun _ => elaborateBinary_rejects _ _ _ _
  | conditional info condition yes no conditionIh yesIh noIh =>
    rw [elaborate]
    exact conditionIh.bind fun _ => yesIh.bind fun _ => noIh.bind fun _ =>
      .get_bind fun runtime => .ite (.reject _ _) (.ite (.reject _ _) (.pure _))
  | hole info name => exact .reject _ _

theorem elaborateArguments_rejects (environment : Environment)
    (mismatch : Nat → RuntimeType → String) (index : Nat) (arguments : List Expr)
    (types : List RuntimeType) :
    Rejects (elaborateArguments environment mismatch index arguments types) :=
  elaborateArguments_rejects_of (fun argument _ => elaborate_rejects environment argument) _ _ _

theorem elaborateIndices_rejects (environment : Environment) (indices : List Expr) :
    Rejects (elaborateIndices environment indices) := by
  induction indices with
  | nil => exact .pure _
  | cons index indices ih =>
    rw [elaborateIndices]
    exact (elaborate_rejects _ _).bind fun _ => ih.bind fun _ => .pure _

/-! ## Atoms -/

theorem atom_rejects (environment : Environment) (messages : AtomMessages) (expression : Expr) :
    Rejects (atom environment messages expression) := by
  unfold atom
  refine .get_bind fun runtime => ?_
  split
  · refine .ite ?_ (.reject _ _)
    exact (elaborate_rejects _ _).bind fun _ => .ite (.reject _ _) (.pure _)
  · exact .reject _ _

theorem constructorResult_rejects (declared : Identifier) (constructor : PredicateConstructor)
    (environment : Environment) : Rejects (constructorResult declared constructor environment) := by
  refine (atom_rejects _ _ _).bind fun _ => ?_
  split
  · exact .ite (.reject _ _) ((elaborateIndices_rejects _ _).bind fun _ => .pure _)
  · exact .pure _

theorem occurring_rejects (result : Expr) (parameters : List Parameter) :
    Rejects (occurring result parameters) := by
  induction parameters with
  | nil => exact .pure _
  | cons parameter parameters ih => exact .ite ih (.reject _ _)

theorem predicatePremises_rejects (declared : Identifier) (environment : Environment)
    (premises : List Expr) : Rejects (predicatePremises declared environment premises) := by
  induction premises with
  | nil => exact .pure _
  | cons premise premises ih =>
    rw [predicatePremises]
    refine Rejects.bind ?_ fun _ => ih.bind fun _ => .pure _
    refine (atom_rejects _ _ _).bind fun _ => ?_
    split
    · exact .ite ((elaborateIndices_rejects _ _).bind fun _ => .pure _) (.pure _)
    · exact .pure _

theorem scopedPremises_rejects (declared : Identifier) (environment : Environment)
    (premises : List Expr) : Rejects (scopedPremises declared environment premises) := by
  induction premises with
  | nil => exact .pure _
  | cons premise premises ih =>
    rw [scopedPremises]
    refine Rejects.bind ?_ fun _ => ih.bind fun _ => .pure _
    refine (atom_rejects _ _ _).bind fun _ => ?_
    split
    · exact .ite (.pure _) (.reject _ _)
    · exact .pure _

end Fine.RuntimeDetail
