import Fine.Runtime.Predicates
import Fine.Syntax.Reading

/-!
# Elaboration up to places

Places and node numbers show only in refusals.
-/

namespace Fine.RuntimeDetail

open Fine.Syntax Fine.Fallible

theorem agrees_of_fails {α : Type} {first second : Run α} (left : Fails first)
    (right : Fails second) : Agrees first second := by
  intro state result
  obtain ⟨failure, failed⟩ := left state
  obtain ⟨failure', failed'⟩ := right state
  rw [failed, failed']
  exact ⟨nofun, nofun⟩

theorem agrees_reject {α : Type} (span other : SourceSpan) (message said : String) :
    Agrees (reject span message : Run α) (reject other said) :=
  agrees_of_fails (fails_reject _ _) (fails_reject _ _)

variable {environment : Environment}

theorem elaborateName_agrees (span other : SourceSpan) (name : Identifier) :
    Agrees (elaborateName environment span name) (elaborateName environment other name) := by
  unfold elaborateName
  split
  · exact .refl _
  refine (Agrees.refl get).bind fun runtime => ?_
  split
  · exact .refl _
  split
  · exact agrees_reject _ _ _ _
  split
  · exact .refl _
  · exact agrees_reject _ _ _ _

theorem elaboratePair_agrees (span other : SourceSpan) (first second : TypedExpression) :
    Agrees (elaboratePair span first second) (elaboratePair other first second) := by
  refine Agrees.bind ?_ fun type => .refl _
  unfold tupleType
  split
  · exact agrees_reject _ _ _ _
  · exact .refl _

theorem elaborateBinary_agrees (span other : SourceSpan) (op : BinaryOp)
    (left right : TypedExpression) :
    Agrees (elaborateBinary span op left right) (elaborateBinary other op left right) := by
  have operator : ∀ operand result decl message,
      Agrees (elaborateOperator span operand result decl message left right)
        (elaborateOperator other operand result decl message left right) := by
    intro operand result decl message
    unfold elaborateOperator
    split
    · exact agrees_reject _ _ _ _
    · exact .refl _
  refine (Agrees.refl get).bind fun runtime => ?_
  cases op with
  | equal =>
    dsimp only
    split
    · exact agrees_reject _ _ _ _
    · exact .refl _
  | greaterEqual | lessEqual | logicalAnd | logicalOr | add | subtract => exact operator _ _ _ _

theorem elaborateConditional_agrees (first second span other : SourceSpan)
    (condition yes no : TypedExpression) :
    Agrees (elaborateConditional first span condition yes no)
      (elaborateConditional second other condition yes no) := by
  refine (Agrees.refl get).bind fun runtime => ?_
  split
  · exact agrees_reject _ _ _ _
  split
  · exact agrees_reject _ _ _ _
  · exact .refl _

theorem elaborateArguments_strip {mismatch : Nat → RuntimeType → String} {arguments : List Expr}
    (each : ∀ argument ∈ arguments,
      Agrees (elaborate environment argument.strip) (elaborate environment argument))
    (index : Nat) (types : List RuntimeType) :
    Agrees (elaborateArguments environment mismatch index (arguments.map Expr.strip) types)
      (elaborateArguments environment mismatch index arguments types) := by
  induction arguments generalizing index types with
  | nil => exact .refl _
  | cons argument arguments ih =>
    cases types with
    | nil => exact .refl _
    | cons type types =>
      rw [List.map_cons, elaborateArguments, elaborateArguments]
      refine (each argument (by simp)).bind fun elaborated => ?_
      split
      · exact agrees_reject _ _ _ _
      · exact (ih (fun other member => each other (by simp [member])) _ _).bind fun _ => .refl _

/-- Places and numbers of nodes do not matter. -/
theorem elaborate_strip (expression : Expr) :
    Agrees (elaborate environment expression.strip) (elaborate environment expression) := by
  induction expression with
  | name info name =>
    rw [Expr.strip, elaborate, elaborate]
    exact elaborateName_agrees _ _ _
  | boolean | integer =>
    rw [Expr.strip, elaborate, elaborate]
    exact .refl _
  | tuple info elements ih =>
    rw [Expr.strip, Expr.stripAll_eq_map]
    rcases elements with _ | ⟨first, _ | ⟨second, _ | _⟩⟩
    case cons.cons.nil =>
      rw [List.map_cons, List.map_cons, List.map_nil, elaborate, elaborate]
      exact (ih first (by simp)).bind fun _ => (ih second (by simp)).bind fun _ =>
        elaboratePair_agrees _ _ _ _
    all_goals exact agrees_reject _ _ _ _
  | call info name arguments ih =>
    rw [Expr.strip, Expr.stripAll_eq_map, elaborate, elaborate]
    refine (Agrees.refl get).bind fun runtime => ?_
    split
    · exact agrees_reject _ _ _ _
    rw [List.length_map]
    split
    · exact agrees_reject _ _ _ _
    · exact (elaborateArguments_strip ih _ _).bind fun _ => .refl _
  | binary info op left right leftIh rightIh =>
    rw [Expr.strip, elaborate, elaborate]
    exact leftIh.bind fun _ => rightIh.bind fun _ => elaborateBinary_agrees _ _ _ _ _
  | conditional info condition yes no conditionIh yesIh noIh =>
    rw [Expr.strip, elaborate, elaborate]
    exact conditionIh.bind fun _ => yesIh.bind fun _ => noIh.bind fun _ =>
      elaborateConditional_agrees _ _ _ _ _ _ _
  | hole info name => exact agrees_reject _ _ _ _

theorem elaborate_agrees {expression other : Expr} (same : expression.strip = other.strip) :
    Agrees (elaborate environment expression) (elaborate environment other) := by
  have first : Agrees (elaborate environment expression.strip) (elaborate environment expression) :=
    elaborate_strip expression
  rw [same] at first
  exact first.symm.trans (elaborate_strip other)

end Fine.RuntimeDetail
