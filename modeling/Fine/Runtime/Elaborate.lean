import Fine.Runtime.Evaluation
import Fine.Runtime.State

/-!
# Elaboration of types and expressions

Types are resolved to type objects, one for each type. The three kinds of calls differ in the
declaration they apply and in their messages, so they share one path.
-/

namespace Fine.RuntimeDetail

open Fine.Syntax Fine.Semantics

/-- The object of a tuple type. -/
def tupleType (first second : RuntimeType) (span : SourceSpan) : Run RuntimeType := do
  if first.isTable || second.isTable then
    reject span "table values cannot be tuple components in Fine v1"
  else do
    let key := "(" ++ first.display ++ ", " ++ second.display ++ ")"
    let runtime ← get
    match runtime.compoundTypes.lookup key with
    | some found => pure found
    | none => do
      let result := RuntimeType.tuple runtime.nextAddress runtime.tupleSequence first second
      set { runtime with
        nextAddress := runtime.nextAddress + 1
        tupleSequence := runtime.tupleSequence + 1
        compoundTypes := runtime.compoundTypes.emplace key result }
      pure result

def tableType (first second : RuntimeType) (span : SourceSpan) : Run RuntimeType := do
  if first.isTable || second.isTable then
    reject span "nested tables are outside Fine v1"
  else do
    let key := "Table(" ++ first.display ++ ", " ++ second.display ++ ")"
    let runtime ← get
    match runtime.compoundTypes.lookup key with
    | some found => pure found
    | none => do
      let result := RuntimeType.table runtime.nextAddress first second
      set { runtime with
        nextAddress := runtime.nextAddress + 1
        compoundTypes := runtime.compoundTypes.emplace key result }
      pure result

def namedType (span : SourceSpan) (name : Identifier) : Run RuntimeType := do
  let runtime ← get
  match runtime.types.lookup name with
  | some found => pure found
  | none => reject span ("unknown type `" ++ name.text ++ "`")

/-- The object of a type as written. -/
def resolveType : TypeSyntax → Run RuntimeType
  | .named span name => namedType span name
  | .tuple span [first, second] => do
    let first ← resolveType first
    let second ← resolveType second
    tupleType first second span
  | .tuple span _ => reject span "tuple requires exactly two type arguments"
  | .table span key value => do
    let first ← resolveType key
    let second ← resolveType value
    tableType first second span

/-- A name in scope, a case, or a constructor. -/
def elaborateName (environment : Environment) (span : SourceSpan) (name : Identifier) :
    Run TypedExpression := do
  match environment.lookup name with
  | some found => pure found
  | none => do
    let runtime ← get
    match runtime.cases.lookup name with
    | some (enumeration, index) => pure ⟨enumeration.type, enumeration.value index⟩
    | none =>
      match runtime.constructors.lookup name with
      | none => reject span ("unknown value `" ++ name.text ++ "`")
      | some (datatype, item) =>
        if item.fieldTypes.isEmpty then pure ⟨datatype.type, .app item.constructor []⟩
        else reject span ("constructor `" ++ name.text ++ "` requires arguments")

/-- What a call applies, and says of wrong arguments. -/
structure Callee where
  parameterTypes : List RuntimeType
  result : RuntimeType
  decl : FuncDecl
  /-- Message for a wrong number of arguments. -/
  arity : String
  /-- Message for an argument of another type. -/
  mismatch : Nat → RuntimeType → String

def constructorCallee (name : Identifier) (datatype : DatatypeInfo) (item : DatatypeCaseInfo) :
    Callee where
  parameterTypes := item.fieldTypes
  result := datatype.type
  decl := item.constructor
  arity := "constructor `" ++ name.text ++ "` expects " ++ toString item.fieldTypes.length ++
    " arguments"
  mismatch index type := "argument `" ++ (item.fieldNames.getD index default).text ++ "` of `" ++
    item.name.text ++ "` must have type `" ++ type.display ++ "`"

def predicateCallee (name : Identifier) (boolType : RuntimeType) (item : PredicateInfo) :
    Callee where
  parameterTypes := item.indexTypes
  result := boolType
  decl := item.relation
  arity := "predicate `" ++ name.text ++ "` expects " ++ toString item.indexTypes.length ++
    " indices"
  mismatch index type := "index " ++ toString (index + 1) ++ " of `" ++ item.name.text ++
    "` must have type `" ++ type.display ++ "`"

def functionCallee (name : Identifier) (item : FunctionInfo) : Callee where
  parameterTypes := item.parameterTypes
  result := item.resultType
  decl := item.declaration
  arity := "function `" ++ name.text ++ "` expects " ++ toString item.parameterTypes.length ++
    " arguments"
  mismatch index type := "argument " ++ toString (index + 1) ++ " of `" ++ item.name.text ++
    "` must have type `" ++ type.display ++ "`"

/-- A constructor, else a predicate, else a function. -/
def Runtime.callee? (runtime : Runtime) (name : Identifier) : Option Callee :=
  match runtime.constructors.lookup name with
  | some (datatype, item) => some (constructorCallee name datatype item)
  | none =>
    match runtime.predicates.lookup name with
    | some item => some (predicateCallee name runtime.boolType item)
    | none => (runtime.functions.lookup name).map (functionCallee name)

def elaboratePair (span : SourceSpan) (first second : TypedExpression) : Run TypedExpression := do
  let type ← tupleType first.type second.type span
  pure ⟨type, .app type.tupleConstructor [first.expression, second.expression]⟩

/-- Operands of one type and a result of another. -/
def elaborateOperator (span : SourceSpan) (operand result : RuntimeType) (decl : FuncDecl)
    (message : String) (left right : TypedExpression) : Run TypedExpression :=
  if !left.type.same operand || !right.type.same operand then reject span message
  else pure ⟨result, .app decl [left.expression, right.expression]⟩

def elaborateBinary (span : SourceSpan) (op : BinaryOp) (left right : TypedExpression) :
    Run TypedExpression := do
  let runtime ← get
  match op with
  | .equal =>
    if !left.type.same right.type || left.type.isTable then
      reject span "both sides of `==` must have the same value type"
    else pure ⟨runtime.boolType, .app .eq [left.expression, right.expression]⟩
  | .greaterEqual =>
    elaborateOperator span runtime.intType runtime.boolType .ge
      "ordered comparison requires two Int values" left right
  | .lessEqual =>
    elaborateOperator span runtime.intType runtime.boolType .le
      "ordered comparison requires two Int values" left right
  | .logicalAnd =>
    elaborateOperator span runtime.boolType runtime.boolType .and
      "Boolean connective requires two Bool values" left right
  | .logicalOr =>
    elaborateOperator span runtime.boolType runtime.boolType .or
      "Boolean connective requires two Bool values" left right
  | .add =>
    elaborateOperator span runtime.intType runtime.intType .add
      "integer arithmetic requires two Int values" left right
  | .subtract =>
    elaborateOperator span runtime.intType runtime.intType .sub
      "integer arithmetic requires two Int values" left right

def elaborateConditional (conditionSpan span : SourceSpan) (condition yes no : TypedExpression) :
    Run TypedExpression := do
  let runtime ← get
  if !condition.type.same runtime.boolType then
    reject conditionSpan "an `if` condition must have type Bool"
  else if !yes.type.same no.type then
    reject span "both `if` branches must have the same type"
  else pure ⟨yes.type, .app .ite [condition.expression, yes.expression, no.expression]⟩

mutual

/-- Elaborate an expression. -/
def elaborate (environment : Environment) : Expr → Run TypedExpression
  | .name info name => elaborateName environment info.span name
  | .boolean _ value => do pure ⟨(← get).boolType, .boolVal value⟩
  | .integer _ literal => do pure ⟨(← get).intType, .numeral literal.value⟩
  | .tuple info [first, second] => do
    let first ← elaborate environment first
    let second ← elaborate environment second
    elaboratePair info.span first second
  | .tuple info _ => reject info.span "Fine v1 tuples contain exactly two values"
  | .call info name arguments => do
    match (← get).callee? name with
    | none => reject info.span ("unknown constructor or function `" ++ name.text ++ "`")
    | some callee =>
      if arguments.length != callee.parameterTypes.length then reject info.span callee.arity
      else do
        let terms ← elaborateArguments environment callee.mismatch 0 arguments
          callee.parameterTypes
        pure ⟨callee.result, .app callee.decl terms⟩
  | .binary info op left right => do
    let left ← elaborate environment left
    let right ← elaborate environment right
    elaborateBinary info.span op left right
  | .conditional info condition yes no => do
    let condition' ← elaborate environment condition
    let yes ← elaborate environment yes
    let no ← elaborate environment no
    elaborateConditional condition.span info.span condition' yes no
  | .hole info _ => reject info.span "a hole is admitted only as an entire synthesis match arm"

/-- Elaborate arguments and check each against its type. -/
def elaborateArguments (environment : Environment) (mismatch : Nat → RuntimeType → String) :
    Nat → List Expr → List RuntimeType → Run (List Term)
  | index, argument :: arguments, type :: types => do
    let elaborated ← elaborate environment argument
    if !elaborated.type.same type then reject argument.span (mismatch index type)
    else do
      let terms ← elaborateArguments environment mismatch (index + 1) arguments types
      pure (elaborated.expression :: terms)
  | _, _, _ => pure []

end

end Fine.RuntimeDetail
