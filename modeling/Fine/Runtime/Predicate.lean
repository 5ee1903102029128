import Fine.Runtime.Declare

/-!
# Declarations of views and predicates

A view is kept as written. A predicate keeps the terms that induction branches are built from;
without arbitrary fields, each constructor is also a rule of the fixedpoint engine.
-/

namespace Fine.RuntimeDetail

open Fine.Syntax Fine.Semantics

/-- Elaborate an expression that must have a type. -/
def elaborateAs (environment : Environment) (expected : RuntimeType)
    (otherwise : Expr → Run Term) (expression : Expr) : Run Term := do
  let elaborated ← elaborate environment expression
  if !elaborated.type.same expected then otherwise expression else pure elaborated.expression

/-- Elaborate conditions, which must be Boolean. -/
def elaborateConditions (environment : Environment) (otherwise : Expr → Run Term) :
    List Expr → Run (List Term)
  | [] => pure []
  | condition :: conditions => do
    let runtime ← get
    let term ← elaborateAs environment runtime.boolType otherwise condition
    let terms ← elaborateConditions environment otherwise conditions
    pure (term :: terms)

/-- The terms of expressions, whatever their types. -/
def elaborateIndices (environment : Environment) : List Expr → Run (List Term)
  | [] => pure []
  | index :: indices => do
    let elaborated ← elaborate environment index
    let terms ← elaborateIndices environment indices
    pure (elaborated.expression :: terms)

/-- Conditions joined after `true`. -/
def Term.conditions (terms : List Term) : Term := Term.conjunction (.boolVal true) terms

def valueName : Identifier := ⟨"value", by decide⟩

def viewRules (name : Identifier) : ParameterRules where
  reserved := some (valueName, "`value` is reserved for the constrained-view carrier")
  early := true
  duplicate parameter := "duplicate view parameter `" ++ parameter.text ++ "`"
  admits type := !type.isTable
  refusal := "view parameters must be native Fine values"
  internal index := "Fine.view." ++ name.text ++ ".arg" ++ toString index

/-- Elaborate a witness, which must be of the carrier. -/
def viewWitness (environment : Environment) (carrier : RuntimeType)
    (otherwise : Expr → Run Term) : Option Expr → Run (Option Term)
  | none => pure none
  | some witness => do
    let term ← elaborateAs environment carrier otherwise witness
    pure (some term)

/-- Check a view whose carrier is resolved, and keep it. -/
def checkView (declaration : ViewDecl) (carrier : RuntimeType) : Run Unit := do
  let formals ← declareParameters (viewRules declaration.name) 0 [] declaration.parameters
  let environment := environmentOf formals
  let carried : Const := ⟨"Fine.view." ++ declaration.name.text ++ ".value", carrier.sort⟩
  let _ ← elaborateConditions (environment.emplace valueName ⟨carrier, .constant carried⟩)
    (fun requirement =>
      reject requirement.span "a constrained-view requirement must have type Bool")
    declaration.requirements
  let _ ← viewWitness environment carrier
    (fun witness => reject witness.span ("a constrained-view witness must have carrier type `" ++
      carrier.display ++ "`"))
    declaration.witness
  modify fun runtime => { runtime with
    views := runtime.views.emplace declaration.name ⟨declaration.name,
      formals.map Formal.name, formals.map Formal.type, carrier, declaration.requirements,
      declaration.witness⟩ }

/-- Declare a view. -/
def declareView (declaration : ViewDecl) : Run Unit := do
  let runtime ← get
  let name := declaration.name
  if runtime.views.contains name || runtime.types.contains name ||
      runtime.functions.contains name || runtime.predicates.contains name then
    reject declaration.info.span ("duplicate type-level name `" ++ name.text ++ "`")
  else do
    let carrier ← resolveType declaration.carrier
    if carrier.isTable then
      reject declaration.carrier.span
        "a constrained view must keep one existing native Fine carrier"
    else checkView declaration carrier

/-- What is said of an expression that is no atom. -/
structure AtomMessages where
  direct : String
  proposition : String

def atomMessages (role : String) : AtomMessages where
  direct := role ++ " must be a direct call to a declared predicate"
  proposition := role ++ " must be an indexed proposition"

/-- Messages for a premise under an arbitrary field. -/
def scopedMessages : AtomMessages where
  direct := "an arbitrary-fresh premise must call a declared predicate"
  proposition := "an arbitrary-fresh premise must be an indexed proposition"

/-- A direct call of a declared predicate, elaborated. -/
def atom (environment : Environment) (messages : AtomMessages) (expression : Expr) :
    Run Term := do
  let runtime ← get
  match expression with
  | .call _ name _ =>
    if runtime.predicates.contains name then
      elaborateAs environment runtime.boolType
        (fun expression => reject expression.span messages.proposition) expression
    else reject expression.span messages.direct
  | _ => reject expression.span messages.direct

mutual

/-- Names in an expression other than as called. -/
def collectNames : Expr → List Identifier
  | .name _ name => [name]
  | .boolean _ _ => []
  | .integer _ _ => []
  | .tuple _ elements => collectNamesAll elements
  | .call _ _ elements => collectNamesAll elements
  | .binary _ _ left right => collectNames left ++ collectNames right
  | .conditional _ condition yes no => collectNames condition ++ collectNames yes ++ collectNames no
  | .hole _ _ => []

/-- Names that occur in expressions other than as called. -/
def collectNamesAll : List Expr → List Identifier
  | [] => []
  | expression :: expressions => collectNames expression ++ collectNamesAll expressions

end

def occurring (result : Expr) : List Parameter → Run Unit
  | [] => pure ()
  | parameter :: parameters =>
    if parameter.name ∈ collectNames result then occurring result parameters
    else reject parameter.span ("parameter `" ++ parameter.name.text ++
      "` does not occur in the constructor result; a premise-only parameter would be " ++
      "one-witness search, not a universal constructor field")

/-- A premise, with indices if it is of this predicate. -/
def predicatePremise (declared : Identifier) (environment : Environment) (premise : Expr) :
    Run (Term × List (List Term)) := do
  let term ← atom environment (atomMessages "predicate-constructor premise") premise
  match premise with
  | .call _ name elements =>
    if name = declared then do
      let indices ← elaborateIndices environment elements
      pure (term, [indices])
    else pure (term, [])
  | _ => pure (term, [])

def predicatePremises (declared : Identifier) (environment : Environment) :
    List Expr → Run (List (Term × List (List Term)))
  | [] => pure []
  | premise :: premises => do
    let first ← predicatePremise declared environment premise
    let later ← predicatePremises declared environment premises
    pure (first :: later)

/-- A premise under a field, which must be of this predicate. -/
def scopedPremise (declared : Identifier) (environment : Environment) (premise : Expr) :
    Run Term := do
  let term ← atom environment scopedMessages premise
  match premise with
  | .call info name _ =>
    if name = declared then pure term
    else reject info.span ("the first arbitrary-fresh slice requires a recursive premise on `" ++
      declared.text ++ "`")
  | _ => pure term

def scopedPremises (declared : Identifier) (environment : Environment) :
    List Expr → Run (List Term)
  | [] => pure []
  | premise :: premises => do
    let first ← scopedPremise declared environment premise
    let later ← scopedPremises declared environment premises
    pure (first :: later)

def Term.arguments : Term → List Term
  | .app _ arguments => arguments
  | _ => []

/-- The environment of a view where it is used. -/
def viewEnvironment (view : ViewInfo) (arguments : List Term) : Environment :=
  List.zip view.parameterNames
    (List.zipWith TypedExpression.mk view.parameterTypes arguments)

def retainField (declaration : PredicateDecl) (constructor : PredicateConstructor)
    (environment : Environment) (field : ArbitraryPremise) (view : ViewInfo) :
    Run ArbitraryField := do
  let arguments ← elaborateArguments environment
    (fun index type => "constrained-view argument " ++ toString (index + 1) ++
      " must have type `" ++ type.display ++ "`")
    0 field.viewArguments view.parameterTypes
  let binderTerm : Const := ⟨"Fine.predicate." ++ declaration.name.text ++ "." ++
    constructor.name.text ++ ".arbitrary0", view.carrier.sort⟩
  let carried : TypedExpression := ⟨view.carrier, .constant binderTerm⟩
  let witnessEnvironment := viewEnvironment view arguments
  let requirements ← elaborateConditions (witnessEnvironment.emplace valueName carried)
    (fun _ => internal "validated view requirement changed type") view.requirements
  let witness ← viewWitness witnessEnvironment view.carrier
    (fun _ => internal "validated view witness changed type") view.witness
  let premises ← scopedPremises declaration.name (environment.emplace field.binder carried)
    field.premises
  pure {
    binder := field.binder
    viewName := field.viewName
    binderTerm
    requirement := .conditions requirements
    premiseTerms := premises
    recursivePremiseIndices := premises.map Term.arguments
    availabilityWitness := witness }

/-- The arbitrary field of a constructor, one at most. -/
def arbitraryField (declaration : PredicateDecl) (constructor : PredicateConstructor)
    (environment : Environment) (field : ArbitraryPremise) : Run ArbitraryField := do
  let runtime ← get
  let span := field.info.span
  if constructor.arbitraryPremises.length != 1 then
    reject span "the first arbitrary-fresh slice admits exactly one such field per constructor"
  else if field.binder ∈ constructor.parameters.map Parameter.name then
    reject span ("arbitrary-fresh name `" ++ field.binder.text ++
      "` shadows a constructor parameter")
  else
    match runtime.views.lookup field.viewName with
    | none => reject span ("unknown constrained view `" ++ field.viewName.text ++ "`")
    | some view =>
      if field.viewArguments.length != view.parameterTypes.length then
        reject span ("constrained view `" ++ field.viewName.text ++ "` expects " ++
          toString view.parameterTypes.length ++ " arguments")
      else retainField declaration constructor environment field view

def arbitraryFields (declaration : PredicateDecl) (constructor : PredicateConstructor)
    (environment : Environment) : List ArbitraryPremise → Run (List ArbitraryField)
  | [] => pure []
  | field :: fields => do
    let first ← arbitraryField declaration constructor environment field
    let later ← arbitraryFields declaration constructor environment fields
    pure (first :: later)

/-- How indices are read. They get no constants. -/
def indexRules : ParameterRules where
  early := true
  duplicate index := "duplicate predicate index `" ++ index.text ++ "`"
  admits type := !type.isTable
  refusal := "predicate indices must be native Fine values, not Table"
  internal _ := ""

/-- How the parameters of a constructor are read. -/
def constructorRules (predicate constructor : Identifier) : ParameterRules where
  early := true
  duplicate parameter := "duplicate predicate-constructor parameter `" ++ parameter.text ++ "`"
  admits type := !type.isTable
  refusal := "predicate-constructor parameters must be native Fine values, not Table"
  internal index := "Fine.predicate." ++ predicate.text ++ "." ++ constructor.text ++ ".arg" ++
    toString index

/-- The result of a constructor: its atom and its indices. -/
def constructorResult (declared : Identifier) (constructor : PredicateConstructor)
    (environment : Environment) : Run (Term × List Term) := do
  let conclusion ← atom environment (atomMessages "predicate-constructor result")
    constructor.result
  match constructor.result with
  | .call info name elements =>
    if name != declared then
      reject info.span ("constructor `" ++ constructor.name.text ++ "` must produce `" ++
        declared.text ++ "(...)`")
    else do
      let indices ← elaborateIndices environment elements
      pure (conclusion, indices)
  | _ => pure (conclusion, [])

/-- The rule of a constructor without arbitrary fields. -/
def hornRule (parameters : List Const) (premises : List Term) (conclusion : Term) : Term :=
  let rule := if premises.isEmpty then conclusion else (Term.conditions premises).imp conclusion
  if parameters.isEmpty then rule else .quantified true parameters rule

def addRule (name : String) (rule : Term) : Run Unit :=
  modify fun runtime => { runtime with
    fixedpoint := { runtime.fixedpoint with rules := runtime.fixedpoint.rules ++ [(name, rule)] } }

/-- Give a constructor's rule to the fixedpoint engine, if it is registered. -/
def addConstructorRule (declared : Identifier) (hornComplete : Bool)
    (info : PredicateConstructorInfo) (conclusion : Term) : Run Unit :=
  if hornComplete then
    addRule (declared.text ++ "." ++ info.name.text)
      (hornRule info.parameters info.premiseTerms conclusion)
  else pure ()

/-- Declare a constructor. -/
def declareConstructor (declaration : PredicateDecl) (hornComplete : Bool)
    (constructor : PredicateConstructor) : Run PredicateConstructorInfo := do
  let formals ← declareParameters (constructorRules declaration.name constructor.name) 0 []
    constructor.parameters
  let environment := environmentOf formals
  let (conclusion, resultIndices) ← constructorResult declaration.name constructor environment
  occurring constructor.result constructor.parameters
  let premises ← predicatePremises declaration.name environment constructor.premises
  let fields ← arbitraryFields declaration constructor environment constructor.arbitraryPremises
  let info : PredicateConstructorInfo := {
    name := constructor.name
    parameters := formals.map Formal.term
    resultIndices
    premiseTerms := premises.map Prod.fst
    recursivePremiseIndices := premises.flatMap Prod.snd
    arbitraryFields := fields
    premiseCount := constructor.premises.length }
  addConstructorRule declaration.name hornComplete info conclusion
  pure info

/-- Declare the constructors, which have different names. -/
def declareConstructors (declaration : PredicateDecl) (hornComplete : Bool) :
    List Identifier → List PredicateConstructor → Run (List PredicateConstructorInfo)
  | _, [] => pure []
  | seen, constructor :: constructors =>
    if constructor.name ∈ seen then
      reject constructor.span ("duplicate predicate constructor `" ++ constructor.name.text ++ "`")
    else do
      let first ← declareConstructor declaration hornComplete constructor
      let later ← declareConstructors declaration hornComplete (constructor.name :: seen)
        constructors
      pure (first :: later)

/-- Enter a predicate, and register its relation if all its rules are Horn clauses. -/
def Runtime.addPredicate (runtime : Runtime) (info : PredicateInfo) : Runtime :=
  { runtime with
    fixedpoint := { runtime.fixedpoint with
      relations := if info.hornComplete then info.relation :: runtime.fixedpoint.relations
        else runtime.fixedpoint.relations }
    predicates := runtime.predicates.emplace info.name info }

def Runtime.setConstructors (runtime : Runtime) (name : Identifier)
    (constructors : List PredicateConstructorInfo) : Runtime :=
  { runtime with
    predicates := runtime.predicates.map fun entry =>
      if entry.1 = name then (entry.1, { entry.2 with constructors }) else entry }

/-- Declare a predicate. -/
def declarePredicate (declaration : PredicateDecl) : Run Unit := do
  reserveValueName declaration.name declaration.info.span
  let indices ← declareParameters indexRules 0 [] declaration.indices
  let hornComplete := declaration.constructors.all fun constructor =>
    constructor.arbitraryPremises.isEmpty
  modify fun runtime => runtime.addPredicate
    ⟨declaration.name, indices.map Formal.type, [], hornComplete⟩
  let constructors ← declareConstructors declaration hornComplete [] declaration.constructors
  modify fun runtime => runtime.setConstructors declaration.name constructors

end Fine.RuntimeDetail
