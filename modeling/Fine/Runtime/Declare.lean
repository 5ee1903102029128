import Fine.Runtime.Elaborate

/-!
# Declarations of types, functions and tables

Each declaration reserves its names, resolves its types and fills the tables. Loops over parameters
share one definition.
-/

namespace Fine.RuntimeDetail

open Fine.Syntax Fine.Semantics

/-- A type may have only a new name. -/
def reserveTypeName (name : Identifier) (span : SourceSpan) : Run Unit := do
  let runtime ← get
  if runtime.types.contains name then
    reject span ("type `" ++ name.text ++ "` is already declared")
  else pure ()

/-- A value may have only a new name. -/
def reserveValueName (name : Identifier) (span : SourceSpan) : Run Unit := do
  let runtime ← get
  if name ∈ runtime.valueNames then
    reject span ("value `" ++ name.text ++ "` is already declared")
  else set { runtime with valueNames := name :: runtime.valueNames }

/-- The fields of a constructor have different names. -/
def distinctFields (constructor : Identifier) : List Identifier → List EnumField → Run Unit
  | _, [] => pure ()
  | seen, field :: fields =>
    if field.name ∈ seen then
      reject field.span ("duplicate field `" ++ field.name.text ++ "` in constructor `" ++
        constructor.text ++ "`")
    else distinctFields constructor (field.name :: seen) fields

def reserveCases : List Identifier → List EnumCase → Run Unit
  | _, [] => pure ()
  | seen, item :: items =>
    if item.name ∈ seen then
      reject item.span ("duplicate enum case `" ++ item.name.text ++ "`")
    else do
      reserveValueName item.name item.span
      distinctFields item.name [] item.fields
      reserveCases (item.name :: seen) items

/-- The field has the type that is being declared. -/
def EnumField.isSelf (field : EnumField) (declared : Identifier) : Bool :=
  match field.type with
  | .named _ name => name == declared
  | _ => false

/-- Types of fields; the type being declared has no object yet. -/
def resolveFields (declared : Identifier) : List EnumField → Run (List (Option RuntimeType))
  | [] => pure []
  | field :: fields =>
    if EnumField.isSelf field declared then do
      let later ← resolveFields declared fields
      pure (none :: later)
    else do
      let type ← resolveType field.type
      if type.isTable then
        reject field.type.span "Table fields are outside Fine's first datatype slice"
      else do
        let later ← resolveFields declared fields
        pure (some type :: later)

def resolveCases (declared : Identifier) : List EnumCase → Run (List (List (Option RuntimeType)))
  | [] => pure []
  | item :: items => do
    let fields ← resolveFields declared item.fields
    let later ← resolveCases declared items
    pure (fields :: later)

/-- Some case has no field of the type itself. -/
def wellFounded (cases : List (List (Option RuntimeType))) : Bool :=
  cases.any fun fields => fields.all Option.isSome

/-- A case of a datatype once the datatype has its object. -/
def caseInfo (type : RuntimeType) (item : EnumCase) (fields : List (Option RuntimeType)) :
    DatatypeCaseInfo where
  name := item.name
  fieldNames := item.fields.map EnumField.name
  fieldTypes := fields.map fun field => field.getD type
  range := type.sort

def refuse {α : Type} (message : String) : Run α := fun _ => .error (.solver message)

def Runtime.addDatatype (runtime : Runtime) (info : DatatypeInfo) : Runtime :=
  { runtime with
    nextAddress := runtime.nextAddress + 1
    context := { runtime.context with
      datatypes := (info.name, info.cases.map fun item =>
        (item.name, item.fieldTypes.map RuntimeType.sort)) :: runtime.context.datatypes }
    constructors := runtime.constructors.emplaceAll
      (info.cases.map fun item => (item.name, info, item))
    types := runtime.types.emplace info.name info.type
    datatypes := runtime.datatypes.emplace info.name info }

def Runtime.addEnum (runtime : Runtime) (info : EnumInfo) : Runtime :=
  { runtime with
    nextAddress := runtime.nextAddress + 1
    context := { runtime.context with
      datatypes := (info.name, info.caseNames.map fun name => (name, [])) ::
        runtime.context.datatypes }
    cases := runtime.cases.emplaceAll
      (info.caseNames.zipIdx.map fun item => (item.1, info, item.2))
    types := runtime.types.emplace info.name info.type
    enums := runtime.enums.emplace info.name info }

/-- Declare a type with fields. -/
def declareDatatype (declaration : EnumDecl) : Run Unit := do
  let fields ← resolveCases declaration.name declaration.cases
  if !wellFounded fields then refuse "datatype is not well-founded"
  else do
    let runtime ← get
    let type := RuntimeType.datatype runtime.nextAddress declaration.name
    set (runtime.addDatatype
      ⟨declaration.name, type, List.zipWith (caseInfo type) declaration.cases fields⟩)

def declareEnumeration (declaration : EnumDecl) : Run Unit := do
  if declaration.cases.isEmpty then refuse "datatype is not well-founded"
  else do
    let runtime ← get
    set (runtime.addEnum
      ⟨declaration.name, .enumeration runtime.nextAddress declaration.name,
        declaration.cases.map EnumCase.name⟩)

/-- Declare an enumeration or datatype. -/
def declareEnum (declaration : EnumDecl) : Run Unit := do
  reserveTypeName declaration.name declaration.info.span
  reserveCases [] declaration.cases
  if declaration.cases.any fun item => !item.fields.isEmpty then declareDatatype declaration
  else declareEnumeration declaration

/-- A parameter that is resolved and has a constant. -/
structure Formal where
  name : Identifier
  type : RuntimeType
  term : Const

def Formal.entry (formal : Formal) : Identifier × TypedExpression :=
  (formal.name, ⟨formal.type, .constant formal.term⟩)

def environmentOf (formals : List Formal) : Environment := formals.map Formal.entry

/-- How a list of parameters is read. -/
structure ParameterRules where
  /-- A name that no parameter may have, and what is said then. -/
  reserved : Option (Identifier × String) := none
  /-- Duplicates are found before the type is resolved. -/
  early : Bool
  duplicate : Identifier → String
  /-- Types that parameters may have. -/
  admits : RuntimeType → Bool
  refusal : String
  internal : Nat → String

namespace ParameterRules

/-- The parameter does not have the reserved name. -/
def notReserved (rules : ParameterRules) (parameter : Parameter) : Run Unit :=
  match rules.reserved with
  | some (name, message) =>
    if parameter.name = name then reject parameter.span message else pure ()
  | none => pure ()

/-- The name is new, if this is when that is asked. -/
def distinct (rules : ParameterRules) (early : Bool) (seen : List Identifier)
    (parameter : Parameter) : Run Unit :=
  if rules.early = early ∧ parameter.name ∈ seen then
    reject parameter.span (rules.duplicate parameter.name)
  else pure ()

end ParameterRules

/-- Resolve parameters and give each a constant. -/
def declareParameters (rules : ParameterRules) : Nat → List Identifier → List Parameter →
    Run (List Formal)
  | _, _, [] => pure []
  | index, seen, parameter :: parameters => do
    rules.notReserved parameter
    rules.distinct true seen parameter
    let type ← resolveType parameter.type
    if !rules.admits type then reject parameter.type.span rules.refusal
    else do
      rules.distinct false seen parameter
      let later ← declareParameters rules (index + 1) (parameter.name :: seen) parameters
      pure (⟨parameter.name, type, ⟨rules.internal index, type.sort⟩⟩ :: later)

/-- Bind names to fields of the matched value, and say which are of the matched type. -/
def bindPattern (matched : Formal) (item : DatatypeCaseInfo) :
    Nat → List MatchBinding → List RuntimeType → Environment → List Identifier →
    Run (Environment × List Identifier)
  | field, binding :: bindings, type :: types, environment, recursive =>
    if binding.name.text = "_" then
      bindPattern matched item (field + 1) bindings types environment recursive
    else if environment.contains binding.name then
      reject binding.span ("duplicate or shadowing pattern binding `" ++ binding.name.text ++ "`")
    else
      bindPattern matched item (field + 1) bindings types
        (environment.emplace binding.name
          ⟨type, .app (item.accessor field type) [.constant matched.term]⟩)
        (if type.same matched.type then binding.name :: recursive else recursive)
  | _, _, _, environment, recursive => pure (environment, recursive)

/-- What a recursive call has to pass, and where. -/
structure Recursion where
  function : Identifier
  arity : Nat
  /-- Position of the matched parameter. -/
  position : Nat
  datatype : Identifier
  /-- Fields of the matched value that are of its type. -/
  fields : List Identifier

/-- Calls pass a field of the matched value for the matched parameter. -/
def Recursion.checkCall (recursion : Recursion) (span : SourceSpan) (callee : Identifier)
    (arguments : List Expr) : Run Unit :=
  let name := recursion.function.text
  if callee != recursion.function then pure ()
  else if arguments.length != recursion.arity then
    reject span ("recursive call to `" ++ name ++ "` has the wrong arity")
  else
    let message := "recursive call to `" ++ name ++ "` must pass a direct `" ++
      recursion.datatype.text ++ "` pattern field as its matched argument"
    match arguments[recursion.position]? with
    | some (.name info field) =>
      if field ∈ recursion.fields then pure () else reject info.span message
    | some decreasing => reject decreasing.span message
    | none => reject span message

mutual

/-- Every call in an expression is structural. -/
def checkStructuralCalls (recursion : Recursion) : Expr → Run Unit
  | .call info callee arguments => do
    recursion.checkCall info.span callee arguments
    checkStructuralAll recursion arguments
  | .tuple _ elements => checkStructuralAll recursion elements
  | .binary _ _ left right => do
    checkStructuralCalls recursion left
    checkStructuralCalls recursion right
  | .conditional _ condition yes no => do
    checkStructuralCalls recursion condition
    checkStructuralCalls recursion yes
    checkStructuralCalls recursion no
  | .name _ _ => pure ()
  | .boolean _ _ => pure ()
  | .integer _ _ => pure ()
  | .hole _ _ => pure ()

/-- Every call in expressions is structural. -/
def checkStructuralAll (recursion : Recursion) : List Expr → Run Unit
  | [] => pure ()
  | expression :: expressions => do
    checkStructuralCalls recursion expression
    checkStructuralAll recursion expressions

end

/-- What the arms of a function share. -/
structure FunctionFrame where
  declaration : FunctionDecl
  formals : List Formal
  matched : Formal
  /-- Position of the matched parameter. -/
  position : Nat
  datatype : DatatypeInfo
  resultType : RuntimeType

/-- Elaborate an arm to its guard and its value. -/
def functionArm (frame : FunctionFrame) (seen : List Identifier) (arm : MatchArm) :
    Run (Term × Term) :=
  match frame.datatype.cases.find? fun item => item.name == arm.constructor with
  | none =>
    reject arm.span ("constructor `" ++ arm.constructor.text ++ "` does not belong to `" ++
      frame.datatype.name.text ++ "`")
  | some item =>
    if arm.constructor ∈ seen then
      reject arm.span ("duplicate match arm for `" ++ arm.constructor.text ++ "`")
    else if arm.bindings.length != item.fieldTypes.length then
      reject arm.span ("constructor `" ++ arm.constructor.text ++ "` expects " ++
        toString item.fieldTypes.length ++ " pattern bindings")
    else do
      let bound ← bindPattern frame.matched item 0 arm.bindings item.fieldTypes
        (environmentOf frame.formals) []
      checkStructuralCalls ⟨frame.declaration.name, frame.declaration.parameters.length,
        frame.position, frame.datatype.name, bound.2⟩ arm.value
      let value ← elaborate bound.1 arm.value
      if !value.type.same frame.resultType then
        reject arm.value.span ("match arm must return `" ++ frame.resultType.display ++ "`")
      else pure (.app item.recognizer [.constant frame.matched.term], value.expression)

/-- Elaborate the arms. -/
def functionArms (frame : FunctionFrame) : List Identifier → List MatchArm →
    Run (List (Term × Term))
  | _, [] => pure []
  | seen, arm :: arms => do
    let branch ← functionArm frame seen arm
    let later ← functionArms frame (arm.constructor :: seen) arms
    pure (branch :: later)

/-- Branches as conditionals; the last one has no guard. -/
def matchBody : List (Term × Term) → Term
  | [] => default
  | [(_, value)] => value
  | (guard, value) :: later => .app .ite [guard, value, matchBody later]

/-- The cases without an arm, as a message lists them. -/
def missingCases (datatype : DatatypeInfo) (arms : List MatchArm) : String :=
  ", ".intercalate ((datatype.cases.filter fun item =>
    item.name ∉ arms.map MatchArm.constructor).map fun item => "`" ++ item.name.text ++ "`")

def functionRules (name : Identifier) : ParameterRules where
  early := false
  duplicate parameter := "duplicate parameter `" ++ parameter.text ++ "`"
  admits type := !type.isTable
  refusal := "function parameters cannot have Table type in this slice"
  internal index := "Fine.function." ++ name.text ++ ".arg" ++ toString index

/-- The matched parameter, its place and its datatype. -/
def matchedParameter (scrutinee : SourceSpan) (name : Identifier) (formals : List Formal) :
    Run (Formal × Nat × DatatypeInfo) := do
  match formals.zipIdx.find? fun entry => entry.1.name == name with
  | none => reject scrutinee "the matched name is not a function parameter"
  | some (matched, position) => do
    let runtime ← get
    match matched.type with
    | .datatype _ declared =>
      match runtime.datatypes.lookup declared with
      | some datatype => pure (matched, position, datatype)
      | none => internal "a datatype object without its declaration"
    | _ => reject scrutinee "a function match requires a field-bearing datatype"

def Runtime.addFunction (runtime : Runtime) (info : FunctionInfo) : Runtime :=
  { runtime with functions := runtime.functions.emplace info.name info }

/-- The solver has one more recursive definition. -/
def Runtime.addDefinition (runtime : Runtime) (definition : Definition) : Runtime :=
  { runtime with context := { runtime.context with
    definitions := definition :: runtime.context.definitions } }

/-- Elaborate a body and give it to the solver. -/
def defineFunction (frame : FunctionFrame) (info : FunctionInfo) : Run Unit := do
  let declaration := frame.declaration
  let branches ← functionArms frame [] declaration.arms
  if declaration.arms.length != frame.datatype.cases.length then
    reject declaration.info.span ("non-exhaustive match; missing " ++
      missingCases frame.datatype declaration.arms)
  else
    let definition : Definition := ⟨info, frame.formals.map Formal.term, matchBody branches⟩
    modify fun runtime => runtime.addDefinition definition

/-- Resolve a signature with a match, and define the function. -/
def declareMatch (declaration : FunctionDecl) (scrutinee : SourceSpan) (name : Identifier) :
    Run Unit := do
  let formals ← declareParameters (functionRules declaration.name) 0 [] declaration.parameters
  let (matched, position, datatype) ← matchedParameter scrutinee name formals
  let resultType ← resolveType declaration.resultType
  if resultType.isTable then
    reject declaration.resultType.span "functions cannot return Table in this slice"
  else do
    let info : FunctionInfo := ⟨declaration.name, formals.map Formal.type, resultType⟩
    modify fun runtime => runtime.addFunction info
    defineFunction ⟨declaration, formals, matched, position, datatype, resultType⟩ info

/-- Declare a function. -/
def declareFunction (declaration : FunctionDecl) : Run Unit := do
  reserveValueName declaration.name declaration.info.span
  if declaration.parameters.isEmpty then
    reject declaration.info.span "a function needs at least one parameter"
  else
    match declaration.scrutinee with
    | .name info name => declareMatch declaration info.span name
    | other => reject other.span "the first function slice matches one named parameter directly"

/-- The named constructor of the expected datatype. -/
def expectedConstructor (span : SourceSpan) (name : Identifier) (expected : RuntimeType) :
    Run DatatypeCaseInfo := do
  let runtime ← get
  match runtime.constructors.lookup name with
  | none => reject span ("unknown constructor `" ++ name.text ++ "`")
  | some (datatype, item) =>
    if !datatype.type.same expected then
      reject span ("constructor `" ++ name.text ++ "` belongs to `" ++ datatype.name.text ++
        "`, not `" ++ expected.display ++ "`")
    else pure item

/-- A name in a table cell. -/
def nameValue (span : SourceSpan) (name : Identifier) (expected : RuntimeType) : Run Term :=
  match expected with
  | .datatype _ _ => do
    let item ← expectedConstructor span name expected
    if !item.fieldTypes.isEmpty then
      reject span ("constructor `" ++ name.text ++ "` requires arguments")
    else pure (.app item.constructor [])
  | .enumeration _ _ => do
    let runtime ← get
    match runtime.cases.lookup name with
    | none => reject span ("unknown enum case `" ++ name.text ++ "`")
    | some (enumeration, index) =>
      if !enumeration.type.same expected then
        reject span ("enum case `" ++ name.text ++ "` belongs to `" ++ enumeration.name.text ++
          "`, not `" ++ expected.display ++ "`")
      else pure (enumeration.value index)
  | _ => reject span ("name `" ++ name.text ++ "` is not a value of type `" ++ expected.display ++
    "`")

mutual

/-- A literal in a table cell. -/
def value : Expr → RuntimeType → Run Term
  | .boolean info literal, expected =>
    match expected with
    | .boolean _ => pure (.boolVal literal)
    | _ => reject info.span ("Boolean value does not have type `" ++ expected.display ++ "`")
  | .integer info literal, expected =>
    match expected with
    | .integer _ => pure (.numeral literal.value)
    | _ => reject info.span ("integer value does not have type `" ++ expected.display ++ "`")
  | .name info name, expected => nameValue info.span name expected
  | .call info name elements, expected =>
    match expected with
    | .datatype _ _ => do
      let item ← expectedConstructor info.span name expected
      if elements.length != item.fieldTypes.length then
        reject info.span ("constructor `" ++ name.text ++ "` expects " ++
          toString item.fieldTypes.length ++ " arguments")
      else do
        let arguments ← values elements item.fieldTypes
        pure (.app item.constructor arguments)
    | _ => reject info.span ("constructor call does not have type `" ++ expected.display ++ "`")
  | .tuple info elements, expected =>
    match expected with
    | .tuple _ _ first second =>
      if elements.length != 2 then
        reject info.span "Fine v1 tuples contain exactly two values"
      else do
        let arguments ← values elements [first, second]
        pure (.app expected.tupleConstructor arguments)
    | _ => reject info.span ("tuple does not have type `" ++ expected.display ++ "`")
  | .binary info _ _ _, _ =>
    reject info.span "computed expressions are not admitted as literal table cells"
  | .conditional info _ _ _, _ =>
    reject info.span "computed expressions are not admitted as literal table cells"
  | .hole info _, _ =>
    reject info.span "computed expressions are not admitted as literal table cells"

def values : List Expr → List RuntimeType → Run (List Term)
  | element :: elements, type :: types => do
    let first ← value element type
    let later ← values elements types
    pure (first :: later)
  | _, _ => pure []

end

/-- Store entries, whose keys are different. -/
def tableEntries (key range : RuntimeType) : List Term → Term → List TableEntry → Run Term
  | _, table, [] => pure table
  | seen, table, entry :: entries => do
    let at_ ← value entry.key key
    if at_ ∈ seen then reject entry.key.span "duplicate table key"
    else do
      let stored ← value entry.value range
      tableEntries key range (at_ :: seen)
        (.app (.store key.sort range.sort) [table, at_, stored]) entries

/-- A table literal. -/
def tableValue (key range : RuntimeType) (literal : TableLiteral) : Run Term := do
  let rest ← value literal.defaultValue range
  tableEntries key range [] (.app (.constArray key.sort range.sort) [rest]) literal.entries

def addBinding (name : Identifier) (binding : Binding) : Run Unit :=
  modify fun runtime => { runtime with bindings := runtime.bindings.emplace name binding }

/-- Declare a table. -/
def declareLet (declaration : LetDecl) : Run Unit := do
  reserveValueName declaration.name declaration.info.span
  let type ← resolveType declaration.type
  match type with
  | .table _ key range => do
    let table ← tableValue key range declaration.value
    addBinding declaration.name ⟨type, table, false, declaration.info.span⟩
  | _ => reject declaration.type.span "a `let` binding in this slice must be a Table"

/-- Declare a table that is given, or to be found. -/
def declareModel (declaration : ModelDecl) : Run Unit := do
  reserveValueName declaration.name declaration.info.span
  let type ← resolveType declaration.type
  match type with
  | .table _ key range =>
    match declaration.value with
    | some literal => do
      let table ← tableValue key range literal
      addBinding declaration.name ⟨type, table, false, declaration.info.span⟩
    | none =>
      addBinding declaration.name
        ⟨type, .constant ⟨declaration.name.text, type.sort⟩, true, declaration.info.span⟩
  | _ => reject declaration.type.span "a `model` hole must have Table type"

end Fine.RuntimeDetail
