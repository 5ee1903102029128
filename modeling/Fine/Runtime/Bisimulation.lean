import Fine.Runtime.Check

/-!
# Bisimulations

The solver is asked for a relation between two finite systems. The relation found is evaluated at
every pair and assembled into an array, which is lifted, printed, parsed and read again. What the
recorder writes is left out.
-/

namespace Fine.RuntimeDetail

open Fine.Syntax Fine.Semantics

/-- What the solver finds; a model evaluates terms. -/
inductive Finding where
  | sat (evaluate : Term → Term)
  | unsat
  | unknown (reason : String)

/-- A solver that is asked for a model. -/
abbrev Finder := Context → List Term → Finding

/-- The keys of a table that must return Booleans. -/
def expectBoolRange (binding : Binding) (span : SourceSpan) (role : String) : Run RuntimeType :=
  match binding.type with
  | .table _ key (.boolean _) => pure key
  | .table _ _ _ => reject span (role ++ " must return Bool")
  | _ => reject span (role ++ " must have Table type")

/-- The different inputs of a solve declaration, by name. -/
def addInputs : Map String Expr → List NamedArgument → Run (Map String Expr)
  | inputs, [] => pure inputs
  | inputs, argument :: arguments =>
    if inputs.contains argument.name.text then
      reject argument.span ("duplicate solve input `" ++ argument.name.text ++ "`")
    else addInputs (inputs.emplace argument.name.text argument.value) arguments

/-- Names of the inputs of a bisimulation, in the order of their texts. -/
def inputNames : List String :=
  ["initial", "left_label", "left_step", "relation", "right_label", "right_step"]

def leastText : List String → Option String
  | [] => none
  | text :: texts =>
    match leastText texts with
    | some least => some (if text < least then text else least)
    | none => some text

/-- The inputs of a bisimulation. -/
structure SolveInputs where
  relation : Expr
  leftStep : Expr
  rightStep : Expr
  leftLabel : Expr
  rightLabel : Expr
  initial : Expr

/-- The inputs of a bisimulation, when none is missing. -/
def solveInputs (inputs : Map String Expr) : Option SolveInputs := do
  let relation ← inputs.lookup "relation"
  let leftStep ← inputs.lookup "left_step"
  let rightStep ← inputs.lookup "right_step"
  let leftLabel ← inputs.lookup "left_label"
  let rightLabel ← inputs.lookup "right_label"
  let initial ← inputs.lookup "initial"
  pure ⟨relation, leftStep, rightStep, leftLabel, rightLabel, initial⟩

/-- Take every expected input and no other. -/
def takeMap (solve : SolveDecl) : Run SolveInputs := do
  let inputs ← addInputs [] solve.takes
  match leastText ((inputs.map Prod.fst).filter fun name => name ∉ inputNames) with
  | some name => reject solve.info.span ("unexpected solve input `" ++ name ++ "`")
  | none =>
    match solveInputs inputs with
    | some found => pure found
    | none =>
      let missing := inputNames.find? fun name => !inputs.contains name
      reject solve.info.span ("missing solve input `" ++ missing.getD "" ++ "`")

/-- The table that an input names, with its name. -/
def binding (expression : Expr) (role : String) : Run (Identifier × Binding) :=
  match expression with
  | .name info name => do
    match (← get).bindings.lookup name with
    | some found => pure (name, found)
    | none => reject info.span ("unknown table `" ++ name.text ++ "`")
  | other => reject other.span (role ++ " must name a table declaration")

/-- A table of steps between states; returns the type of its keys. -/
def validateStep (step : Binding) (state : RuntimeType) (span : SourceSpan) (role : String) :
    Run RuntimeType := do
  let domain ← expectBoolRange step span role
  let refusal := role ++ " must have type Table((" ++ state.display ++ ", " ++ state.display ++
    "), Bool)"
  match domain with
  | .tuple _ _ first second =>
    if !first.same state || !second.same state then reject span refusal else pure domain
  | _ => reject span refusal

/-- A table of labels of states. -/
def validateLabel (label : Binding) (state : RuntimeType) (span : SourceSpan) (role : String) :
    Run Unit := do
  let domain ← expectBoolRange label span role
  if !domain.same state then
    reject span (role ++ " must have type Table(" ++ state.display ++ ", Bool)")
  else pure ()

/-- The tables, the types of states and pairs, and the pair to be related. -/
structure BisimulationQuery where
  name : Identifier
  relation : Binding
  leftStep : Binding
  rightStep : Binding
  leftLabel : Binding
  rightLabel : Binding
  left : RuntimeType
  right : RuntimeType
  domain : RuntimeType
  leftDomain : RuntimeType
  rightDomain : RuntimeType
  initial : Term

/-- `gives` must return the relation. -/
def givesRelation (solve : SolveDecl) (name : Identifier) : Run Unit :=
  match solve.gives with
  | .name info other =>
    if other ≠ name then reject info.span "`gives` must return the relation model hole"
    else pure ()
  | other => reject other.span "`gives` must return the relation model hole"

def stateTypes (span : SourceSpan) : RuntimeType → Run (RuntimeType × RuntimeType)
  | .tuple _ _ (.enumeration leftAddress left) (.enumeration rightAddress right) =>
    pure (.enumeration leftAddress left, .enumeration rightAddress right)
  | .tuple _ _ _ _ => reject span "bisimulation state types must be finite enums"
  | _ => reject span "relation must be indexed by a pair of enum states"

/-- Read a bisimulation. -/
def bisimulationQuery (solve : SolveDecl) : Run BisimulationQuery := do
  if solve.name.text ≠ "bisimulation" then
    reject solve.info.span ("unknown solve form `" ++ solve.name.text ++
      "`; this slice admits `solve bisimulation`")
  else do
    let inputs ← takeMap solve
    let (name, relation) ← binding inputs.relation "relation"
    let (_, leftStep) ← binding inputs.leftStep "left_step"
    let (_, rightStep) ← binding inputs.rightStep "right_step"
    let (_, leftLabel) ← binding inputs.leftLabel "left_label"
    let (_, rightLabel) ← binding inputs.rightLabel "right_label"
    let domain ← expectBoolRange relation solve.info.span "relation"
    if !relation.isModel then
      reject inputs.relation.span "relation must name the `model` hole"
    else do
      let (left, right) ← stateTypes inputs.relation.span domain
      let leftDomain ← validateStep leftStep left inputs.leftStep.span "left_step"
      let rightDomain ← validateStep rightStep right inputs.rightStep.span "right_step"
      validateLabel leftLabel left inputs.leftLabel.span "left_label"
      validateLabel rightLabel right inputs.rightLabel.span "right_label"
      givesRelation solve name
      let initial ← value inputs.initial domain
      pure ⟨name, relation, leftStep, rightStep, leftLabel, rightLabel, left, right, domain,
        leftDomain, rightDomain, initial⟩

/-- A pair of a tuple type. -/
def pairOf (type : RuntimeType) (first second : Term) : Term :=
  .app type.tupleConstructor [first, second]

def selectOf (domain : RuntimeType) (table key : Term) : Term :=
  .app (.select domain.sort .bool) [table, key]

namespace BisimulationQuery

variable (query : BisimulationQuery)

def leftVar : Const := ⟨"Fine.left", query.left.sort⟩

def rightVar : Const := ⟨"Fine.right", query.right.sort⟩

/-- The next left state. -/
def leftNext : Const := ⟨"Fine.left_next", query.left.sort⟩

/-- The next right state. -/
def rightNext : Const := ⟨"Fine.right_next", query.right.sort⟩

/-- Two states are related. -/
def related (left right : Const) : Term :=
  selectOf query.domain query.relation.value
    (pairOf query.domain (.constant left) (.constant right))

def stepsLeft (first second : Const) : Term :=
  selectOf query.leftDomain query.leftStep.value
    (pairOf query.leftDomain (.constant first) (.constant second))

def stepsRight (first second : Const) : Term :=
  selectOf query.rightDomain query.rightStep.value
    (pairOf query.rightDomain (.constant first) (.constant second))

def labelsAgree : Term :=
  .quantified true [query.leftVar, query.rightVar]
    ((query.related query.leftVar query.rightVar).imp
      ((selectOf query.left query.leftLabel.value (.constant query.leftVar)).equals
        (selectOf query.right query.rightLabel.value (.constant query.rightVar))))

def leftStepMatched : Term :=
  .quantified true [query.leftVar, query.rightVar, query.leftNext]
    (((query.related query.leftVar query.rightVar).conj
      (query.stepsLeft query.leftVar query.leftNext)).imp
      (.quantified false [query.rightNext]
        ((query.stepsRight query.rightVar query.rightNext).conj
          (query.related query.leftNext query.rightNext))))

def rightStepMatched : Term :=
  .quantified true [query.leftVar, query.rightVar, query.rightNext]
    (((query.related query.leftVar query.rightVar).conj
      (query.stepsRight query.rightVar query.rightNext)).imp
      (.quantified false [query.leftNext]
        ((query.stepsLeft query.leftVar query.leftNext).conj
          (query.related query.leftNext query.rightNext))))

def initialRelated : Term := selectOf query.domain query.relation.value query.initial

def assertions : List (String × Term) :=
  [("labels-agree", query.labelsAgree), ("left-step-matched", query.leftStepMatched),
    ("right-step-matched", query.rightStepMatched), ("initial-related", query.initialRelated)]

end BisimulationQuery

def EnumInfo.values (info : EnumInfo) : List Term :=
  (List.range info.caseNames.length).map info.value

def enumerationValues : RuntimeType → Run (List Term)
  | .enumeration _ declared => do
    match (← get).enums.lookup declared with
    | some info => pure info.values
    | none => internal "an enumeration object without its declaration"
  | _ => internal "an object that is no enumeration"

/-- Store true at the pairs where the relation is true. -/
def canonicalCells (query : BisimulationQuery) (span : SourceSpan) (evaluate : Term → Term) :
    Term → List Term → Run Term
  | canonical, [] => pure canonical
  | canonical, key :: keys =>
    let cell := evaluate (selectOf query.domain query.relation.value key)
    if cell = .boolVal true then
      canonicalCells query span evaluate
        (.app (.store query.domain.sort .bool) [canonical, key, .boolVal true]) keys
    else if cell = .boolVal false then canonicalCells query span evaluate canonical keys
    else reject span "model returned a non-Boolean relation cell"

/-- The relation as an array, false but for stores of true. -/
def canonicalArray (query : BisimulationQuery) (span : SourceSpan) (evaluate : Term → Term) :
    Run Term := do
  let lefts ← enumerationValues query.left
  let rights ← enumerationValues query.right
  canonicalCells query span evaluate
    (.app (.constArray query.domain.sort .bool) [.boolVal false])
    (lefts.flatMap fun left => rights.map fun right => pairOf query.domain left right)

/-- Values of tables as they are printed. -/
inductive SurfaceValue where
  | boolean (value : Bool)
  | enumeration (info : EnumInfo) (index : Nat)
  | datatype (item : DatatypeCaseInfo) (elements : List SurfaceValue)
  | tuple (elements : List SurfaceValue)

/-- Tables as they are printed. -/
structure SurfaceTable where
  defaultValue : SurfaceValue
  entries : List (SurfaceValue × SurfaceValue)

mutual

/-- Lift a value of a type. -/
def liftValue : Term → RuntimeType → Run SurfaceValue
  | expression, .boolean _ =>
    if expression = .boolVal true then pure (.boolean true)
    else if expression = .boolVal false then pure (.boolean false)
    else reject {} "lift encountered a non-literal Boolean"
  | expression, .enumeration _ declared => do
    match (← get).enums.lookup declared with
    | none => internal "an enumeration object without its declaration"
    | some info =>
      match (List.range info.caseNames.length).find? fun index => expression = info.value index with
      | some index => pure (.enumeration info index)
      | none => reject {} ("lift encountered a value outside enum `" ++ declared.text ++ "`")
  | .app decl arguments, .datatype _ declared => do
    match (← get).datatypes.lookup declared with
    | none => internal "a datatype object without its declaration"
    | some info =>
      match info.cases.find? fun item => decl = item.constructor with
      | none => reject {} ("lift encountered a value outside datatype `" ++ declared.text ++ "`")
      | some item => do
        let elements ← liftValues arguments item.fieldTypes
        pure (.datatype item elements)
  | .app decl [left, right], .tuple address sequence first second =>
    if decl = (RuntimeType.tuple address sequence first second).tupleConstructor then do
      let elements ← liftValues [left, right] [first, second]
      pure (.tuple elements)
    else reject {} ("lift encountered a value outside admitted type `" ++
      (RuntimeType.tuple address sequence first second).display ++ "`")
  | .quantified _ _ _, .datatype _ declared =>
    reject {} ("lift encountered a value outside admitted type `" ++ declared.text ++ "`")
  | _, .datatype _ declared =>
    reject {} ("lift encountered a value outside datatype `" ++ declared.text ++ "`")
  | _, type =>
    reject {} ("lift encountered a value outside admitted type `" ++ type.display ++ "`")

/-- Lift values of types. -/
def liftValues : List Term → List RuntimeType → Run (List SurfaceValue)
  | argument :: arguments, type :: types => do
    let first ← liftValue argument type
    let later ← liftValues arguments types
    pure (first :: later)
  | _, _ => pure []

end

/-- Lift an array: a constant array under stores. -/
def liftTable (address : Nat) (key range : RuntimeType) : Term → Run SurfaceTable
  | .quantified _ _ _ => reject {} "lift expected an array application"
  | .app (.constArray domain element) [rest] =>
    if (Term.app (.constArray domain element) [rest]).sort? ≠
        some (RuntimeType.table address key range).sort then
      reject {} "lift received an array with the wrong admitted Table type"
    else do
      let rest ← liftValue rest range
      pure ⟨rest, []⟩
  | .app (.store domain element) [table, at_, stored] =>
    if (Term.app (.store domain element) [table, at_, stored]).sort? ≠
        some (RuntimeType.table address key range).sort then
      reject {} "lift received an array with the wrong admitted Table type"
    else do
      let lifted ← liftTable address key range table
      let at_ ← liftValue at_ key
      let stored ← liftValue stored range
      pure ⟨lifted.defaultValue, lifted.entries ++ [(at_, stored)]⟩
  | other =>
    if other.sort? ≠ some (RuntimeType.table address key range).sort then
      reject {} "lift received an array with the wrong admitted Table type"
    else reject {} "array value is outside Fine's admitted table syntax"

mutual

/-- Text of a value. -/
def printValue : SurfaceValue → SourceText
  | .boolean value => if value then "true".toList else "false".toList
  | .enumeration info index => (info.caseNames.getD index default).text.toList
  | .datatype item elements =>
    item.name.text.toList ++ if elements.isEmpty then []
      else '(' :: (printValues elements ++ [')'])
  | .tuple elements => '(' :: (printValues elements ++ [')'])

def printValues : List SurfaceValue → SourceText
  | [] => []
  | element :: elements => printValue element ++ printLaterValues elements

def printLaterValues : List SurfaceValue → SourceText
  | [] => []
  | element :: elements => ", ".toList ++ (printValue element ++ printLaterValues elements)

end

def printEntry (entry : SurfaceValue × SurfaceValue) : SourceText :=
  "  ".toList ++ (printValue entry.1 ++ (": ".toList ++ (printValue entry.2 ++ ",\n".toList)))

/-- Text of a table. -/
def printTableExpression (table : SurfaceTable) : SourceText :=
  "table(default: ".toList ++ (printValue table.defaultValue ++ (") \x7b\n".toList ++
    ((table.entries.map printEntry).flatten ++ ['\x7d'])))

/-- Text of a model declaration with its table. -/
def renderModelWitness (name : Identifier) (type : RuntimeType) (table : SurfaceTable) :
    SourceText :=
  "model ".toList ++ (name.text.toList ++ (": ".toList ++ (type.display.toList ++
    (" = ".toList ++ (printTableExpression table ++ ";\n".toList)))))

/-- The table that a parsed model gives to the name. -/
def witnessTable (name : Identifier) (type : RuntimeType) (document : Document) : Run Term :=
  match document.declarations with
  | [.model ⟨_, other, written, some literal⟩] =>
    if other ≠ name then internal "internal Fine witness parser changed the declaration"
    else do
      let parsed ← resolveType written
      if !parsed.same type then internal "internal Fine witness parser changed the model type"
      else
        match parsed with
        | .table _ key range => tableValue key range literal
        | _ => internal "internal Fine witness parser changed the model type"
  | [_] => internal "internal Fine witness parser changed the declaration"
  | _ => internal "internal Fine witness parser returned extra declarations"

/-- Print a relation, read it back and write it if it is the same. -/
def returnWitness (query : BisimulationQuery) (span : SourceSpan) (canonical : Term) :
    Run Nat := do
  match query.relation.type with
  | .table address key range => do
    let lifted ← liftTable address key range canonical
    let source := renderModelWitness query.name query.relation.type lifted
    match parse source with
    | .error failure => fun _ => .error (.syntax_ failure)
    | .ok document => do
      let roundtrip ← witnessTable query.name query.relation.type document
      if roundtrip ≠ canonical then
        reject span "parse(print(lift(x))) violated exact AST identity after reification"
      else do
        write ["sat: z3 filled model-shaped hole " ++ query.name.text, String.ofList source,
          "parse(print(lift(x))): exact ast identity"]
        pure 0
  | _ => internal "a relation that is no table"

/-- Execute a bisimulation. -/
def executeBisimulation (finder : Finder) (solve : SolveDecl) : Run Nat := do
  let query ← bisimulationQuery solve
  let runtime ← get
  match finder runtime.context (query.assertions.map Prod.snd) with
  | .unknown reason =>
    reject solve.info.span ("bisimulation model hole was unknown: " ++ reason)
  | .unsat => reject solve.info.span "bisimulation model hole was unsatisfiable"
  | .sat evaluate => do
    let canonical ← canonicalArray query solve.info.span evaluate
    returnWitness query solve.info.span canonical

end Fine.RuntimeDetail
