import Fine.Runtime.Predicate
import Fine.Syntax.Declarations
import Fine.Syntax.Print

/-!
# Checks and proofs

A check asks the solver for values that falsify it, or its induction step, which has one branch for
every constructor. The solver is a parameter. Its values are lifted, printed, parsed and elaborated.
-/

namespace Fine.RuntimeDetail

open Fine.Syntax Fine.Semantics

def checkRules (runtime : Runtime) (name : Identifier) : ParameterRules where
  early := false
  duplicate parameter := "duplicate parameter `" ++ parameter.text ++ "`"
  admits type := type.same runtime.intType || type.same runtime.boolType ||
    match type with
    | .enumeration _ _ => true
    | .datatype _ _ => true
    | .tuple _ _ _ _ => true
    | _ => false
  refusal := "check parameters admit Int, Bool, enums, datatypes, and tuples"
  internal index := "Fine.check." ++ name.text ++ ".arg" ++ toString index

/-- Constant for a field in an induction branch. -/
def caseField (name : Identifier) (item : DatatypeCaseInfo) (index : Nat) (type : RuntimeType) :
    Const :=
  ⟨"Fine.check." ++ name.text ++ ".case." ++ item.name.text ++ ".field" ++ toString index,
    type.sort⟩

/-- Constant for a generalized parameter. -/
def generalized (name : Identifier) (item : DatatypeCaseInfo) (field index : Nat)
    (formal : Formal) : Const :=
  ⟨"Fine.check." ++ name.text ++ ".ih." ++ item.name.text ++ ".field" ++ toString field ++ ".arg" ++
    toString index, formal.type.sort⟩

/-- The check, its parameters, the one of the datatype, and the theorem. -/
structure InductionFrame where
  name : Identifier
  formals : List Formal
  position : Nat
  found : Formal
  datatype : DatatypeInfo
  theorem_ : Term

namespace InductionFrame

def others (frame : InductionFrame) : List (Formal × Nat) :=
  frame.formals.zipIdx.filter fun entry => entry.2 != frame.position

/-- The constants for the fields of a constructor. -/
def fields (frame : InductionFrame) (item : DatatypeCaseInfo) : List Const :=
  item.fieldTypes.zipIdx.map fun entry => caseField frame.name item entry.2 entry.1

/-- What an induction hypothesis generalizes. -/
def bound (frame : InductionFrame) (item : DatatypeCaseInfo) (field : Nat) : List Const :=
  frame.others.map fun entry => generalized frame.name item field entry.2 entry.1

/-- The field for the induction parameter, generalized constants for others. -/
def replacements (frame : InductionFrame) (item : DatatypeCaseInfo) (field : Nat)
    (type : RuntimeType) : List (Const × Term) :=
  (frame.found.term, .constant (caseField frame.name item field type)) ::
    frame.others.map fun entry =>
      (entry.1.term, .constant (generalized frame.name item field entry.2 entry.1))

/-- The induction hypothesis for a recursive field. -/
def hypothesis (frame : InductionFrame) (item : DatatypeCaseInfo) (field : Nat)
    (type : RuntimeType) : Term :=
  let instance_ := frame.theorem_.substitute (frame.replacements item field type)
  if (frame.bound item field).isEmpty then instance_
  else .quantified true (frame.bound item field) instance_

/-- Recursive fields with their places. -/
def recursive (frame : InductionFrame) (item : DatatypeCaseInfo) : List (RuntimeType × Nat) :=
  item.fieldTypes.zipIdx.filter fun entry => entry.1.same frame.found.type

/-- The induction parameter is built by the constructor. -/
def guard (frame : InductionFrame) (item : DatatypeCaseInfo) : Term :=
  (Term.constant frame.found.term).equals
    (.app item.constructor ((frame.fields item).map Term.constant))

def hypotheses (frame : InductionFrame) (item : DatatypeCaseInfo) : List Term :=
  (frame.recursive item).map fun entry => frame.hypothesis item entry.2 entry.1

def branch (frame : InductionFrame) (item : DatatypeCaseInfo) : Term :=
  (frame.guard item).imp ((Term.conditions (frame.hypotheses item)).imp frame.theorem_)

/-- The induction step. -/
def step (frame : InductionFrame) : Term :=
  .conditions (frame.datatype.cases.map frame.branch)

end InductionFrame

/-- What a check is translated to. -/
structure CheckTranslation where
  formals : List Formal
  assumptions : List Term
  guarantees : List Term
  /-- The frame of the induction, if there is one. -/
  induction_ : Option InductionFrame

namespace CheckTranslation

/-- The theorem: the assumptions imply the guarantees. -/
def theorem_ (translation : CheckTranslation) : Term :=
  (Term.conditions translation.assumptions).imp (.conditions translation.guarantees)

/-- What is to be valid. -/
def step (translation : CheckTranslation) : Term :=
  match translation.induction_ with
  | some frame => frame.step
  | none => translation.theorem_

def query (translation : CheckTranslation) : Term := translation.step.neg

end CheckTranslation

/-- The frame of an induction on a named parameter. -/
def inductionFrame (name parameter : Identifier) (span : SourceSpan) (formals : List Formal)
    (theorem_ : Term) : Run InductionFrame := do
  let runtime ← get
  match formals.zipIdx.find? fun entry => entry.1.name = parameter with
  | none => reject span ("unknown induction parameter `" ++ parameter.text ++ "`")
  | some (found, position) =>
    match found.type with
    | .datatype _ declared =>
      match runtime.datatypes.lookup declared with
      | none => internal "a datatype object without its declaration"
      | some datatype =>
        let frame : InductionFrame := ⟨name, formals, position, found, datatype, theorem_⟩
        if datatype.cases.all fun item => (frame.recursive item).isEmpty then
          reject span "the induction datatype has no direct recursive fields"
        else pure frame
    | _ =>
      reject span "direct-subterm induction requires a field-bearing datatype parameter"

/-- Elaborate conditions, which must be Boolean. -/
def checkConditions (environment : Environment) (role : String) (conditions : List Expr) :
    Run (List Term) :=
  elaborateConditions environment
    (fun condition => reject condition.span (role ++ " condition must have type Bool")) conditions

/-- Translate a check. -/
def translateCheck (declaration : CheckDecl) : Run CheckTranslation := do
  reserveValueName declaration.name declaration.info.span
  if declaration.parameters.isEmpty then
    reject declaration.info.span "a check needs at least one parameter"
  else do
    let runtime ← get
    let formals ← declareParameters (checkRules runtime declaration.name) 0 []
      declaration.parameters
    let assumptions ← checkConditions (environmentOf formals) "assumed" declaration.assumes
    let guarantees ← checkConditions (environmentOf formals) "ensured" declaration.ensures
    let translation : CheckTranslation := ⟨formals, assumptions, guarantees, none⟩
    match declaration.inductionParameter with
    | none => pure translation
    | some parameter => do
      let frame ← inductionFrame declaration.name parameter
        (declaration.inductionSpan.getD {}) formals translation.theorem_
      pure { translation with induction_ := some frame }

mutual

/-- Lift a value of a type to source. -/
def liftTypedExpression : Term → RuntimeType → Run Expr
  | expression, .boolean _ =>
    if expression = .boolVal true then pure (.boolean {} true)
    else if expression = .boolVal false then pure (.boolean {} false)
    else reject {} "lift encountered a non-literal Bool model value"
  | .numeral value, .integer _ => pure (.integer {} (.ofInt value))
  | _, .integer _ => reject {} "lift encountered a non-numeral Int model value"
  | expression, .enumeration _ declared => do
    match (← get).enums.lookup declared with
    | none => internal "an enumeration object without its declaration"
    | some info =>
      match info.caseNames.zipIdx.find? fun entry => expression = info.value entry.2 with
      | some entry => pure (.name {} entry.1)
      | none => reject {} ("lift encountered a value outside enum `" ++ declared.text ++ "`")
  | .app decl arguments, .datatype _ declared => do
    match (← get).datatypes.lookup declared with
    | none => internal "a datatype object without its declaration"
    | some info =>
      match info.cases.find? fun item => decl = item.constructor with
      | none => reject {} ("lift encountered a value outside datatype `" ++ declared.text ++ "`")
      | some item =>
        if arguments.length != item.fieldTypes.length then
          internal "internal datatype constructor arity mismatch"
        else do
          let elements ← liftAll arguments item.fieldTypes
          if item.fieldTypes.isEmpty then pure (.name {} item.name)
          else pure (.call {} item.name elements)
  | .quantified _ _ _, .datatype _ declared =>
    reject {} ("lift encountered a non-constructor value for `" ++ declared.text ++ "`")
  | _, .datatype _ declared =>
    reject {} ("lift encountered a value outside datatype `" ++ declared.text ++ "`")
  | .app decl arguments, .tuple address sequence first second =>
    if arguments.length != 2 ||
        decl != (RuntimeType.tuple address sequence first second).tupleConstructor then
      reject {} ("lift encountered a value outside tuple `" ++
        (RuntimeType.tuple address sequence first second).display ++ "`")
    else do
      let elements ← liftAll arguments [first, second]
      pure (.tuple {} elements)
  | _, .tuple address sequence first second =>
    reject {} ("lift encountered a value outside tuple `" ++
      (RuntimeType.tuple address sequence first second).display ++ "`")
  | _, .table address key value =>
    reject {} ("lift does not admit values of type `" ++
      (RuntimeType.table address key value).display ++ "`")

def liftAll : List Term → List RuntimeType → Run (List Expr)
  | argument :: arguments, type :: types => do
    let first ← liftTypedExpression argument type
    let later ← liftAll arguments types
    pure (first :: later)
  | _, _ => pure []

end

/-- What the solver answers. A model gives every constant a value. -/
inductive Answer where
  | sat (model : Const → Term)
  | unsat
  | unknown (reason : String)

/-- What is answered in a context, for matching alone or not, for the terms. -/
abbrev Solver := Context → Bool → List Term → Answer

/-- Line of a counterexample. -/
def counterexampleLine (formal : Formal) (value : Expr) : SourceText :=
  "  ".toList ++ (formal.name.text.toList ++ (": ".toList ++ (formal.type.display.toList ++
    (" = ".toList ++ (printExpression value ++ ";\n".toList)))))

/-- Text of a counterexample. -/
def counterexampleSource (name : Identifier) (formals : List Formal) (values : List Expr) :
    SourceText :=
  "counterexample ".toList ++ (name.text.toList ++ (" \x7b\n".toList ++
    ((List.zipWith counterexampleLine formals values).flatten ++ "\x7d\n".toList)))

/-- The parsed entries have the same types and values. -/
def checkEntries : List CounterexampleEntry → List Formal → List Term → Run Unit
  | entry :: entries, formal :: formals, value :: values => do
    if entry.name ≠ formal.name then internal "counterexample parser changed a parameter name"
    else do
      let parsed ← resolveType entry.type
      let roundtrip ← elaborate [] entry.value
      if !parsed.same formal.type || !roundtrip.type.same formal.type ||
          roundtrip.expression != value then
        reject entry.span "parse(print(lift(value))) violated exact AST identity"
      else checkEntries entries formals values
  | _, _, _ => pure ()

/-- Parse a counterexample and check what it assigns. -/
def checkCounterexample (name : Identifier) (formals : List Formal) (values : List Term)
    (source : SourceText) : Run Unit :=
  match parse source with
  | .error failure => fun _ => .error (.syntax_ failure)
  | .ok document =>
    match document.declarations with
    | [.counterexample witness] =>
      if witness.name ≠ name ∨ witness.entries.length ≠ formals.length then
        internal "internal counterexample parser changed the witness"
      else checkEntries witness.entries formals values
    | [_] => internal "internal counterexample parser changed the witness"
    | _ => internal "internal counterexample parser returned extra declarations"

def write (lines : List String) : Run Unit :=
  modify fun runtime => { runtime with output := runtime.output ++ lines }

def inductionLine (declaration : CheckDecl) : List String :=
  match declaration.inductionParameter with
  | some parameter => ["induction: direct-subterm on " ++ parameter.text]
  | none => []

/-- The theorem of a proof for all its parameters. -/
def CheckTranslation.closed (translation : CheckTranslation) : Term :=
  .quantified true (translation.formals.map Formal.term) translation.theorem_

/-- What is written for a check that is verified. -/
def verifiedLines (declaration : CheckDecl) : List String :=
  [(if declaration.reusable then "verified-proof: " else "verified: ") ++
    declaration.name.text] ++ inductionLine declaration ++ ["counterexample: none"]

/-- What is written for a check that is refuted. -/
def refutedLines (declaration : CheckDecl) (source : SourceText) : List String :=
  [(if declaration.reusable then "refuted-proof: " else "refuted: ") ++
    declaration.name.text] ++ inductionLine declaration ++ [String.ofList source,
      "parse(print(lift(values))): exact ast identity"]

/-- End a check without counterexample. A proof is admitted. -/
def verified (declaration : CheckDecl) (translation : CheckTranslation) : Run Nat := do
  if declaration.reusable then
    modify fun runtime => { runtime with
      admittedProofs := runtime.admittedProofs ++ [⟨declaration.name, translation.closed⟩] }
  write (verifiedLines declaration)
  pure 0

/-- End a check for which the solver returns values. -/
def refuted (declaration : CheckDecl) (translation : CheckTranslation) (model : Const → Term) :
    Run Nat := do
  let values := translation.formals.map fun formal => model formal.term
  let lifted ← liftAll values (translation.formals.map Formal.type)
  let source := counterexampleSource declaration.name translation.formals lifted
  checkCounterexample declaration.name translation.formals values source
  write (refutedLines declaration source)
  pure (if declaration.reusable then 1 else 0)

/-- The admitted theorems and the query. -/
def CheckTranslation.asserted (translation : CheckTranslation) (runtime : Runtime) : List Term :=
  runtime.admittedProofs.map AdmittedProof.theorem_ ++ [translation.query]

/-- A check where predicates are declared, which refuses `inducts(x)`. -/
def executePredicateCheck (question : CheckDecl → Run Nat) (declaration : CheckDecl) :
    Run Nat := do
  reserveValueName declaration.name declaration.info.span
  if declaration.inductionParameter.isSome then
    reject (declaration.inductionSpan.getD {})
      "predicate membership does not yet implement derivation induction"
  else question declaration

/-- Execute a check or a proof. -/
def executeCheck (solver : Solver) (question : CheckDecl → Run Nat) (declaration : CheckDecl) :
    Run Nat := do
  if !(← get).predicates.isEmpty then executePredicateCheck question declaration
  else
    match declaration.predicateInduction with
    | some target => reject target.span "predicate induction target has no declared predicate"
    | none => do
      let translation ← translateCheck declaration
      let runtime ← get
      match solver runtime.context translation.induction_.isSome (translation.asserted runtime) with
      | .unknown reason =>
        reject declaration.info.span ("counterexample query was unknown: " ++ reason)
      | .unsat => verified declaration translation
      | .sat model => refuted declaration translation model

end Fine.RuntimeDetail
