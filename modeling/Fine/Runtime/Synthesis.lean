import Fine.Runtime.Check
import Fine.Runtime.Refutation

/-!
# Synthesis declarations

Without a match the whole body is synthesized; otherwise each arm that is a hole, over its
constructor's fields, and the match is verified again. Witnesses are lifted, printed, parsed and
elaborated. The synthesis itself and the last solver are parameters.
-/

namespace Fine.RuntimeDetail

open Fine.Syntax Fine.Semantics

def resultName : Identifier := ⟨"result", by decide⟩

/-- The source operator of an admitted operation. -/
def FuncDecl.binaryOp? : FuncDecl → Option BinaryOp
  | .eq => some .equal
  | .ge => some .greaterEqual
  | .le => some .lessEqual
  | .and => some .logicalAnd
  | .or => some .logicalOr
  | .add => some .add
  | .sub => some .subtract
  | _ => none

/-- Lift a term to source; an input is found before the term is looked into. -/
def liftExpression (inputs : List (Identifier × Const)) (term : Term) : Run Expr :=
  match inputs.find? fun entry => term = .constant entry.2 with
  | some entry => pure (.name {} entry.1)
  | none =>
    match term with
    | .app .true [] => pure (.boolean {} true)
    | .app .false [] => pure (.boolean {} false)
    | .numeral value => pure (.integer {} (.ofInt value))
    | .quantified _ _ _ => reject {} "lift encountered a non-application synthesis term"
    | .app .ite [condition, yes, no] => do
      let condition ← liftExpression inputs condition
      let yes ← liftExpression inputs yes
      let no ← liftExpression inputs no
      pure (.conditional {} condition yes no)
    | .constant _ => reject {} "lift encountered an operation outside the admitted synth body"
    | .app decl arguments =>
      match decl.binaryOp? with
      | none => reject {} "lift encountered an operation outside the admitted synth body"
      | some op =>
        match arguments with
        | [left, right] => do
          let left ← liftExpression inputs left
          let right ← liftExpression inputs right
          pure (.binary {} op left right)
        | _ => reject {} "lift encountered a non-binary admitted operation"

/-- What is searched for, and how the witness is read as source. -/
structure Launch where
  synthesizer : RefutationSynthesizer
  /-- The names that a witness may use. -/
  inputs : List (Identifier × Const)
  /-- The scope in which its source is elaborated. -/
  environment : Environment
  resultType : RuntimeType
  span : SourceSpan
  /-- What is said of a witness that does not come back. -/
  message : String

/-- Lift, print, parse and elaborate a witness; it has to be the same again. -/
def Launch.accept (launch : Launch) (witness : Term) : Run Expr := do
  let lifted ← liftExpression launch.inputs witness
  match parseExpression (printExpression lifted) with
  | .error failure => fun _ => .error (.syntax_ failure)
  | .ok reparsed => do
    let roundtrip ← elaborate launch.environment reparsed
    if !roundtrip.type.same launch.resultType || roundtrip.expression != witness then
      reject launch.span launch.message
    else pure lifted

/-- What a synthesis ends with, the solver of other queries, and node numbers. -/
structure SynthesisBackend where
  synthesize : Context → RefutationSynthesizer → Except String SynthesisResult
  solver : Solver
  astId : Term → Nat

def Launch.run (launch : Launch) (backend : SynthesisBackend) : Run (SynthesisResult × Expr) := do
  match backend.synthesize (← get).context launch.synthesizer with
  | .error message => internal message
  | .ok synthesized => do
    let lifted ← launch.accept synthesized.witness
    pure (synthesized, lifted)

def synthesisRules (name : Identifier) (admits : RuntimeType → Bool) (refusal : String) :
    ParameterRules where
  reserved := some (resultName, "`result` is reserved for the synthesis result")
  early := false
  duplicate parameter := "duplicate parameter `" ++ parameter.text ++ "`"
  admits := admits
  refusal := refusal
  internal index := "Fine.synth." ++ name.text ++ ".arg" ++ toString index

def integerRules (runtime : Runtime) (name : Identifier) : ParameterRules :=
  synthesisRules name (fun type => type.same runtime.intType)
    "the first synthesis slice admits only Int parameters"

/-- With a match, parameters are anything but tables. -/
def matchRules (name : Identifier) : ParameterRules :=
  synthesisRules name (fun type => !type.isTable) "synthesis parameters cannot have Table type"

/-- What a synthesis declaration is read as. -/
structure SynthesisFrame where
  declaration : SynthDecl
  resultType : RuntimeType
  formals : List Formal
  specification : Term

/-- Constant for the result. -/
def synthesisResult (declaration : SynthDecl) : Const :=
  ⟨"Fine.synth." ++ declaration.name.text ++ ".result", .int⟩

/-- The conjunction of conditions on parameters and result. -/
def specify (declaration : SynthDecl) (formals : List Formal) : Run Term := do
  let runtime ← get
  let conditions ← elaborateConditions
    ((environmentOf formals).emplace resultName
      ⟨runtime.intType, .constant (synthesisResult declaration)⟩)
    (fun condition => reject condition.span "an ensured condition must have type Bool")
    declaration.ensures
  pure (.conditions conditions)

def openSynthesis (declaration : SynthDecl) : Run SynthesisFrame := do
  reserveValueName declaration.name declaration.info.span
  let resultType ← resolveType declaration.resultType
  let runtime ← get
  if !resultType.same runtime.intType then
    reject declaration.resultType.span "the first synthesis slice returns Int"
  else if declaration.parameters.isEmpty then
    reject declaration.info.span "a synthesized function needs a parameter"
  else do
    let formals ← declareParameters (integerRules runtime declaration.name) 0 []
      declaration.parameters
    let specification ← specify declaration formals
    pure ⟨declaration, resultType, formals, specification⟩

def SynthesisFrame.launch (frame : SynthesisFrame) : Launch where
  synthesizer := .make frame.declaration.name.text (frame.formals.map Formal.term)
    (synthesisResult frame.declaration) frame.specification []
  inputs := frame.formals.map fun formal => (formal.name, formal.term)
  environment := environmentOf frame.formals
  resultType := frame.resultType
  span := frame.declaration.info.span
  message := "parse(print(lift(witness))) violated exact AST identity"

def executeBodySynthesis (backend : SynthesisBackend) (declaration : SynthDecl) : Run Nat := do
  let frame ← openSynthesis declaration
  let (synthesized, lifted) ← frame.launch.run backend
  write ["source-program: synthesized " ++ declaration.name.text ++ " from " ++
      toString synthesized.selections.length ++ " ground instances; core kept " ++
      toString synthesized.core.length,
    String.ofList (printExpression lifted), "verification: no counterexample",
    "parse(print(lift(witness))): exact ast identity (diagnostic ast_id: " ++
      toString (backend.astId synthesized.witness) ++ ")"]
  pure 0

/-- What a declaration with a match is read as. -/
structure MatchFrame extends SynthesisFrame where
  scrutinee : Identifier
  matched : Formal
  /-- Position of the matched parameter. -/
  position : Nat
  datatype : DatatypeInfo

/-- The matched parameter, its position and datatype. -/
def synthesisMatched (scrutinee : SourceSpan) (name : Identifier) (formals : List Formal) :
    Run (Formal × Nat × DatatypeInfo) := do
  match formals.zipIdx.find? fun entry => entry.1.name == name with
  | none => reject scrutinee "the matched name is not a synthesis parameter"
  | some (matched, position) =>
    match matched.type with
    | .datatype _ declared =>
      match (← get).datatypes.lookup declared with
      | some datatype => pure (matched, position, datatype)
      | none => internal "a datatype object without its declaration"
    | _ => reject scrutinee "a synthesis match requires a field-bearing datatype parameter"

def openMatch (declaration : SynthDecl) : Run MatchFrame := do
  reserveValueName declaration.name declaration.info.span
  let resultType ← resolveType declaration.resultType
  if !resultType.same (← get).intType then
    reject declaration.resultType.span "the first match-synthesis slice returns Int"
  else
    match declaration.scrutinee with
    | some (.name info scrutinee) => do
      let formals ← declareParameters (matchRules declaration.name) 0 [] declaration.parameters
      let (matched, position, datatype) ← synthesisMatched info.span scrutinee formals
      let specification ← specify declaration formals
      pure ⟨⟨declaration, resultType, formals, specification⟩, scrutinee, matched, position,
        datatype⟩
    | _ =>
      reject declaration.info.span "a synthesis match must inspect one named parameter directly"

namespace MatchFrame

/-- Constant for a field of a constructor in its arm. -/
def armField (frame : MatchFrame) (item : DatatypeCaseInfo) (field : Nat) (type : RuntimeType) :
    Const :=
  ⟨"Fine.synth." ++ frame.declaration.name.text ++ ".arm." ++ item.name.text ++ ".field" ++
    toString field, type.sort⟩

/-- The constants for the fields of a constructor. -/
def fields (frame : MatchFrame) (item : DatatypeCaseInfo) : List Const :=
  item.fieldTypes.zipIdx.map fun entry => frame.armField item entry.2 entry.1

def accessors (frame : MatchFrame) (item : DatatypeCaseInfo) : List Term :=
  item.fieldTypes.zipIdx.map fun entry =>
    .app (item.accessor entry.2 entry.1) [.constant frame.matched.term]

def others (frame : MatchFrame) : List Formal :=
  (frame.formals.zipIdx.filter fun entry => entry.2 != frame.position).map Prod.fst

def integers (frame : MatchFrame) (intType : RuntimeType) : List (Identifier × Const) :=
  (frame.others.filter fun formal => formal.type.same intType).map fun formal =>
    (formal.name, formal.term)

/-- The matched value in the arm of a constructor. -/
def constructed (frame : MatchFrame) (item : DatatypeCaseInfo) : Term :=
  .app item.constructor ((frame.fields item).map Term.constant)

/-- Bind names to the constants of fields; integers among them are named inputs. -/
def bindFields (frame : MatchFrame) (item : DatatypeCaseInfo) (intType : RuntimeType) :
    Nat → List MatchBinding → List RuntimeType → Environment → List (Identifier × Const) →
    Run (Environment × List (Identifier × Const))
  | field, binding :: bindings, type :: types, environment, named =>
    if binding.name.text = "_" then
      frame.bindFields item intType (field + 1) bindings types environment named
    else if environment.contains binding.name then
      reject binding.span ("duplicate or shadowing pattern binding `" ++ binding.name.text ++ "`")
    else
      let symbol := frame.armField item field type
      frame.bindFields item intType (field + 1) bindings types
        (environment.emplace binding.name ⟨type, .constant symbol⟩)
        (if type.same intType then named ++ [(binding.name, symbol)] else named)
  | _, _, _, environment, named => pure (environment, named)

end MatchFrame

/-- What an arm of a match is read as. -/
structure ArmFrame where
  arm : MatchArm
  item : DatatypeCaseInfo
  /-- The integers in scope that have a name, which are the inputs of the grammar. -/
  named : List (Identifier × Const)
  environment : Environment

/-- The inputs of the grammar, as a hole records them. -/
def ArmFrame.grammarInputs (armFrame : ArmFrame) : List Const := armFrame.named.map Prod.snd

namespace MatchFrame

/-- Read an arm; the matched name is the constructed value. -/
def armFrame (frame : MatchFrame) (seen : List Identifier) (arm : MatchArm) : Run ArmFrame :=
  match frame.datatype.cases.find? fun item => item.name == arm.constructor with
  | none =>
    reject arm.span ("constructor `" ++ arm.constructor.text ++ "` does not belong to `" ++
      frame.datatype.name.text ++ "`")
  | some item =>
    if arm.constructor ∈ seen then
      reject arm.span ("duplicate match arm for `" ++ arm.constructor.text ++ "`")
    else if arm.bindings.length != item.fieldTypes.length then
      reject arm.span ("constructor `" ++ arm.constructor.text ++ "` expects " ++
        toString item.fieldTypes.length ++ " pattern bindings")
    else do
      let intType := (← get).intType
      let (environment, named) ← frame.bindFields item intType 0 arm.bindings item.fieldTypes
        (environmentOf frame.formals) (frame.integers intType)
      pure ⟨arm, item, named,
        (frame.scrutinee, ⟨frame.matched.type, frame.constructed item⟩) :: environment⟩

def armSpecification (frame : MatchFrame) (item : DatatypeCaseInfo) : Term :=
  frame.specification.substitute [(frame.matched.term, frame.constructed item)]

def armLaunch (frame : MatchFrame) (armFrame : ArmFrame) (info : NodeInfo) (hole : Identifier) :
    Launch where
  synthesizer := .make (frame.declaration.name.text ++ "." ++ hole.text)
    (frame.others.map Formal.term ++ frame.fields armFrame.item)
    (synthesisResult frame.declaration) (frame.armSpecification armFrame.item)
    armFrame.grammarInputs
  inputs := armFrame.named
  environment := armFrame.environment
  resultType := frame.resultType
  span := info.span
  message := "open-arm witness failed exact Fine source round trip"

end MatchFrame

mutual

def rejectNestedHole : Expr → Run Unit
  | .hole info _ => reject info.span "a synthesis hole must occupy an entire match arm"
  | .call _ _ elements => rejectNestedHoles elements
  | .tuple _ elements => rejectNestedHoles elements
  | .binary _ _ left right => do
    rejectNestedHole left
    rejectNestedHole right
  | .conditional _ condition yes no => do
    rejectNestedHole condition
    rejectNestedHole yes
    rejectNestedHole no
  | .name _ _ => pure ()
  | .boolean _ _ => pure ()
  | .integer _ _ => pure ()

def rejectNestedHoles : List Expr → Run Unit
  | [] => pure ()
  | element :: elements => do
    rejectNestedHole element
    rejectNestedHoles elements

end

/-- Replacement of a hole by source. -/
structure Replacement where
  hole : Nat
  start : Nat
  stop : Nat
  insert : SourceText

/-- An arm with its value. -/
structure ClosedArm where
  arm : MatchArm
  item : DatatypeCaseInfo
  value : Term
  surface : Expr
  /-- The synthesis of an arm that was a hole, and how the hole is replaced. -/
  synthesis : Option (SynthesisResult × Replacement)

namespace MatchFrame

/-- Synthesize a hole, or elaborate the value. -/
def closeArm (frame : MatchFrame) (backend : SynthesisBackend) (holes : List Identifier)
    (armFrame : ArmFrame) : Run ClosedArm :=
  match armFrame.arm.value with
  | .hole info hole =>
    if hole ∈ holes then
      reject info.span ("duplicate synthesis hole `?" ++ hole.text ++ "`")
    else do
      let (synthesized, lifted) ← (frame.armLaunch armFrame info hole).run backend
      pure ⟨armFrame.arm, armFrame.item, synthesized.witness, lifted, some (synthesized,
        ⟨info.nodeId, info.span.start.offset, info.span.stop.offset, printExpression lifted⟩)⟩
  | value => do
    rejectNestedHole value
    let elaborated ← elaborate armFrame.environment value
    if !elaborated.type.same frame.resultType then
      reject value.span ("match arm must return `" ++ frame.resultType.display ++ "`")
    else pure ⟨armFrame.arm, armFrame.item, elaborated.expression, value, none⟩

/-- Read the arms and close them, one after the other. -/
def closeArms (frame : MatchFrame) (backend : SynthesisBackend) :
    List Identifier → List Identifier → List MatchArm → Run (List ClosedArm)
  | _, _, [] => pure []
  | seen, holes, arm :: arms => do
    let armFrame ← frame.armFrame seen arm
    let closed ← frame.closeArm backend holes armFrame
    let later ← frame.closeArms backend (arm.constructor :: seen)
      (match arm.value with
        | .hole _ hole => hole :: holes
        | _ => holes) arms
    pure (closed :: later)

/-- The guard and the value of an arm. -/
def branch (frame : MatchFrame) (closed : ClosedArm) : Term × Term :=
  (.app closed.item.recognizer [.constant frame.matched.term],
    if (frame.fields closed.item).isEmpty then closed.value
    else closed.value.substitute ((frame.fields closed.item).zip (frame.accessors closed.item)))

def body (frame : MatchFrame) (closed : List ClosedArm) : Term :=
  matchBody (closed.map frame.branch)

/-- The specification fails of the whole match. -/
def counterexampleQuery (frame : MatchFrame) (closed : List ClosedArm) : Term :=
  (frame.specification.substitute
    [(synthesisResult frame.declaration, frame.body closed)]).neg

end MatchFrame

def ClosedArm.syntheses (closed : List ClosedArm) : List (SynthesisResult × Replacement) :=
  closed.filterMap ClosedArm.synthesis

/-- Line of a closed arm. -/
def ClosedArm.line (closed : ClosedArm) : String :=
  "  " ++ closed.arm.constructor.text ++
    (if closed.arm.bindings.isEmpty then ""
      else "(" ++ ", ".intercalate (closed.arm.bindings.map fun binding => binding.name.text) ++
        ")") ++
    " => " ++ String.ofList (printExpression closed.surface) ++ ","

/-- What is written of a match that is verified. -/
def matchLines (frame : MatchFrame) (closed : List ClosedArm) : List String :=
  let syntheses := ClosedArm.syntheses closed
  [(if syntheses.isEmpty then "verified-match: " else "source-match: synthesized ") ++
      frame.declaration.name.text ++ " with " ++ toString syntheses.length ++
      " open arms; selected " ++
      toString (syntheses.map fun entry => entry.1.selections.length).sum ++
      " ground instances; cores kept " ++
      toString (syntheses.map fun entry => entry.1.core.length).sum,
    "match " ++ frame.scrutinee.text ++ " \x7b"] ++
    closed.map ClosedArm.line ++ ["\x7d", "verification: no counterexample"]

/-- Verify a whole match. -/
def verifyMatch (solver : Solver) (frame : MatchFrame) (closed : List ClosedArm) : Run Nat := do
  match solver (← get).context false [frame.counterexampleQuery closed] with
  | .unknown reason =>
    reject frame.declaration.info.span
      ("materialized match verification was unknown: " ++ reason)
  | .sat _ =>
    reject frame.declaration.info.span "materialized match does not satisfy its specification"
  | .unsat => do
    write (matchLines frame closed)
    pure 0

/-- Close the arms, one for every constructor. -/
def closeMatch (backend : SynthesisBackend) (frame : MatchFrame) : Run (List ClosedArm) := do
  let closed ← frame.closeArms backend [] [] frame.declaration.arms
  if frame.declaration.arms.length != frame.datatype.cases.length then
    reject frame.declaration.info.span ("non-exhaustive synthesis match; missing " ++
      missingCases frame.datatype frame.declaration.arms)
  else pure closed

/-- Execute a declaration with a match. -/
def executeMatchSynthesis (backend : SynthesisBackend) (declaration : SynthDecl) : Run Nat := do
  let frame ← openMatch declaration
  let closed ← closeMatch backend frame
  verifyMatch backend.solver frame closed

/-- Execute a synthesis declaration. -/
def executeSynthesis (backend : SynthesisBackend) (declaration : SynthDecl) : Run Nat :=
  if declaration.scrutinee.isSome then executeMatchSynthesis backend declaration
  else executeBodySynthesis backend declaration

end Fine.RuntimeDetail
