import Fine.Runtime.Launched
import Fine.Runtime.Stripped
import Fine.Syntax.Accepted

/-!
# What a synthesis accepts

The assembled term satisfies its specification. Candidates for a hole are over its recorded inputs,
unless there are none and an integer field has no name.
-/

namespace Fine.RuntimeDetail

open Fine.Syntax Fine.Semantics Fine.Fallible List

variable {runtime later : Runtime} {launch : Launch}

/-! ## Assembled cores -/

namespace RefutationSynthesizer

variable {synthesizer : RefutationSynthesizer} {interp : Interp} {solver : CoreSolver}
  {simplify : Term → Term} {search : SynthesisSearch} {core : List Term}

theorem not_satisfiable_of_covers (inhabited : synthesizer.Inhabited interp) {term : Term}
    (covers : ∀ point : synthesizer.Input interp, synthesizer.Covers interp term point.1) :
    ¬ Satisfiable interp [(synthesizer.specified term).neg] := by
  rintro ⟨assignment, sorted, models⟩
  have fails := (models_neg _).mp (models _ (mem_singleton_self _))
  -- The other parameters are given elements; the constants of the query have theirs.
  let point : synthesizer.Input interp := ⟨settle interp assignment, fun parameter member =>
    settle_sorted assignment (inhabited parameter member)⟩
  refine fails ((models_congr _ fun symbol member => ?_).mp (covers point))
  refine settle_of_sorted (sorted symbol ?_)
  rw [flatMap_singleton, Term.neg, Term.constants, Term.constantsAll_eq, flatMap_singleton]
  exact member

/-- A term that satisfies the specification is a witness, unless the solver gives up. -/
theorem finish_of_covers (valid : synthesizer.Valid) (inhabited : synthesizer.Inhabited interp)
    {first : SynthesisSelection} {rest : List SynthesisSelection}
    (assembled : coreSelections search.selections core = first :: rest)
    (covers : ∀ point : synthesizer.Input interp,
      synthesizer.Covers interp (synthesizer.assemble first rest) point.1)
    (preserves : ∀ point : synthesizer.Input interp,
      eval interp (simplify (synthesizer.assemble first rest)) point.1 =
        eval interp (synthesizer.assemble first rest) point.1)
    (right : ∀ model,
      solver search.querySequence
        [(synthesizer.specified (simplify (synthesizer.assemble first rest))).neg] [] = .sat model →
      Satisfiable interp
        [(synthesizer.specified (simplify (synthesizer.assemble first rest))).neg]) :
    (∃ result, synthesizer.finish solver simplify search core = .ok result) ∨
      ∃ reason, synthesizer.finish solver simplify search core =
        .error ("synthesized candidate verification was unknown: " ++ reason) := by
  have simplified : ∀ point : synthesizer.Input interp, synthesizer.Covers interp
      (simplify (synthesizer.assemble first rest)) point.1 := fun point =>
    (covers_congr valid (preserves point)).mpr (covers point)
  simp only [finish, assembled]
  cases answer : solver search.querySequence
      [(synthesizer.specified (simplify (synthesizer.assemble first rest))).neg] [] with
  | sat model => exact absurd (right model answer) (not_satisfiable_of_covers inhabited simplified)
  | unsat => exact .inl ⟨_, rfl⟩
  | unknown reason => exact .inr ⟨reason, rfl⟩

end RefutationSynthesizer

open RefutationSynthesizer in
/-- Where the loops end with a refuted core of the assumptions, the core has a selection, the
assembled term satisfies the specification at every input, and if simplification keeps its meaning
the run ends with a witness unless the solver gives up on the last query. -/
theorem launched_core_verifies (launches : Launches runtime launch) {interp : Interp}
    (free : runtime.Free interp) {solver : CoreSolver} {queries : Nat} {search : SynthesisSearch}
    {core : List Term}
    (ended : launch.synthesizer.search solver queries = .refuted search core)
    (assumed : ∀ term ∈ core, term ∈ search.active)
    (refuted : ¬ Satisfiable interp (search.gamma ++ core)) :
    ∃ first rest, coreSelections search.selections core = first :: rest ∧
      (∀ point : launch.synthesizer.Input interp,
        launch.synthesizer.Covers interp (launch.synthesizer.assemble first rest) point.1) ∧
      ∀ simplify : Term → Term,
        (∀ point : launch.synthesizer.Input interp,
          eval interp (simplify (launch.synthesizer.assemble first rest)) point.1 =
            eval interp (launch.synthesizer.assemble first rest) point.1) →
        (∀ model, solver search.querySequence
            [(launch.synthesizer.specified
              (simplify (launch.synthesizer.assemble first rest))).neg] [] = .sat model →
          Satisfiable interp [(launch.synthesizer.specified
            (simplify (launch.synthesizer.assemble first rest))).neg]) →
        (∃ result, launch.synthesizer.run solver simplify queries = some (.ok result)) ∨
          ∃ reason, launch.synthesizer.run solver simplify queries =
            some (.error ("synthesized candidate verification was unknown: " ++ reason)) := by
  have valid := launches.of.valid
  have inhabited := launches.inhabited free
  obtain ⟨first, rest, members, covers⟩ := assemble_covers valid inhabited ended assumed refuted
  refine ⟨first, rest, members, covers, fun simplify preserves right => ?_⟩
  have finished := finish_of_covers valid inhabited members covers preserves right
  simp only [run, ended, Option.some.injEq]
  exact finished

/-- A result that is neither below the parameter nor below zero is asked for. -/
def boundDeclaration : SynthDecl where
  info := {}
  name := ⟨"bound", by decide⟩
  parameters := [⟨{}, ⟨"x", by decide⟩, .named {} intName⟩]
  resultType := .named {} intName
  scrutinee := none
  arms := []
  ensures := [.binary {} .greaterEqual (.name {} resultName) (.name {} ⟨"x", by decide⟩),
    .binary {} .greaterEqual (.name {} resultName) (.integer {} (.ofInt 0))]

def boundParameter : Const := ⟨"Fine.synth.bound.arg0", .int⟩

/-- What it is read as. -/
def boundFrame : SynthesisFrame where
  declaration := boundDeclaration
  resultType := .integer 1
  formals := [⟨⟨"x", by decide⟩, .integer 1, boundParameter⟩]
  specification := .conditions
    [.app .ge [.constant (synthesisResult boundDeclaration), .constant boundParameter],
      .app .ge [.constant (synthesisResult boundDeclaration), .numeral 0]]

/-- The labels of the first two candidates. -/
def boundCore : List Term :=
  [.constant (boundFrame.launch.synthesizer.label 0),
    .constant (boundFrame.launch.synthesizer.label 1)]

/-- The parameter at a counterexample. -/
def boundInput : Const := boundFrame.launch.synthesizer.counterexampleParameter 0 boundParameter

/-- Under its label, a selected candidate does not meet the conditions. -/
def boundAsserted (index : Nat) (term : Term) : Term :=
  (Term.constant (boundFrame.launch.synthesizer.label index)).imp
    (Term.conditions [.app .ge [term, .constant boundInput], .app .ge [term, .numeral 0]]).neg

/-- The first two candidates cover everything together. -/
def boundSolver : CoreSolver := fun number _ _ =>
  if number < 4 then .sat fun _ => .numeral 0 else .unsat boundCore

open RefutationSynthesizer in
/-- The parameter and zero, the core, are assembled as a conditional. -/
theorem bound_core_verifies : ∃ runtime search first second,
    (openSynthesis boundDeclaration).run .initial = .ok (boundFrame, runtime) ∧
      boundFrame.launch.synthesizer.search boundSolver 5 = .refuted search boundCore ∧
      coreSelections search.selections boundCore = [first, second] ∧
      boundFrame.launch.synthesizer.assemble first [second] =
        .app .ite [boundFrame.launch.synthesizer.specified (.numeral 0), .numeral 0,
          .constant boundParameter] ∧
      ∀ point : boundFrame.launch.synthesizer.Input undeclared,
        boundFrame.launch.synthesizer.Covers undeclared
          (boundFrame.launch.synthesizer.assemble first [second]) point.1 := by
  obtain ⟨runtime, read, datatypes, enums⟩ : ∃ runtime, (openSynthesis boundDeclaration).run
      .initial = .ok (boundFrame, runtime) ∧ runtime.datatypes = [] ∧ runtime.enums = [] :=
    ⟨_, rfl, rfl, rfl⟩
  have free : runtime.Free undeclared := by
    constructor
    · intro name info found
      rw [datatypes] at found
      cases found
    · intro name info found
      rw [enums] at found
      cases found
  obtain ⟨search, ended, active, selections, gamma⟩ : ∃ search,
      boundFrame.launch.synthesizer.search boundSolver 5 = .refuted search boundCore ∧
      search.active = boundCore ∧ (∃ first second,
        coreSelections search.selections boundCore = [first, second] ∧
        first.term = .constant boundParameter ∧ second.term = .numeral 0) ∧
      search.gamma = [boundAsserted 0 (.constant boundInput), boundAsserted 1 (.numeral 0)] :=
    ⟨_, rfl, rfl, ⟨_, _, rfl, rfl, rfl⟩, rfl⟩
  obtain ⟨first, second, both, one, two⟩ := selections
  obtain ⟨first', rest', members, covers, -⟩ := launched_core_verifies (.body .initial read)
    free ended (fun term member => active ▸ member) (by
      rintro ⟨assignment, -, models⟩
      have fails (index : Nat) (term : Term)
          (label : .constant (boundFrame.launch.synthesizer.label index) ∈ boundCore)
          (asserted : boundAsserted index term ∈ search.gamma) :
          ¬ ((assignment boundInput).number ≤ (eval undeclared term assignment).number ∧
            0 ≤ (eval undeclared term assignment).number) := by
        have holds := (models_imp _ _).mp (models _ (mem_append_left _ asserted))
          (models _ (mem_append_right _ label))
        rw [models_neg, Term.conditions, models_conjunction] at holds
        simpa [Models, Term.boolVal, eval, FuncDecl.apply, operate, Element.number] using holds
      have one := fails 0 (.constant boundInput) (by simp [boundCore]) (by simp [gamma])
      have two := fails 1 (.numeral 0) (by simp [boundCore]) (by simp [gamma])
      have value : (eval undeclared (.numeral 0) assignment).number = 0 := rfl
      have same : eval undeclared (.constant boundInput) assignment = assignment boundInput := rfl
      rw [value] at two
      rw [same] at one
      omega)
  rw [both] at members
  cases members
  refine ⟨runtime, search, first, second, read, ended, both, ?_, covers⟩
  rw [assemble, foldl_cons, foldl_nil, one, two]

/-! ## Lifted witnesses -/

/-- What a term over named inputs is lifted to. -/
inductive Lifts (inputs : List (Identifier × Const)) : Term → Expr → Prop where
  | input {entry : Identifier × Const} (member : entry ∈ inputs) :
      Lifts inputs (.constant entry.2) (.name {} entry.1)
  | boolean (value : Bool) : Lifts inputs (.boolVal value) (.boolean {} value)
  | numeral (value : Int) : Lifts inputs (.numeral value) (.integer {} (.ofInt value))
  | conditional {condition yes no : Term} {condition' yes' no' : Expr}
      (first : Lifts inputs condition condition') (second : Lifts inputs yes yes')
      (third : Lifts inputs no no') :
      Lifts inputs (.app .ite [condition, yes, no]) (.conditional {} condition' yes' no')
  | binary {decl : FuncDecl} {op : BinaryOp} {left right : Term} {left' right' : Expr}
      (operator : decl.binaryOp? = some op) (first : Lifts inputs left left')
      (second : Lifts inputs right right') :
      Lifts inputs (.app decl [left, right]) (.binary {} op left' right')

/-- What is lifted, is lifted by the rules. -/
theorem liftExpression_ok {inputs : List (Identifier × Const)} {term : Term} {lifted : Expr}
    (run : (liftExpression inputs term).run runtime = .ok (lifted, later)) :
    runtime = later ∧ Lifts inputs term lifted := by
  induction term generalizing runtime later lifted with
  | constant symbol =>
    rw [liftExpression] at run
    split at run
    · rename_i entry found
      cases run
      have same := find?_some found
      have member := mem_of_find?_eq_some found
      rw [decide_eq_true_eq] at same
      rw [same]
      exact ⟨rfl, .input member⟩
    · cases run
  | numeral value =>
    rw [liftExpression] at run
    split at run
    · rename_i entry found
      have same := find?_some found
      simp at same
    · cases run
      exact ⟨rfl, .numeral value⟩
  | quantified universal bound body ih =>
    rw [liftExpression] at run
    split at run
    · rename_i entry found
      have same := find?_some found
      simp at same
    · cases run
  | app decl arguments ih =>
    rw [liftExpression.eq_def] at run
    split at run
    · rename_i entry found
      have same := find?_some found
      simp at same
    split at run
    · rename_i shape
      cases shape
      cases run
      exact ⟨rfl, .boolean true⟩
    · rename_i shape
      cases shape
      cases run
      exact ⟨rfl, .boolean false⟩
    · rename_i shape
      cases shape
    · cases run
    · rename_i condition yes no shape
      cases shape
      obtain ⟨condition', first, ran, run⟩ := run_bind_ok run
      obtain ⟨rfl, one⟩ := ih condition (by simp) ran
      obtain ⟨yes', second, ran, run⟩ := run_bind_ok run
      obtain ⟨rfl, two⟩ := ih yes (by simp) ran
      obtain ⟨no', third, ran, run⟩ := run_bind_ok run
      obtain ⟨rfl, three⟩ := ih no (by simp) ran
      cases run
      exact ⟨rfl, .conditional one two three⟩
    · cases run
    · rename_i shape
      cases shape
      split at run
      · cases run
      rename_i op operator
      split at run
      · rename_i left right _ _ _ _
        obtain ⟨left', first, ran, run⟩ := run_bind_ok run
        obtain ⟨rfl, one⟩ := ih left (by simp) ran
        obtain ⟨right', second, ran, run⟩ := run_bind_ok run
        obtain ⟨rfl, two⟩ := ih right (by simp) ran
        cases run
        exact ⟨rfl, .binary operator one two⟩
      · cases run

/-- The type of lifted terms of a sort. -/
def Runtime.liftedType (runtime : Runtime) : Z3Sort → Option RuntimeType
  | .int => some runtime.intType
  | .bool => some runtime.boolType
  | _ => none

namespace Lifts

variable {inputs : List (Identifier × Const)} {term : Term} {lifted : Expr}

theorem constants (lifts : Lifts inputs term lifted) :
    ∀ symbol ∈ term.constants, symbol ∈ inputs.map Prod.snd := by
  induction lifts with
  | input member =>
    intro symbol here
    rw [mem_singleton.mp here]
    exact mem_map_of_mem member
  | boolean value => cases value <;> simp [Term.boolVal, Term.constants, Term.constantsAll_eq]
  | numeral value => simp [Term.constants]
  | conditional _ _ _ first second third =>
    simp only [Term.constants, Term.constantsAll_eq, flatMap_cons, flatMap_nil,
      append_nil, mem_append]
    rintro symbol (here | here | here)
    · exact first symbol here
    · exact second symbol here
    · exact third symbol here
  | binary _ _ _ first second =>
    simp only [Term.constants, Term.constantsAll_eq, flatMap_cons, flatMap_nil,
      append_nil, mem_append]
    rintro symbol (here | here)
    · exact first symbol here
    · exact second symbol here

theorem readable (lifts : Lifts inputs term lifted) : lifted.readable = true := by
  induction lifts with
  | input | boolean | numeral => rfl
  | conditional _ _ _ first second third => simp [Expr.readable, first, second, third]
  | binary _ _ _ first second => simp [Expr.readable, first, second]

variable {sort : Z3Sort} {decl : FuncDecl}

theorem liftedType_flat (valid : runtime.Valid) {type : RuntimeType}
    (known : runtime.liftedType sort = some type) : type.isTable = false := by
  obtain ⟨first, int⟩ := valid.types.int_eq
  obtain ⟨second, bool⟩ := valid.types.bool_eq
  cases sort with
  | int => rw [← Option.some.inj known, int]; rfl
  | bool => rw [← Option.some.inj known, bool]; rfl
  | datatype | tuple | array => cases known

/-- Operations on operands of their sorts. -/
theorem elaborateBinary_of_range (valid : runtime.Valid) {op : BinaryOp}
    (operator : decl.binaryOp? = some op) {one two : Z3Sort}
    (range : decl.range? [one, two] = some sort) {first second : RuntimeType}
    (left : runtime.liftedType one = some first) (right : runtime.liftedType two = some second)
    (span : SourceSpan) (x y : Term) :
    ∃ type, runtime.liftedType sort = some type ∧
      (elaborateBinary span op ⟨first, x⟩ ⟨second, y⟩).run runtime =
        .ok (⟨type, .app decl [x, y]⟩, runtime) := by
  have flat := liftedType_flat valid left
  have operates : ∀ operand result : RuntimeType, first = operand → second = operand →
      ∀ message, (elaborateOperator span operand result decl message ⟨first, x⟩ ⟨second, y⟩).run
        runtime = .ok (⟨result, .app decl [x, y]⟩, runtime) := by
    intro operand result isFirst isSecond message
    subst isFirst isSecond
    simp [elaborateOperator, RuntimeType.same]
    rfl
  cases decl with
  | eq =>
    cases operator
    rw [FuncDecl.range?] at range
    split at range
    · rename_i same
      subst same
      cases range
      obtain rfl := Option.some.inj (left.symm.trans right)
      refine ⟨_, rfl, ?_⟩
      simp [elaborateBinary, RuntimeType.same, flat]
      rfl
    · cases range
  | ge | le | add | sub | and | or =>
    cases operator
    cases one <;> cases two <;> cases range
    exact ⟨_, rfl, operates _ _ (Option.some.inj left).symm (Option.some.inj right).symm _⟩
  | true | false | not | implies | ite | constructor | recognizer | accessor | tuple | function
  | relation | constArray | store | select => cases operator

theorem sorts_of_two {left right : Term}
    (sorted : (Term.app decl [left, right]).sort? = some sort) :
    ∃ first second, left.sort? = some first ∧ right.sort? = some second ∧
      decl.range? [first, second] = some sort := by
  simp only [Term.sort?, Term.sorts?, Option.pure_def, Option.bind_eq_bind,
    Option.bind_eq_some_iff, Option.some.injEq] at sorted
  obtain ⟨_, ⟨first, one, _, ⟨second, two, _, rfl, rfl⟩, rfl⟩, range⟩ := sorted
  exact ⟨first, second, one, two, range⟩

/-- Where the inputs are integers, a lifted term is elaborated as itself. -/
theorem elaborates (valid : runtime.Valid) {environment : Environment}
    (scope : ∀ entry ∈ inputs, entry.2.sort = .int ∧
      environment.lookup entry.1 = some ⟨runtime.intType, .constant entry.2⟩)
    (lifts : Lifts inputs term lifted) (sorted : term.sort? = some sort) :
    ∃ type, runtime.liftedType sort = some type ∧
      (elaborate environment lifted).run runtime = .ok (⟨type, term⟩, runtime) := by
  induction lifts generalizing sort with
  | @input entry member =>
    obtain ⟨isInt, found⟩ := scope entry member
    rw [Term.sort?, isInt, Option.some.injEq] at sorted
    subst sorted
    refine ⟨_, rfl, ?_⟩
    rw [elaborate, elaborateName, found]
    rfl
  | boolean value =>
    obtain rfl : sort = .bool := by cases value <;> exact (Option.some.inj sorted).symm
    exact ⟨_, rfl, rfl⟩
  | numeral value =>
    cases sorted
    refine ⟨_, rfl, ?_⟩
    rw [elaborate, run_get_bind, IntegerText.value_ofInt]
    rfl
  | conditional _ _ _ first second third =>
    simp only [Term.sort?, Term.sorts?, Option.pure_def, Option.bind_eq_bind,
      Option.bind_eq_some_iff, Option.some.injEq] at sorted
    obtain ⟨_, ⟨one, isOne, _, ⟨two, isTwo, _, ⟨three, isThree, _, rfl, rfl⟩, rfl⟩, rfl⟩, range⟩ :=
      sorted
    obtain ⟨conditionType, conditionKind, ranCondition⟩ := first isOne
    obtain ⟨yesType, yesKind, ranYes⟩ := second isTwo
    obtain ⟨noType, noKind, ranNo⟩ := third isThree
    cases one with
    | bool =>
      rw [FuncDecl.range?] at range
      split at range
      · rename_i same
        subst same
        cases range
        obtain rfl := Option.some.inj (yesKind.symm.trans noKind)
        obtain rfl := Option.some.inj conditionKind
        refine ⟨yesType, yesKind, ?_⟩
        rw [elaborate, run_bind_of_ok ranCondition, run_bind_of_ok ranYes, run_bind_of_ok ranNo]
        simp [elaborateConditional, RuntimeType.same]
        rfl
      · cases range
    | int | datatype | tuple | array => cases range
  | @binary decl op left right left' right' operator _ _ first second =>
    obtain ⟨one, two, isLeft, isRight, range⟩ := sorts_of_two sorted
    obtain ⟨leftType, leftKind, ranLeft⟩ := first isLeft
    obtain ⟨rightType, rightKind, ranRight⟩ := second isRight
    rw [elaborate, run_bind_of_ok ranLeft, run_bind_of_ok ranRight]
    exact elaborateBinary_of_range valid operator range leftKind rightKind _ _ _

end Lifts

/-- An integer that is lifted over the inputs of a synthesis, printed, parsed and elaborated in its
scope is the same term, so it is accepted. -/
theorem launched_witness_exact (launches : Launches runtime launch) {witness : Term}
    (isInt : witness.sort? = some .int) {lifted : Expr}
    (ran : (liftExpression launch.inputs witness).run runtime = .ok (lifted, later)) :
    (∃ reparsed, parseExpression (printExpression lifted) = .ok reparsed ∧
      (elaborate launch.environment reparsed).run runtime =
        .ok (⟨runtime.intType, witness⟩, runtime)) ∧
    (launch.accept witness).run runtime = .ok (lifted, runtime) := by
  have of := launches.of
  have valid := launches.reached.inOrder.formed.toValid
  obtain ⟨rfl, lifts⟩ := liftExpression_ok ran
  obtain ⟨reparsed, parsed, same⟩ := (readsBack lifted lifts.readable).parses
  obtain ⟨type, known, elaborated⟩ := lifts.elaborates valid of.inputs isInt
  obtain rfl := Option.some.inj known
  have roundtrip := (elaborate_agrees same _ _).mpr elaborated
  refine ⟨⟨reparsed, parsed, roundtrip⟩, ?_⟩
  have result : runtime.intType.same launch.resultType = true := by
    rw [RuntimeType.same, beq_iff_eq]
    exact (beq_iff_eq.mp of.result).symm
  rw [Launch.accept, run_bind_of_ok ran]
  simp only [parsed]
  rw [run_bind_of_ok roundtrip]
  simp [result]
  rfl

/-- A conditional over the parameter is accepted. -/
theorem bound_witness_exact : ∃ runtime lifted,
    (openSynthesis boundDeclaration).run .initial = .ok (boundFrame, runtime) ∧
      (boundFrame.launch.accept (.app .ite [.app .ge [.constant boundParameter, .numeral (-1)],
        .constant boundParameter, .app .sub [.numeral 0, .constant boundParameter]])).run runtime =
          .ok (lifted, runtime) := by
  obtain ⟨runtime, read⟩ : ∃ runtime, (openSynthesis boundDeclaration).run .initial =
      .ok (boundFrame, runtime) := ⟨_, rfl⟩
  exact ⟨runtime, _, read, (launched_witness_exact (.body .initial read) rfl rfl).2⟩

/-! ## Grammars of holes -/

/-- An integer field has no name in the pattern of an arm. -/
def ArmFrame.Blank (armFrame : ArmFrame) (intType : RuntimeType) : Prop :=
  ∃ (place : Nat) (binding : MatchBinding) (type : RuntimeType),
    armFrame.arm.bindings[place]? = some binding ∧
      armFrame.item.fieldTypes[place]? = some type ∧ binding.name.text = "_" ∧
        type.same intType = true

namespace RefutationSynthesizer

variable {synthesizer : RefutationSynthesizer} {solver : CoreSolver} {search : SynthesisSearch}

theorem Reaches.grammar (valid : synthesizer.Valid)
    (reaches : Reaches solver synthesizer search) :
    (∀ found, search.selected = some found →
      Grammar synthesizer.grammarInputs found.size found.term) ∧
    ∀ selection ∈ search.selections,
      ∃ size, Grammar synthesizer.grammarInputs size selection.term := by
  obtain ⟨taken, running⟩ := reaches.running valid
  constructor
  · intro found testing
    obtain ⟨index, -, rfl⟩ := running.testing found testing
    exact candidate_grammar _ _
  · intro selection member
    obtain ⟨index, -, same⟩ := running.origins selection member
    rw [same]
    exact ⟨_, candidate_grammar _ _⟩

theorem reaches_first {model : Const → Term} (asked : solver 0 [] [] = .sat model) :
    Reaches solver synthesizer
      (SynthesisSearch.initial synthesizer.grammarInputs).advance := by
  refine .step .initial ?_
  simp only [step, SynthesisSearch.initial, SynthesisSearch.gamma, SynthesisSearch.active,
    map_nil, asked]

/-- A witness is assembled from selected candidates. -/
theorem run_ok {simplify : Term → Term} {queries : Nat} {result : SynthesisResult}
    (ran : synthesizer.run solver simplify queries = some (.ok result)) :
    ∃ final first rest, Reaches solver synthesizer final ∧ result.core = first :: rest ∧
      result.assembled = synthesizer.assemble first rest ∧
      result.witness = simplify result.assembled ∧
      ∀ selection ∈ first :: rest, selection ∈ final.selections := by
  unfold run at ran
  split at ran
  · rename_i final core ended
    obtain ⟨last, reaches, rfl⟩ := searchFrom_refuted .initial ended
    unfold finish at ran
    split at ran
    · cases ran
    · rename_i first rest assembled
      dsimp only at ran
      split at ran
      · cases ran
      · cases ran
      · cases ran
        refine ⟨last, first, rest, reaches, rfl, rfl, rfl, fun selection member => ?_⟩
        rw [← assembled] at member
        exact (mem_filter.mp member).1
  · cases ran
  · cases ran

end RefutationSynthesizer

variable {frame : MatchFrame} {armFrame : ArmFrame}

/-- Integers of an arm are inputs of its grammar, except fields without a name. -/
theorem ArmFrame.Of.integer_cases {arm : MatchArm} (of : armFrame.Of frame arm runtime)
    (read : frame.Of runtime) (formed : runtime.WellFormed) {symbol : Const}
    (member : symbol ∈ frame.others.map Formal.term ++ frame.fields armFrame.item)
    (isInt : symbol.sort = .int) :
    symbol ∈ armFrame.grammarInputs ∨ armFrame.Blank runtime.intType := by
  have valid := formed.toValid
  have same : ∀ type ∈ runtime.objects, type.sort = .int → type.same runtime.intType = true := by
    intro type listed sort
    refine (valid.types.same_iff listed valid.types.int_mem).mpr ?_
    rw [RuntimeType.meaning, sort, RuntimeType.meaning, valid.intType_sort]
  have input : ∀ formal ∈ frame.others ++ fields frame armFrame,
      formal.type.same runtime.intType = true → formal.term ∈ armFrame.grammarInputs := by
    intro formal inside integer
    rw [grammarInputs, of.named_eq]
    exact mem_map.mpr ⟨_, mem_integersOf.mpr ⟨formal, inside, integer, rfl⟩, rfl⟩
  rcases mem_append.mp member with other | field
  · obtain ⟨formal, inside, rfl⟩ := mem_map.mp other
    obtain ⟨refusal, formals⟩ := read.base.formals
    have parameter := MatchFrame.Of.others_subset inside
    rw [formals.term_sort parameter] at isInt
    exact .inl (input formal (mem_append_left _ inside)
      (same _ (formals.listed formal parameter) isInt))
  · obtain ⟨place, type, at_, rfl⟩ := MatchFrame.Of.mem_fields.mp field
    have integer := same type (read.fieldTypes_listed formed of.item (mem_of_getElem? at_)) isInt
    have inside : place < arm.bindings.length := by
      rw [of.arity]
      exact (List.getElem?_eq_some_iff.mp at_).1
    have binding := List.getElem?_eq_getElem inside
    by_cases blank : arm.bindings[place].name.text = "_"
    · exact .inr ⟨place, _, type, by rw [of.same]; exact binding, at_, blank, integer⟩
    · refine .inl (input ⟨arm.bindings[place].name, type, frame.armField armFrame.item place type⟩
        (mem_append_right _ (MatchFrame.mem_boundFields.mpr
          ⟨place, _, type, by rw [of.same]; exact binding, at_, blank, ?_⟩)) integer)
      rw [Nat.zero_add]

theorem ArmFrame.Blank.parameter (blank : armFrame.Blank runtime.intType) (valid : runtime.Valid)
    (listed : ∀ type ∈ armFrame.item.fieldTypes, type ∈ runtime.objects) :
    ∃ symbol ∈ frame.others.map Formal.term ++ frame.fields armFrame.item,
      symbol.sort = .int := by
  obtain ⟨place, -, type, -, at_, -, same⟩ := blank
  refine ⟨frame.armField armFrame.item place type, mem_append_right _
    (MatchFrame.Of.mem_fields.mpr ⟨place, type, at_, rfl⟩), ?_⟩
  have int := valid.eq_intType (listed type (mem_of_getElem? at_)) same
  rw [MatchFrame.armField, int, valid.intType_sort]

open RefutationSynthesizer in
/-- The inputs that a hole records are the integers among the parameters that are not matched and
the fields that its pattern names. What is tested and selected is made of these, `0`, `1`, `+` and
`-`, and a witness of such terms, exactly if there are inputs or no integer field goes without a
name. A witness has the selected terms for branches and the specification at them for conditions,
which no grammar gives. What is accepted mentions recorded inputs only. -/
theorem hole_grammar_iff {start middle : Runtime} {declaration : SynthDecl} {frame : MatchFrame}
    {seen : List Identifier} {arm : MatchArm} {armFrame : ArmFrame} {info : NodeInfo}
    {hole : Identifier} (reached : Reached start)
    (read : (openMatch declaration).run start = .ok (frame, middle))
    (advances : Advances middle runtime) (member : arm ∈ declaration.arms)
    (pattern : (frame.armFrame seen arm).run runtime = .ok (armFrame, runtime))
    (value : arm.value = .hole info hole) {solver : CoreSolver} {model : Const → Term}
    (asked : solver 0 [] [] = .sat model) :
    armFrame.grammarInputs = (integersOf runtime.intType
      (frame.others ++ ArmFrame.Of.fields frame armFrame)).map Prod.snd ∧
    (((∀ search, Reaches solver (frame.armLaunch armFrame info hole).synthesizer search →
        (∀ found, search.selected = some found →
          Grammar armFrame.grammarInputs found.size found.term) ∧
        ∀ selection ∈ search.selections,
          ∃ size, Grammar armFrame.grammarInputs size selection.term) ∧
      (∀ simplify queries result, (frame.armLaunch armFrame info hole).synthesizer.run solver
          simplify queries = some (.ok result) →
        ∃ first rest, result.core = first :: rest ∧
          result.assembled =
            (frame.armLaunch armFrame info hole).synthesizer.assemble first rest ∧
          result.witness = simplify result.assembled ∧
          ∀ selection ∈ first :: rest,
            ∃ size, Grammar armFrame.grammarInputs size selection.term) ∧
      ∀ witness lifted later,
        ((frame.armLaunch armFrame info hole).accept witness).run runtime = .ok (lifted, later) →
        ∀ symbol ∈ witness.constants, symbol ∈ armFrame.grammarInputs) ↔
    (armFrame.grammarInputs ≠ [] ∨ ¬ armFrame.Blank runtime.intType)) := by
  have launches : Launches runtime (frame.armLaunch armFrame info hole) :=
    .arm reached read advances member pattern value
  have formed := launches.reached.inOrder.formed
  have opened := (openMatch_ok reached.inOrder.formed.toValid read).2.advances advances
  have of := MatchFrame.armFrame_ok pattern
  refine ⟨by rw [ArmFrame.grammarInputs, of.named_eq], ?_, ?_⟩
  · rintro ⟨tested, -⟩
    by_contra neither
    push Not at neither
    obtain ⟨none, blank⟩ := neither
    -- All parameters are taken, and the first candidate is one of them.
    have inputs : (frame.armLaunch armFrame info hole).synthesizer.grammarInputs =
        frame.others.map Formal.term ++ frame.fields armFrame.item := by
      simp [MatchFrame.armLaunch, RefutationSynthesizer.make, none]
    obtain ⟨symbol, inside, isInt⟩ := blank.parameter formed.toValid fun type =>
      opened.fieldTypes_listed formed of.item
    obtain ⟨other, first⟩ := candidate_zero inside isInt
    have grammar := (tested _ (reaches_first asked)).1 _ rfl
    change Grammar _ (candidate _ 0).size (candidate _ 0).term at grammar
    rw [inputs, first, none] at grammar
    cases grammar.of_constant
  · intro condition
    have within : ∀ search, Reaches solver (frame.armLaunch armFrame info hole).synthesizer search →
        (∀ found, search.selected = some found →
          Grammar armFrame.grammarInputs found.size found.term) ∧
        ∀ selection ∈ search.selections,
          ∃ size, Grammar armFrame.grammarInputs size selection.term := by
      intro search reaches
      obtain ⟨tested, selected⟩ := reaches.grammar launches.of.valid
      have more : ∀ symbol ∈ (frame.armLaunch armFrame info hole).synthesizer.grammarInputs,
          symbol.sort = .int → symbol ∈ armFrame.grammarInputs := by
        intro symbol inside isInt
        change symbol ∈ if armFrame.grammarInputs.isEmpty then _ else armFrame.grammarInputs
          at inside
        split at inside
        · rename_i none
          have named : ¬ armFrame.Blank runtime.intType :=
            condition.resolve_left (by simpa using none)
          exact (of.integer_cases opened formed inside isInt).resolve_right named
        · exact inside
      exact ⟨fun found testing => (tested found testing).mono more, fun selection inside =>
        (selected selection inside).imp fun size grammar => grammar.mono more⟩
    refine ⟨within, fun simplify queries result ran => ?_, ?_⟩
    · obtain ⟨final, first, rest, reaches, core, assembled, witness, members⟩ := run_ok ran
      exact ⟨first, rest, core, assembled, witness, fun selection member =>
        (within final reaches).2 selection (members selection member)⟩
    · intro witness lifted later accepted symbol inside
      unfold Launch.accept at accepted
      obtain ⟨_, _, ran, -⟩ := run_bind_ok accepted
      exact (liftExpression_ok ran).2.constants symbol inside

/-- A type with one constructor, of one integer. -/
def boxDeclaration : EnumDecl :=
  ⟨{}, ⟨"Box", by decide⟩, [⟨{}, ⟨"wrap", by decide⟩,
    [⟨{}, valueName, .named {} intName⟩]⟩]⟩

def pickHole : Identifier := ⟨"hole", by decide⟩

def pickArm (binding : Identifier) : MatchArm :=
  ⟨{}, ⟨"wrap", by decide⟩, [⟨{}, binding⟩], .hole {} pickHole⟩

/-- A match on the type. -/
def pickDeclaration (binding : Identifier) : SynthDecl where
  info := {}
  name := ⟨"pick", by decide⟩
  parameters := [⟨{}, ⟨"box", by decide⟩, .named {} ⟨"Box", by decide⟩⟩]
  resultType := .named {} intName
  scrutinee := some (.name {} ⟨"box", by decide⟩)
  arms := [pickArm binding]
  ensures := [.binary {} .greaterEqual (.name {} resultName) (.integer {} (.ofInt 0))]

/-- Constant of the field. -/
def pickField : Const := ⟨"Fine.synth.pick.arm.wrap.field0", .int⟩

/-- The field and zero cover something, and zero covers everything. -/
def pickSolver : CoreSolver := fun number _ _ =>
  if number < 4 then .sat fun _ => .numeral 0
  else .unsat [.constant ⟨"Fine.synth.pick.hole.instance1", .bool⟩]

open RefutationSynthesizer in
/-- Candidates are over the named field, and the witness is one. -/
theorem pick_named_grammar : ∃ start runtime frame armFrame result first rest,
    (declare (.enum boxDeclaration)).run .initial = .ok ((), start) ∧
      (openMatch (pickDeclaration ⟨"v", by decide⟩)).run start = .ok (frame, runtime) ∧
      (frame.armFrame [] (pickArm ⟨"v", by decide⟩)).run runtime = .ok (armFrame, runtime) ∧
      armFrame.grammarInputs = [pickField] ∧
      (∀ search found, Reaches pickSolver (frame.armLaunch armFrame {} pickHole).synthesizer
        search → search.selected = some found → Grammar [pickField] found.size found.term) ∧
      (frame.armLaunch armFrame {} pickHole).synthesizer.run pickSolver id 5 =
        some (.ok result) ∧
      result.core = first :: rest ∧ result.witness = .numeral 0 ∧
      (∃ size, Grammar [pickField] size first.term) ∧
      ∃ lifted, ((frame.armLaunch armFrame {} pickHole).accept result.witness).run runtime =
        .ok (lifted, runtime) := by
  obtain ⟨start, runtime, frame, armFrame, result, lifted, declared, read, pattern, inputs, ran,
      zero, accepted⟩ :
      ∃ start runtime frame armFrame result lifted,
        (declare (.enum boxDeclaration)).run .initial = .ok ((), start) ∧
        (openMatch (pickDeclaration ⟨"v", by decide⟩)).run start = .ok (frame, runtime) ∧
        (frame.armFrame [] (pickArm ⟨"v", by decide⟩)).run runtime = .ok (armFrame, runtime) ∧
        armFrame.grammarInputs = [pickField] ∧
        (frame.armLaunch armFrame {} pickHole).synthesizer.run pickSolver id 5 =
          some (.ok result) ∧ result.witness = .numeral 0 ∧
        ((frame.armLaunch armFrame {} pickHole).accept result.witness).run runtime =
          .ok (lifted, runtime) := ⟨_, _, _, _, _, _, rfl, rfl, rfl, rfl, rfl, rfl, rfl⟩
  have reached : Reached start := .declared .initial declared
  have valid := (openMatch_ok reached.inOrder.formed.toValid read).1.valid
  have asked : pickSolver 0 [] [] = .sat fun _ => .numeral 0 := rfl
  have known := hole_grammar_iff reached read (.refl valid) (mem_singleton_self _) pattern rfl asked
  rw [inputs] at known
  obtain ⟨tested, built, -⟩ := known.2.mpr (.inl (by simp))
  obtain ⟨first, rest, core, -, -, members⟩ := built id 5 result ran
  exact ⟨start, runtime, frame, armFrame, result, first, rest, declared, read, pattern, inputs,
    fun search found reaches testing => (tested search reaches).1 found testing, ran, core, zero,
    members first mem_cons_self, lifted, accepted⟩

open RefutationSynthesizer in
/-- Where it does not, no input is recorded, and the first candidate is the field. The second is
zero, which the run accepts. -/
theorem pick_candidate_outside : ∃ start runtime frame armFrame search found result lifted,
    (declare (.enum boxDeclaration)).run .initial = .ok ((), start) ∧
      (openMatch (pickDeclaration ⟨"_", by decide⟩)).run start = .ok (frame, runtime) ∧
      (frame.armFrame [] (pickArm ⟨"_", by decide⟩)).run runtime = .ok (armFrame, runtime) ∧
      armFrame.grammarInputs = [] ∧
      Reaches pickSolver (frame.armLaunch armFrame {} pickHole).synthesizer search ∧
      search.selected = some found ∧ found.term = .constant pickField ∧
      (∀ size, ¬ Grammar armFrame.grammarInputs size found.term) ∧
      (frame.armLaunch armFrame {} pickHole).synthesizer.run pickSolver id 5 =
        some (.ok result) ∧ result.witness = .numeral 0 ∧
      ((frame.armLaunch armFrame {} pickHole).accept result.witness).run runtime =
        .ok (lifted, runtime) := by
  refine ⟨_, _, _, _, _, _, _, _, rfl, rfl, rfl, rfl, reaches_first rfl, rfl, rfl, ?_, rfl, rfl,
    rfl⟩
  intro size grammar
  cases grammar.of_constant

end Fine.RuntimeDetail
