import Fine.Runtime.Bisimulation
import Fine.Runtime.Induction
import Fine.Runtime.Standard
import Fine.Runtime.Synthesis

/-!
# Execution of a document

`Runtime::execute` declares, executes proofs where they stand, and at the end the one other
executable declaration. Verified proofs are asserted in later queries, which is sound as they are
true.
-/

namespace Fine.RuntimeDetail

open Fine.Syntax Fine.Semantics Fine.Fallible
open List hiding next

variable {runtime later : Runtime} {interp : Interp}

/-- Solvers of checks, predicates, syntheses and models. -/
structure Oracles where
  solver : Solver
  question : CheckDecl → Run Nat
  backend : SynthesisBackend
  finder : Finder

/-- The declarations that wait for the end of the loop. -/
structure Selection where
  solve : Option SolveDecl := none
  synth : Option SynthDecl := none
  check : Option CheckDecl := none
  modelHole : Option ModelDecl := none

namespace Selection

/-- There is an executable declaration. -/
def taken (selection : Selection) : Bool :=
  selection.solve.isSome || selection.synth.isSome || selection.check.isSome

/-- Take an executable declaration, the only one. -/
def select (selection next : Selection) (span : SourceSpan) : Run (Except Nat Selection) :=
  if selection.taken then reject span "this source slice admits one executable declaration"
  else pure (.ok next)

end Selection

/-- Execute one declaration. A refuted proof ends the run with its code. -/
def executeDeclaration (oracles : Oracles) (selection : Selection) :
    Declaration → Run (Except Nat Selection)
  | .model item => do
    declare (.model item)
    if item.value.isSome then pure (.ok selection)
    else if selection.modelHole.isSome then
      reject item.info.span "this solve slice admits exactly one model-shaped hole"
    else pure (.ok { selection with modelHole := some item })
  | .solve item => selection.select { selection with solve := some item } item.info.span
  | .synth item => selection.select { selection with synth := some item } item.info.span
  | .check item =>
    if item.reusable then
      if selection.taken then
        reject item.info.span "a reusable proof must precede the executable declaration"
      else do
        let code ← executeCheck oracles.solver oracles.question item
        pure (if code = 0 then .ok selection else .error code)
    else selection.select { selection with check := some item } item.info.span
  | .counterexample item => reject item.info.span
      "a `counterexample` declaration is a returned witness, not an executable check"
  -- types, functions, bindings, views and predicates
  | declaration => do
    declare declaration
    pure (.ok selection)

/-- Execute declarations in order. -/
def executeDeclarations (oracles : Oracles) :
    Selection → List Declaration → Run (Except Nat Selection)
  | selection, [] => pure (.ok selection)
  | selection, declaration :: declarations => do
    match ← executeDeclaration oracles selection declaration with
    | .error code => pure (.error code)
    | .ok next => executeDeclarations oracles next declarations

/-- Execute the declaration that waited. -/
def executeSelected (oracles : Oracles) (span : SourceSpan) (selection : Selection) : Run Nat := do
  if !(← get).predicates.isEmpty && selection.check.isNone then
    reject span "predicates currently require one ground least-relation membership `check`"
  else
    match selection.synth, selection.check, selection.solve, selection.modelHole with
    | some item, _, _, _ => executeSynthesis oracles.backend item
    | none, some item, _, _ => executeCheck oracles.solver oracles.question item
    | none, none, none, _ =>
      reject span "expected one `solve`, `synth`, or `check` declaration"
    | none, none, some _, none =>
      reject span "expected one model-shaped hole for the solve result"
    | none, none, some item, some _ => executeBisimulation oracles.finder item

/-- Execute a document. -/
def execute (oracles : Oracles) (document : Document) : Run Nat := do
  match ← executeDeclarations oracles {} document.declarations with
  | .error code => pure code
  | .ok selection => executeSelected oracles document.span selection

/-- What is `unsat` has no model where the context is true. -/
def Solver.Sound (solver : Solver) : Prop :=
  ∀ context matching asserted, solver context matching asserted = .unsat →
    ∀ interp, context.Holds interp → ¬ Satisfiable interp asserted

/-! ## A verified check is true -/

namespace InductionFrame

variable {frame : InductionFrame} {item : DatatypeCaseInfo} {constant : Const}

/-- It is about its field and parameters not generalized. -/
theorem hypothesis_constants (good : frame.Good runtime interp) {field : Nat} {type : RuntimeType}
    (member : constant ∈ (frame.hypothesis item field type).constants) :
    constant = caseField frame.name item field type ∨ constant ∈ frame.formals.map Formal.term := by
  have free : constant ∉ frame.bound item field ∧ constant ∈
      (frame.theorem_.substitute (frame.replacements item field type)).constants := by
    unfold hypothesis at member
    dsimp only at member
    split at member
    · rename_i empty
      exact ⟨by simp [List.isEmpty_iff.mp empty], member⟩
    · simpa [Term.constants, and_comm] using member
  obtain ⟨other, about, used⟩ := Term.mem_constants_substitute _ _ good.plain free.2
  cases lookup : (frame.replacements item field type).lookup other with
  | none =>
    rw [lookup] at used
    rw [mem_singleton.mp used]
    exact .inr (good.constants other about)
  | some term =>
    rw [lookup] at used
    rcases mem_cons.mp (Map.mem_of_lookup lookup) with same | rest
    · cases same
      exact .inl (mem_singleton.mp used)
    · obtain ⟨entry, inside, same⟩ := mem_map.mp rest
      cases same
      rw [mem_singleton.mp used] at free
      exact absurd (mem_map.mpr ⟨entry, inside, rfl⟩) free.1

/-- The step is about the parameters and the fields. -/
theorem step_constants (good : frame.Good runtime interp)
    (member : constant ∈ frame.step.constants) : constant ∈ frame.constants := by
  rw [step, Term.conditions_constants] at member
  obtain ⟨_, inBranches, used⟩ := mem_flatMap.mp member
  obtain ⟨item, inside, rfl⟩ := mem_map.mp inBranches
  have field : ∀ {other}, other ∈ frame.fields item → other ∈ frame.constants := fun known =>
    mem_append_right _ (mem_flatMap.mpr ⟨item, inside, known⟩)
  have parts : constant = frame.found.term ∨ constant ∈ frame.fields item ∨
      constant ∈ (Term.conditions (frame.hypotheses item)).constants ∨
      constant ∈ frame.theorem_.constants := by
    simpa [branch, guard, Term.imp, Term.equals, Term.constants, or_assoc, flatMap_map]
      using used
  rcases parts with rfl | known | assumed | claimed
  · exact mem_append_left _ (mem_map_of_mem (mem_of_getElem? good.place))
  · exact field known
  · rw [Term.conditions_constants] at assumed
    obtain ⟨_, listed, used⟩ := mem_flatMap.mp assumed
    obtain ⟨entry, recursive, rfl⟩ := mem_map.mp listed
    rcases hypothesis_constants good used with rfl | parameter
    · exact field (mem_map.mpr ⟨entry, mem_of_mem_filter recursive, rfl⟩)
    · exact mem_append_left _ parameter
  · exact mem_append_left _ (good.constants constant claimed)

end InductionFrame

/-- The admitted theorems are closed and true. -/
structure Runtime.Admits (runtime : Runtime) (interp : Interp) : Prop where
  closed : ∀ proof ∈ runtime.admittedProofs, proof.theorem_.constants = []
  models : ∀ proof ∈ runtime.admittedProofs, ∀ assignment, Models interp proof.theorem_ assignment

variable {solver : Solver} {question : CheckDecl → Run Nat} {item : CheckDecl}
  {translation : CheckTranslation}

/-- With true theorems assumed, what is to be valid is. -/
theorem Runtime.Admits.valid (admits : runtime.Admits interp) (sound : solver.Sound)
    {matching : Bool}
    (unsat : solver runtime.context matching (translation.asserted runtime) = .unsat)
    (holds : runtime.context.Holds interp) {constants : List Const}
    (about : ∀ constant ∈ translation.step.constants, constant ∈ constants)
    {assignment : Assignment} (sorted : assignment.Sorted interp.shapes constants) :
    Models interp translation.step assignment := by
  by_contra falsified
  refine sound _ _ _ unsat interp holds
    ⟨assignment, fun constant member => ?_, fun term member => ?_⟩
  · obtain ⟨term, listed, used⟩ := mem_flatMap.mp member
    rw [CheckTranslation.asserted, mem_append, mem_map, mem_singleton] at listed
    rcases listed with ⟨proof, inside, rfl⟩ | rfl
    · rw [admits.closed proof inside] at used
      cases used
    · refine sorted constant (about constant ?_)
      simpa [CheckTranslation.query, Term.neg, Term.constants] using used
  · rw [CheckTranslation.asserted, mem_append, mem_map, mem_singleton] at member
    rcases member with ⟨proof, inside, rfl⟩ | rfl
    · exact admits.models proof inside assignment
    · rw [CheckTranslation.query, models_neg]
      exact falsified

/-- Without an induction parameter there is no induction. -/
theorem translateCheck_plain
    (run : (translateCheck item).run runtime = .ok (translation, later))
    (absent : item.inductionParameter = none) : translation.induction_ = none := by
  unfold translateCheck at run
  obtain ⟨_, _, -, run⟩ := run_bind_ok run
  split at run
  · cases run
  simp only [run_get_bind] at run
  obtain ⟨_, _, -, run⟩ := run_bind_ok run
  obtain ⟨_, _, -, run⟩ := run_bind_ok run
  obtain ⟨_, _, -, run⟩ := run_bind_ok run
  rw [absent] at run
  cases run
  rfl

/-- A check is true if its query has no model. -/
theorem translateCheck_holds (reached : Reached runtime)
    (run : (translateCheck item).run runtime = .ok (translation, later)) (sound : solver.Sound)
    (standard : runtime.Standard interp) (admits : runtime.Admits interp)
    (unsat : solver later.context translation.induction_.isSome (translation.asserted later) =
      .unsat) : CheckHolds runtime.signature interp item := by
  have translated := translateCheck_ok reached.inOrder.formed run
  have holds := reached.holds standard
  have asserted : translation.asserted later = translation.asserted runtime := by
    obtain ⟨_, _, _, _, rfl⟩ := translated.advances.extends_
    rfl
  rw [translated.advances.extends_.datatypes_eq.2, asserted] at unsat
  cases inducts : item.inductionParameter with
  | some parameter =>
    obtain ⟨frame, framed, is⟩ := translated.induction_ parameter inducts
    have step : translation.step = frame.step := by simp only [CheckTranslation.step, framed]
    have good := translated.good reached standard.toFree is
    refine (translated.step_valid_iff reached standard.toFree is).mp fun assignment sorted => ?_
    rw [← step]
    refine admits.valid sound unsat holds (fun constant member => ?_) sorted
    rw [step] at member
    exact frame.step_constants good member
  | none =>
    have step : translation.step = translation.theorem_ := by
      simp only [CheckTranslation.step, translateCheck_plain run inducts]
    obtain ⟨start, of⟩ := translated.formals
    intro elements fits
    obtain ⟨assignment, assigned, sorted⟩ := of.assign (numbered_injective _) fits
    have valid := admits.valid sound unsat holds (fun constant member => by
      rw [step] at member
      exact translated.theorem_constants member) sorted
    rw [step, translated.models_theorem, assigned] at valid
    exact valid

/-- The closed theorem of a true check is closed and true. -/
theorem CheckTranslated.closed (translated : CheckTranslated item runtime later translation)
    (holds : CheckHolds runtime.signature interp item) :
    translation.closed.constants = [] ∧
      ∀ assignment, Models interp translation.closed assignment := by
  refine ⟨?_, fun assignment => ?_⟩
  · rw [CheckTranslation.closed, Term.constants, filter_eq_nil_iff]
    intro constant member
    simpa using translated.theorem_constants member
  · rw [CheckTranslation.closed, models_forall]
    intro other varies
    obtain ⟨start, of⟩ := translated.formals
    rw [translated.models_theorem]
    exact holds _ (of.fits varies.sorted)

/-! ## The loop -/

/-- The last line of a run that lifted a counterexample. -/
def exactLine : String := "parse(print(lift(values))): exact ast identity"

/-- What the conditions call can be called. -/
def CheckDecl.Callable (item : CheckDecl) (runtime : Runtime) : Prop :=
  ∀ condition ∈ item.assumes ++ item.ensures, ∀ callee arguments,
    CallsIn callee condition arguments → ∃ found, runtime.callee? callee = some found

/-- A translated check calls what can be called. -/
theorem CheckTranslated.callable (translated : CheckTranslated item runtime later translation) :
    CheckDecl.Callable item runtime := by
  have each : Forall₂ (fun condition term => Translates runtime.signature
      (environmentOf translation.formals) condition .bool term) (item.assumes ++ item.ensures)
      (translation.assumptions ++ translation.guarantees) :=
    rel_append translated.assumptions translated.guarantees
  intro condition member callee arguments calls
  obtain ⟨term, paired⟩ := exists_mem_zip each.length_eq member
  obtain ⟨_, _, call⟩ := HasType.calls (forall₂_zip each paired).typed calls
  exact callee?_total call

/-- Callable checks claim the same in later states. -/
theorem Includes.checkHolds (includes : Includes runtime later) (valid : runtime.Valid)
    (validLater : later.Valid) (callable : CheckDecl.Callable item runtime)
    (holds : CheckHolds runtime.signature interp item) :
    CheckHolds later.signature interp item := by
  have same (meaning : Meaning) : ∀ condition ∈ item.assumes ++ item.ensures,
      denote runtime.signature interp meaning condition =
        denote later.signature interp meaning condition := by
    intro condition member
    refine denote_congr condition fun callee arguments calls => ?_
    obtain ⟨found, known⟩ := callable condition member callee arguments calls
    have before := (callee?_fits valid known).call interp
    have after := (callee?_fits validLater (includes.callees _ _ known)).call interp
    have elements (values : List Value) :
        values = (values.map Element.plain).map Element.toValue := by
      simp [Function.comp_def, Element.toValue]
    rw [elements (denoteAll _ _ _ _), ← before, after]
  intro elements fits assumed guarantee member
  rw [← same _ _ (mem_append_right _ member)]
  refine holds elements fits (fun condition inside => ?_) guarantee member
  rw [same _ _ (mem_append_left _ inside)]
  exact assumed condition inside

/-- Callable, and true in every standard interpretation. -/
structure Proved (item : CheckDecl) (runtime : Runtime) : Prop where
  callable : CheckDecl.Callable item runtime
  holds : ∀ interp, runtime.Standard interp → CheckHolds runtime.signature interp item

/-- A true check is true in later states. -/
theorem Proved.mono (proved : Proved item runtime) (includes : Includes runtime later)
    (valid : runtime.Valid) (validLater : later.Valid)
    (standard : ∀ interp, later.Standard interp → runtime.Standard interp) :
    Proved item later where
  callable condition member callee arguments calls := by
    obtain ⟨found, known⟩ := proved.callable condition member callee arguments calls
    exact ⟨found, includes.callees _ _ known⟩
  holds interp after := includes.checkHolds valid validLater proved.callable
    (proved.holds interp (standard interp after))

/-- What is true in the loop after some declarations. -/
structure Established (done : List Declaration) (runtime : Runtime) (selection : Selection) :
    Prop where
  reached : Reached runtime
  plain : runtime.predicates = []
  admits : ∀ interp, runtime.Standard interp → runtime.Admits interp
  /-- The proofs so far are true. -/
  proved : ∀ item, .check item ∈ done → item.reusable = true → Proved item runtime
  /-- The one check that is no proof waits. -/
  check : ∀ item, .check item ∈ done → item.reusable = false → selection.check = some item
  alone : selection.check.isSome = true → selection.synth = none

variable {done : List Declaration} {selection next : Selection} {declaration : Declaration}

/-- A declaration leaves what is true. -/
theorem Established.declared (established : Established done runtime selection)
    (run : (declare declaration).run runtime = .ok ((), later))
    (noPredicate : ∀ item, declaration ≠ .predicate item)
    (noCheck : ∀ item, declaration ≠ .check item) (same : next.check = selection.check)
    (alone : next.check.isSome = true → next.synth = none) :
    Established (done ++ [declaration]) later next := by
  have order := established.reached.inOrder
  have leaves := declare_context order run
  have old : ∀ {item}, .check item ∈ done ++ [declaration] → .check item ∈ done := by
    intro item member
    rcases mem_append.mp member with inside | last
    · exact inside
    · exact absurd (mem_singleton.mp last).symm (noCheck item)
  refine ⟨established.reached.declared run, (leaves.predicates noPredicate).trans established.plain,
    fun interp standard => ?_, fun item member reusable => ?_,
    fun item member fresh => same.trans (established.check item (old member) fresh), alone⟩
  · obtain ⟨closed, models⟩ := established.admits interp (declare_standard order run standard)
    rw [← leaves.admitted] at closed models
    exact ⟨closed, models⟩
  · exact (established.proved item (old member) reusable).mono (declare_includes order run)
      order.formed.toValid (established.reached.declared run).inOrder.formed.toValid
      fun interp => declare_standard order run

/-- A check without a counterexample is true, and so is what it admits. -/
theorem Established.executeCheck (established : Established done runtime selection)
    (sound : solver.Sound) {code : Nat} {last : Runtime}
    (run : (executeCheck solver question item).run runtime = .ok (code, last)) :
    last.output.getLast? = some exactLine ∧ (item.reusable = true → code = 1) ∨
    code = 0 ∧ Proved item last ∧
      (∀ other, Proved other runtime → Proved other last) ∧ Reached last ∧
      last.predicates = [] ∧ ∀ interp, last.Standard interp → last.Admits interp := by
  have order := established.reached.inOrder
  obtain ⟨translation, later, ran, ended⟩ := executeCheck_ended order.formed
    (.inl established.plain) run
  have translated := translateCheck_ok order.formed ran
  cases ended with
  | refuted =>
    exact .inl ⟨by simp [refutedLines, exactLine, getLast?_cons], fun reusable => if_pos reusable⟩
  | verified unsat =>
    have leads : Leads runtime { later with
      output := later.output ++ verifiedLines item
      admittedProofs := later.admittedProofs ++
        if item.reusable then [⟨item.name, translation.closed⟩] else [] } :=
      .proved .refl translated.advances
    have reached := leads.reached established.reached
    obtain ⟨_, _, _, _, same⟩ := translated.advances.extends_
    have before (interp : Interp) (standard : later.Standard interp) : runtime.Standard interp := by
      rw [same] at standard
      exact ⟨⟨standard.datatypes, standard.enums⟩, standard.definitions⟩
    have holds (interp : Interp) (standard : runtime.Standard interp) :=
      translateCheck_holds established.reached ran sound standard
        (established.admits interp standard) unsat
    have after {other : CheckDecl} (proved : Proved other runtime) :=
      proved.mono (leads.includes established.reached) order.formed.toValid
        reached.inOrder.formed.toValid fun interp standard =>
          before interp ⟨⟨standard.datatypes, standard.enums⟩, standard.definitions⟩
    refine .inr ⟨rfl, after ⟨translated.callable, holds⟩, fun _ => after, reached, ?_,
      fun interp standard => ?_⟩
    · rw [same]
      exact established.plain
    have standing := before interp ⟨⟨standard.datatypes, standard.enums⟩, standard.definitions⟩
    have admits := established.admits interp standing
    obtain ⟨closed, models⟩ := translated.closed (holds interp standing)
    have either {proof : AdmittedProof} (member : proof ∈ later.admittedProofs ++
        if item.reusable then [⟨item.name, translation.closed⟩] else []) :
        proof ∈ runtime.admittedProofs ∨ proof.theorem_ = translation.closed := by
      rcases mem_append.mp member with old | new
      · exact .inl (by rwa [same] at old)
      · split at new
        · exact .inr (by rw [mem_singleton.mp new])
        · cases new
    refine ⟨fun proof member => ?_, fun proof member => ?_⟩
    · rcases either member with old | new
      · exact admits.closed proof old
      · exact new ▸ closed
    · rcases either member with old | new
      · exact admits.models proof old
      · exact new ▸ models

/-- What is selected was alone. -/
theorem Selection.select_ok {after : Selection} {span : SourceSpan} {result : Except Nat Selection}
    (run : (selection.select after span).run runtime = .ok (result, later)) :
    later = runtime ∧ result = .ok after ∧ selection.check = none ∧ selection.synth = none := by
  unfold Selection.select at run
  split at run
  · cases run
  · rename_i free
    cases run
    have parts : (selection.solve = none ∧ selection.synth = none) ∧ selection.check = none := by
      simpa [Selection.taken] using free
    exact ⟨rfl, rfl, parts.2, parts.1.2⟩

variable {oracles : Oracles}

/-- A refuted proof, or what is true for the next part of the loop. -/
def Continues (done : List Declaration) (later : Runtime) (result : Except Nat Selection) : Prop :=
  (∃ code, result = .error code ∧ later.output.getLast? = some exactLine) ∨
    ∃ next, result = .ok next ∧ Established done later next

/-- One declaration of the loop leaves what is true. -/
theorem executeDeclaration_continues (sound : oracles.solver.Sound)
    (established : Established done runtime selection)
    (noPredicate : ∀ item, declaration ≠ .predicate item) {result : Except Nat Selection}
    (run : (executeDeclaration oracles selection declaration).run runtime = .ok (result, later)) :
    Continues (done ++ [declaration]) later result := by
  cases declaration with
  | enum item | function item | letBinding item | view item =>
    obtain ⟨_, _, ran, run⟩ := run_bind_ok run
    cases run
    exact .inr ⟨_, rfl, established.declared ran noPredicate (by simp) rfl established.alone⟩
  | predicate item => exact absurd rfl (noPredicate item)
  | model item =>
    obtain ⟨_, _, ran, run⟩ := run_bind_ok run
    split at run
    · cases run
      exact .inr ⟨_, rfl, established.declared ran noPredicate (by simp) rfl established.alone⟩
    · split at run
      · cases run
      · cases run
        exact .inr ⟨_, rfl, established.declared ran noPredicate (by simp) rfl established.alone⟩
  | solve item =>
    obtain ⟨rfl, rfl, none, -⟩ := Selection.select_ok run
    exact .inr ⟨_, rfl, established.declared rfl noPredicate (by simp) rfl established.alone⟩
  | synth item =>
    obtain ⟨rfl, rfl, none, -⟩ := Selection.select_ok run
    exact .inr ⟨_, rfl, established.declared rfl noPredicate (by simp) rfl (by simp [none])⟩
  | check item =>
    simp only [executeDeclaration] at run
    split at run
    · rename_i reusable
      split at run
      · cases run
      obtain ⟨code, last, ran, run⟩ := run_bind_ok run
      rcases established.executeCheck sound ran with ⟨refuted, one⟩ |
        ⟨rfl, proved, after, reached, plain, admits⟩
      · rw [one reusable] at run
        cases run
        exact .inl ⟨1, rfl, refuted⟩
      cases run
      refine .inr ⟨_, rfl, reached, plain, admits, fun other member proof => ?_,
        fun other member waits => ?_, established.alone⟩
      · rcases mem_append.mp member with old | new
        · exact after other (established.proved other old proof)
        · cases mem_singleton.mp new
          exact proved
      · rcases mem_append.mp member with old | new
        · exact established.check other old waits
        · cases mem_singleton.mp new
          exact absurd (waits.symm.trans reusable) (by decide)
    · rename_i fresh
      obtain ⟨rfl, rfl, none, alone⟩ := Selection.select_ok run
      refine .inr ⟨_, rfl, established.reached, established.plain, established.admits,
        fun other member proof => ?_, fun other member waits => ?_, fun _ => alone⟩
      · rcases mem_append.mp member with old | new
        · exact established.proved other old proof
        · cases mem_singleton.mp new
          exact absurd proof fresh
      · rcases mem_append.mp member with old | new
        · have before := established.check other old waits
          rw [none] at before
          cases before
        · cases mem_singleton.mp new
          rfl
  | counterexample item => cases run

/-- The loop leaves what is true. -/
theorem executeDeclarations_continues (sound : oracles.solver.Sound)
    {declarations : List Declaration} (noPredicate : ∀ item, .predicate item ∉ declarations)
    (established : Established done runtime selection) {result : Except Nat Selection}
    (run : (executeDeclarations oracles selection declarations).run runtime =
      .ok (result, later)) : Continues (done ++ declarations) later result := by
  induction declarations generalizing done runtime selection with
  | nil =>
    cases run
    exact .inr ⟨_, rfl, by rwa [append_nil]⟩
  | cons declaration declarations ih =>
    obtain ⟨between, middle, ran, run⟩ := run_bind_ok run
    rcases executeDeclaration_continues sound established
      (fun item is => noPredicate item (by simp [is])) ran with ⟨code, rfl, refuted⟩ |
        ⟨next, rfl, step⟩
    · cases run
      exact .inl ⟨code, rfl, refuted⟩
    · have rest := ih (fun item member => noPredicate item (by simp [member])) step run
      rwa [append_assoc] at rest

/-- Whole documents are checked soundly. A run without predicates that reports no counterexample
leaves only true theorems admitted, and every proof and check of the document is true in every
standard interpretation of what it declares. -/
theorem execute_sound (sound : oracles.solver.Sound) {document : Document}
    (noPredicate : ∀ item, .predicate item ∉ document.declarations)
    (checks : ∃ item, .check item ∈ document.declarations ∧ item.reusable = false) {code : Nat}
    {last : Runtime} (run : (execute oracles document).run .initial = .ok (code, last))
    (reports : last.output.getLast? = some "counterexample: none")
    (standard : last.Standard interp) :
    (∀ proof ∈ last.admittedProofs, proof.theorem_.constants = [] ∧
      ∀ assignment, Models interp proof.theorem_ assignment) ∧
    ∀ item, .check item ∈ document.declarations → CheckHolds last.signature interp item := by
  have first : Established [] .initial {} :=
    ⟨.initial, rfl, fun interp _ => ⟨by simp [Runtime.initial], by simp [Runtime.initial]⟩, by simp,
      by simp, by simp⟩
  have honest : last.output.getLast? ≠ some exactLine := by
    rw [reports]
    decide
  obtain ⟨result, middle, looped, run⟩ := run_bind_ok run
  rcases executeDeclarations_continues sound noPredicate first looped with
    ⟨_, rfl, refuted⟩ | ⟨selection, rfl, established⟩
  · cases run
    exact absurd refuted honest
  · obtain ⟨item, listed, fresh⟩ := checks
    have waits := established.check item listed fresh
    have alone := established.alone (by rw [waits]; rfl)
    simp only [executeSelected, run_get_bind, waits, alone, Option.isNone_some, Bool.and_false,
      Bool.false_eq_true, if_false] at run
    rcases established.executeCheck sound run with ⟨refuted, -⟩ | ⟨-, proved, after, -, -, admits⟩
    · exact absurd refuted honest
    refine ⟨fun proof member => ⟨(admits interp standard).closed proof member,
      (admits interp standard).models proof member⟩, fun other member => ?_⟩
    cases reusable : other.reusable with
    | true => exact (after other (established.proved other member reusable)).holds interp standard
    | false =>
      have same := established.check other member reusable
      rw [waits] at same
      cases same
      exact proved.holds interp standard

namespace Peano

/-- A solver that knows reflexivity, and instances of an asserted theorem. -/
def instances : Solver := fun _ _ asserted =>
  match asserted with
  | [.app .not [.app .implies [_, .app .and [.app .true [], .app .eq [left, right]]]]] =>
    if left.same right then .unsat else .unknown ""
  | [.quantified true [bound] body, .app .not [goal]] =>
    match goal.constants with
    | constant :: _ =>
      if bound.sort = constant.sort ∧ body.quantifierFree = true ∧
          (body.substitute [(bound, .constant constant)]).same goal = true then .unsat
      else .unknown ""
    | [] => .unknown ""
  | _ => .unknown ""

theorem instances_sound : instances.Sound := by
  rintro context matching asserted unsat interp - ⟨assignment, sorted, models⟩
  unfold instances at unsat
  split at unsat
  · rename_i left right
    split at unsat
    · rename_i same
      have query := models _ (mem_singleton_self _)
      rw [(Term.same_iff _ _).mp same] at query
      simp [Models, eval, FuncDecl.apply, operate] at query
    · cases unsat
  · rename_i bound body goal
    split at unsat
    · rename_i constant others listed
      split at unsat
      · rename_i fits
        obtain ⟨sort, plain, same⟩ := fits
        have all := models_forall.mp (models _ mem_cons_self)
        have fails : Models interp goal.neg assignment :=
          models _ (mem_cons_of_mem _ mem_cons_self)
        rw [models_neg] at fails
        refine fails ?_
        rw [← (Term.same_iff _ _).mp same, Models, eval_substitute _ _ plain]
        refine all _ ⟨fun other free => ?_, fun other member => ?_⟩
        · have different : (other == bound) = false := by simpa using free
          simp [Assignment.replace, List.lookup, different]
        · obtain rfl := mem_singleton.mp member
          have known := sorted constant (by simp [Term.constants, listed])
          simpa [Assignment.replace, eval, sort] using known
      · cases unsat
    · cases unsat
  · cases unsat

/-- Answers to what a document with a check asks. -/
def answers : Oracles where
  solver := instances
  question _ := pure 0
  backend := ⟨fun _ _ => .error "", instances, fun _ => 0⟩
  finder _ _ := .unsat

/-- The natural numbers, with `n == n` as a proof and as a check. -/
def document : Document where
  span := {}
  declarations :=
    let item : CheckDecl := { checkDecl with inductionParameter := Option.none }
    [.enum enumDecl, .check { item with reusable := true }, .check { item with name := m }]

/-- A declared datatype: its name and constructors. -/
def shape (entry : Identifier × DatatypeInfo) : Identifier × List (Identifier × List FineType) :=
  (entry.1, entry.2.cases.map fun item => (item.name, item.fieldTypes.map RuntimeType.meaning))

/-- The run verified a proof and a check. -/
def verifies : Except Failure (Nat × Runtime) → Bool
  | .ok (0, last) => last.output.getLast? == some "counterexample: none" &&
    last.admittedProofs.length == 1 && last.enums.isEmpty && last.context.definitions.isEmpty &&
    decide (last.datatypes.map shape = [(nat, [(zero, []), (succ, [.named nat])])])
  | _ => false

end Peano

/-- Reflexivity is proved, and the proof then verifies the check. -/
theorem execute_sound_reflexive : ∃ last,
    (execute Peano.answers Peano.document).run .initial = .ok (0, last) ∧
    last.admittedProofs.length = 1 ∧ ∀ item, .check item ∈ Peano.document.declarations →
      CheckHolds last.signature Peano.interp item := by
  have ran : Peano.verifies ((execute Peano.answers Peano.document).run .initial) = true := by
    decide +kernel
  unfold Peano.verifies at ran
  split at ran
  · rename_i last run
    simp only [Bool.and_eq_true, beq_iff_eq, List.isEmpty_iff, decide_eq_true_eq] at ran
    obtain ⟨⟨⟨⟨reports, admitted⟩, enums⟩, definitions⟩, datatypes⟩ := ran
    refine ⟨last, run, admitted, (execute_sound Peano.instances_sound (by simp [Peano.document])
      ⟨_, .tail _ (.tail _ (.head _)), rfl⟩ run reports ⟨⟨?_, ?_⟩, ?_⟩).2⟩
    · intro name info found
      have listed := mem_map_of_mem (f := Peano.shape) (Map.mem_of_lookup found)
      rw [datatypes, mem_singleton, Peano.shape, Prod.mk.injEq] at listed
      obtain ⟨rfl, cases⟩ := listed
      exact congrArg some cases.symm
    · intro name info found
      simp [enums] at found
    · simp [definitions]
  · cases ran

end Fine.RuntimeDetail
