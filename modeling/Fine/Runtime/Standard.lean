import Fine.Runtime.Included
import Fine.Runtime.Induction

/-!
# Standard interpretations

In a standard interpretation types are free algebras and functions satisfy their definitions. One is
built along the run, as definitions do not call later functions.
-/

namespace Fine.RuntimeDetail

open Fine.Syntax Fine.Semantics Fine.Fallible List

variable {runtime later : Runtime} {interp other : Interp}

/-- On elements of its sorts the function is the body. -/
def Definition.Holds (definition : Definition) (interp : Interp) : Prop :=
  ∀ assignment : Assignment, assignment.Sorted interp.shapes definition.formals →
    interp.function definition.info.name
        (definition.formals.map fun formal => (assignment formal).toValue) =
      (eval interp definition.body assignment).toValue

/-- A model of what the solver has been told. -/
structure Context.Holds (context : Context) (interp : Interp) : Prop where
  datatypes : ∀ entry ∈ context.datatypes, interp.shapes entry.1 =
    some (entry.2.map fun item => (item.1, item.2.map Z3Sort.meaning))
  definitions : ∀ definition ∈ context.definitions, definition.Holds interp

/-- Types are free algebras, and definitions hold. -/
structure Runtime.Standard (runtime : Runtime) (interp : Interp) : Prop
    extends runtime.Free interp where
  definitions : ∀ definition ∈ runtime.context.definitions, definition.Holds interp

/-! ## What declarations leave -/

/-- No theorem is admitted, and the solver is told only what the kind adds. -/
structure DeclareLeaves (declaration : Declaration) (runtime later : Runtime) : Prop where
  admitted : later.admittedProofs = runtime.admittedProofs
  datatypes : (∀ item, declaration ≠ .enum item) →
    later.context.datatypes = runtime.context.datatypes
  definitions : (∀ item, declaration ≠ .function item) →
    later.functions = runtime.functions ∧ later.context.definitions = runtime.context.definitions
  predicates : (∀ item, declaration ≠ .predicate item) → later.predicates = runtime.predicates

theorem declare_context (order : runtime.InOrder) {declaration : Declaration}
    (run : (declare declaration).run runtime = .ok ((), later)) :
    DeclareLeaves declaration runtime later := by
  cases declaration with
  | enum declaration =>
    obtain ⟨middle, ⟨⟨_, _, _, _, rfl⟩, -⟩, declared⟩ := declareEnum_ok order.formed run
    cases declared with
    | datatype | enumeration =>
      exact ⟨rfl, fun other => absurd rfl (other _), fun _ => ⟨rfl, rfl⟩, fun _ => rfl⟩
  | function declaration =>
    obtain ⟨middle, after, frame, branches, ⟨⟨_, _, _, _, rfl⟩, -⟩, declared, rfl⟩ :=
      declareFunction_ok order.formed run
    obtain ⟨_, _, _, _, rfl⟩ := declared.arms.advances.extends_
    exact ⟨rfl, fun _ => rfl, fun other => absurd rfl (other _), fun _ => rfl⟩
  | letBinding declaration =>
    obtain ⟨middle, bindings, ⟨⟨_, _, _, _, rfl⟩, -⟩, rfl⟩ := declareLet_ok order.formed.toValid run
    exact ⟨rfl, fun _ => rfl, fun _ => ⟨rfl, rfl⟩, fun _ => rfl⟩
  | model declaration =>
    obtain ⟨middle, bindings, ⟨⟨_, _, _, _, rfl⟩, -⟩, rfl⟩ :=
      declareModel_ok order.formed.toValid run
    exact ⟨rfl, fun _ => rfl, fun _ => ⟨rfl, rfl⟩, fun _ => rfl⟩
  | view declaration =>
    obtain ⟨middle, view, ⟨⟨_, _, _, _, rfl⟩, -⟩, known, rfl⟩ :=
      declareView_ok order.formed.toValid run
    exact ⟨rfl, fun _ => rfl, fun _ => ⟨rfl, rfl⟩, fun _ => rfl⟩
  | predicate declaration =>
    obtain ⟨middle, after, indices, kept, ⟨⟨_, _, _, _, rfl⟩, -⟩, declared, rfl⟩ :=
      declarePredicate_ok order.formed order.views run
    obtain ⟨_, _, _, _, same⟩ := declared.rules.extends_
    have context := congrArg Runtime.context same
    have functions := congrArg Runtime.functions same
    have admitted := congrArg Runtime.admittedProofs same
    exact ⟨admitted, fun _ => congrArg Context.datatypes context,
      fun _ => ⟨functions, congrArg Context.definitions context⟩, fun other => absurd rfl (other _)⟩
  | solve | synth | check | counterexample =>
    cases run
    exact ⟨rfl, fun _ => rfl, fun _ => ⟨rfl, rfl⟩, fun _ => rfl⟩

/-- Free after a declaration, so free before. -/
theorem declare_free (order : runtime.InOrder) {declaration : Declaration}
    (run : (declare declaration).run runtime = .ok ((), later)) (free : later.Free interp) :
    runtime.Free interp := by
  by_cases enum : ∃ item, declaration = .enum item
  · obtain ⟨item, rfl⟩ := enum
    obtain ⟨middle, advances, declared⟩ := declareEnum_ok order.formed run
    exact advances.extends_.sameTypes.free (declared.free free)
  · have tables := ((declare_leaves order run).2.1 fun item is => enum ⟨item, is⟩).1
    simp only [Runtime.typeTables, Prod.mk.injEq] at tables
    exact SameTypes.free ⟨tables.1, tables.2.1, tables.2.2.1⟩ free

/-- Standard after a declaration, so standard before. -/
theorem declare_standard (order : runtime.InOrder) {declaration : Declaration}
    (run : (declare declaration).run runtime = .ok ((), later)) (standard : later.Standard interp) :
    runtime.Standard interp := by
  refine ⟨declare_free order run standard.toFree, fun definition member => ?_⟩
  apply standard.definitions
  by_cases function : ∃ item, declaration = .function item
  · obtain ⟨item, rfl⟩ := function
    obtain ⟨middle, after, frame, branches, ⟨⟨_, _, _, _, rfl⟩, -⟩, declared, rfl⟩ :=
      declareFunction_ok order.formed run
    obtain ⟨_, _, _, _, rfl⟩ := declared.arms.advances.extends_
    exact mem_cons_of_mem _ member
  · rw [((declare_context order run).definitions fun item is => function ⟨item, is⟩).2]
    exact member

/-- A new type is a datatype that the solver knows. -/
theorem EnumDeclared.shapes {declaration : EnumDecl}
    (declared : EnumDeclared declaration runtime later) (formed : runtime.WellFormed)
    (free : later.Free interp) : ∀ entry ∈ later.context.datatypes,
      entry ∈ runtime.context.datatypes ∨ interp.shapes entry.1 =
        some (entry.2.map fun item => (item.1, item.2.map Z3Sort.meaning)) := by
  intro entry member
  cases declared with
  | @datatype info _ new =>
    rcases mem_cons.mp member with rfl | old
    · refine .inr ((free.datatypes info.name info ?_).trans ?_)
      · exact (Runtime.lookup_declaration (fun name found old =>
          (formed.tables.constructors name found old).2.1) new.fresh info _).trans (if_pos rfl)
      · simp only [map_map, Function.comp_def]
        rfl
    · exact .inl old
  | @enumeration info _ new =>
    rcases mem_cons.mp member with rfl | old
    · refine .inr ((free.enums info.name info ?_).trans ?_)
      · exact (Runtime.lookup_declaration (fun name found old =>
          (formed.tables.cases name found old).2.1) new.fresh info _).trans (if_pos rfl)
      · simp only [map_map, Function.comp_def, map_nil]
    · exact .inl old

/-- Standard interpretations model what the solver knows. -/
theorem Reached.holds (reached : Reached runtime) (standard : runtime.Standard interp) :
    runtime.context.Holds interp := by
  refine ⟨?_, standard.definitions⟩
  have free := standard.toFree
  clear standard
  induction reached with
  | initial => exact fun entry member => absurd member not_mem_nil
  | @declared runtime later declaration reached run ih =>
    have order := reached.inOrder
    have before := ih (declare_free order run free)
    by_cases enum : ∃ item, declaration = .enum item
    · obtain ⟨item, rfl⟩ := enum
      obtain ⟨middle, advances, declared⟩ := declareEnum_ok order.formed run
      intro entry member
      rcases declared.shapes (advances.wellFormed order.formed) free entry member with old | new
      · rw [(advances.extends_.datatypes_eq).2] at old
        exact before entry old
      · exact new
    · rw [(declare_context order run).datatypes fun item is => enum ⟨item, is⟩]
      exact before
  | @proved runtime middle output proofs reached advances ih =>
    have same := advances.extends_.sameTypes
    have context := (advances.extends_.datatypes_eq).2
    have after : SameTypes runtime { middle with output := output, admittedProofs := proofs } :=
      ⟨same.types, same.datatypes, same.enums⟩
    have before := ih (after.free free)
    rw [← context] at before
    exact before

/-! ## Building the interpretation -/

/-- A declared name is a case or can be called. -/
theorem Runtime.declares_iff (runtime : Runtime) (name : Identifier) : runtime.Declares name ↔
    (runtime.cases.lookup name).isSome = true ∨ (runtime.callee? name).isSome = true := by
  rw [Runtime.Declares, Runtime.callee?]
  refine or_congr_right ?_
  cases runtime.constructors.lookup name with
  | some found => simp only [Option.isSome_some, true_or]
  | none =>
    cases runtime.predicates.lookup name with
    | some found => simp only [Option.isSome_some, or_true]
    | none =>
      simp only [Option.isSome_none, Option.isSome_map, Bool.false_eq_true, false_or, or_false]

theorem Includes.declares {first second : Runtime} (includes : Includes first second)
    {name : Identifier} (declares : first.Declares name) : second.Declares name := by
  rw [Runtime.declares_iff, Option.isSome_iff_exists, Option.isSome_iff_exists] at declares ⊢
  rcases declares with ⟨found, case⟩ | ⟨callee, called⟩
  · exact .inl ⟨found, includes.cases name found case⟩
  · exact .inr ⟨callee, includes.callees name callee called⟩

theorem HaveTypes.typed {sig : Signature} {scope : Scope} {expressions : List Expr}
    {types : List FineType} (typed : HaveTypes sig scope expressions types) {element : Expr}
    (member : element ∈ expressions) : ∃ type, HasType sig scope element type := by
  induction expressions generalizing types with
  | nil => cases member
  | cons expression expressions ih =>
    cases typed with
    | cons here there =>
      rcases mem_cons.mp member with rfl | inside
      · exact ⟨_, here⟩
      · exact ih there inside

theorem HasType.element {sig : Signature} {scope : Scope} {expression : Expr} {type : FineType}
    (typed : HasType sig scope expression type) {element : Expr}
    (member : element ∈ expression.elements) : ∃ type, HasType sig scope element type := by
  cases typed with
  | inScope | enumCase | constant | boolean | integer => cases member
  | pair one two | equal one two | operator _ one two =>
    rcases mem_pair.mp member with rfl | rfl
    · exact ⟨_, one⟩
    · exact ⟨_, two⟩
  | construct _ all | atom _ _ all | apply _ _ _ all => exact HaveTypes.typed all member
  | conditional one two three =>
    rcases mem_cons.mp member with rfl | rest
    · exact ⟨_, one⟩
    · rcases mem_pair.mp rest with rfl | rfl
      · exact ⟨_, two⟩
      · exact ⟨_, three⟩

/-- What a typed expression calls is typed. -/
theorem HasType.calls {sig : Signature} {scope : Scope} {expression : Expr} {type : FineType}
    (typed : HasType sig scope expression type) {callee : Identifier} {arguments : List Expr}
    (calls : CallsIn callee expression arguments) :
    ∃ info type, HasType sig scope (.call info callee arguments) type := by
  induction calls generalizing type with
  | here => exact ⟨_, type, typed⟩
  | inside member _ ih =>
    obtain ⟨inner, typed⟩ := HasType.element typed member
    exact ih typed

section

variable {declaration : FunctionDecl} {middle after : Runtime} {frame : FunctionFrame}
  {branches : List (Term × Term)}

/-- The definition says the equations of the arms. -/
theorem FunctionDeclared.holds_iff
    (declared : FunctionDeclared declaration middle after frame branches)
    (formed : middle.WellFormed) (algebras : middle.Algebras interp) :
    (frame.definition branches).Holds interp ↔
      ∀ arguments : Arguments interp.shapes declaration, ∀ arm ∈ declaration.arms, ∀ fields,
        matchedArgument declaration arguments.1 = some (.con arm.constructor fields) →
        interp.function declaration.name arguments.1 = (denote declared.signature interp
          (armMeaning declaration arm arguments.1 fields) arm.value).toValue := by
  constructor
  · intro holds arguments arm listed fields matched
    obtain ⟨assignment, assigned⟩ := declared.assignment_of arguments
    obtain ⟨found, member, others, matched', value⟩ :=
      declared.eval_body formed algebras arguments assigned
    rw [matched] at matched'
    obtain ⟨same, rfl⟩ : arm.constructor = found.constructor ∧ fields = others := by
      simpa using matched'
    rw [← arm_unique declared.arms.distinct listed member same] at value
    have body := holds assignment (declared.formals.sorted_of arguments.2 assigned)
    have values : (frame.formals.map Formal.term).map (fun formal => (assignment formal).toValue) =
        arguments.1 := by
      simpa [Function.comp_def, Element.toValue] using congrArg (List.map Element.toValue) assigned
    rw [← value]
    refine Eq.trans (congrArg₂ _ ?_ values.symm) body
    exact congrArg FunctionDecl.name declared.of.symm
  · intro equation assignment sorted
    obtain ⟨assigned, typed⟩ := declared.formals.plain declared.flat sorted
    have assigned' : (frame.formals.map Formal.term).map assignment =
        (frame.formals.map fun formal => (assignment formal.term).toValue).map Element.plain := by
      rw [map_map]
      exact assigned
    obtain ⟨arm, listed, fields, matched, value⟩ :=
      declared.eval_body formed algebras ⟨_, typed⟩ assigned'
    have here := equation ⟨_, typed⟩ arm listed fields matched
    rw [← value] at here
    refine Eq.trans (congrArg₂ _ ?_ ?_) here
    · exact congrArg FunctionDecl.name declared.of
    · exact map_map

/-- Arms call names declared with the function. -/
theorem FunctionDeclared.arm_calls
    (declared : FunctionDeclared declaration middle after frame branches) {arm : MatchArm}
    (listed : arm ∈ declaration.arms) {callee : Identifier} {arguments : List Expr}
    (calls : CallsIn callee arm.value arguments) :
    (after.addDefinition (frame.definition branches)).Declares callee := by
  obtain ⟨branch, paired⟩ := exists_mem_zip declared.arms.each.length_eq listed
  obtain ⟨item, before, _, signature, elaborated⟩ := forall₂_zip declared.arms.each paired
  obtain ⟨environment, _, -, value, -⟩ := elaborated.value
  have typed := value.typed
  rw [signature, ← declared.arms.advances.extends_.signature_eq] at typed
  obtain ⟨_, _, call⟩ := HasType.calls typed calls
  exact (Runtime.declares_iff _ _).mpr (.inr (Option.isSome_iff_exists.mpr (callee?_total call)))

/-- Functions declared otherwise do not matter. -/
theorem FunctionDeclared.holds_congr
    (declared : FunctionDeclared declaration middle after frame branches)
    (formed : middle.WellFormed) (algebras : middle.Algebras interp)
    {function : Identifier → List Value → Value}
    (agree : ∀ name, (after.addDefinition (frame.definition branches)).Declares name →
      function name = interp.function name) (holds : (frame.definition branches).Holds interp) :
    (frame.definition branches).Holds { interp with function := function } := by
  have self : (after.addDefinition (frame.definition branches)).Declares declaration.name := by
    have known := declared.signature_functions declaration.name
    rw [if_pos rfl, ← declared.later_signature] at known
    obtain ⟨_, found, -⟩ := Option.map_eq_some_iff.mp known
    exact .inr (.inr (.inl (by rw [found]; rfl)))
  rw [declared.holds_iff formed algebras] at holds
  refine (declared.holds_iff formed (show middle.Algebras { interp with function := function } from
    algebras)).mpr fun arguments arm listed fields matched => ?_
  refine Eq.trans (congrFun (agree _ self) _) ((holds arguments arm listed fields matched).trans ?_)
  refine congrArg Element.toValue (denote_congr arm.value fun callee passed calls => ?_)
  refine Interp.call_congr rfl ?_
  exact (congrFun (agree _ (declared.arm_calls listed calls)) _).symm

/-- The arms' function makes the definition true. -/
theorem FunctionDeclared.exists_function
    (declared : FunctionDeclared declaration middle after frame branches)
    (formed : middle.WellFormed) (algebras : middle.Algebras interp) :
    ∃ function : Arguments interp.shapes declaration → Value,
      (frame.definition branches).Holds (interp.define declaration function) := by
  obtain ⟨function, fixed, -⟩ := (declared.descends formed algebras).existsUnique
  refine ⟨function, (declared.holds_iff formed (show middle.Algebras (interp.define declaration
    function) from algebras)).mpr ?_⟩
  intro (arguments : Arguments interp.shapes declaration) arm listed fields matched
  have value := congrFun fixed arguments
  rw [armValue, armFor_eq declared.arms.distinct listed matched] at value
  exact (Interp.define_function function arguments).trans value.symm

end

/-- Over free algebras some functions satisfy the definitions. -/
theorem Reached.exists_functions (reached : Reached runtime) (free : runtime.Free interp) :
    ∃ function : Identifier → List Value → Value, ∀ other : Identifier → List Value → Value,
      (∀ name, runtime.Declares name → other name = function name) →
      ∀ definition ∈ runtime.context.definitions,
        definition.Holds { interp with function := other } := by
  induction reached with
  | initial => exact ⟨interp.function, fun _ _ definition member => absurd member not_mem_nil⟩
  | @declared runtime later declaration reached run ih =>
    have order := reached.inOrder
    have before := declare_free order run free
    have declares : ∀ name, runtime.Declares name → later.Declares name :=
      fun _ known => (declare_includes order run).declares known
    obtain ⟨function, holds⟩ := ih before
    by_cases isFunction : ∃ item, declaration = .function item
    · obtain ⟨item, rfl⟩ := isFunction
      obtain ⟨middle, after, frame, branches, advances, declared, rfl⟩ :=
        declareFunction_ok order.formed run
      have formed := advances.wellFormed order.formed
      have algebras : middle.Algebras { interp with function := function } := by
        intro name info found
        rw [advances.extends_.datatypes_eq.1] at found
        exact before.datatypes name info found
      obtain ⟨added, new⟩ := declared.exists_function formed algebras
      refine ⟨(Interp.define { interp with function := function } item added).function,
        fun other agree definition member => ?_⟩
      rw [Runtime.addDefinition, declared.arms.advances.extends_.datatypes_eq.2] at member
      rcases mem_cons.mp member with rfl | old
      · exact declared.holds_congr formed (show middle.Algebras (Interp.define _ item added) from
          algebras) agree new
      · refine holds other (fun name known => ?_) definition
          (advances.extends_.datatypes_eq.2 ▸ old)
        rw [agree name (declares name known)]
        funext arguments
        refine Interp.define_other added (fun same => declared.new.2 ?_) arguments
        rw [← same]
        exact (advances.extends_.declares_iff name).mpr known
    · refine ⟨function, fun other agree => ?_⟩
      rw [((declare_context order run).definitions fun item is => isFunction ⟨item, is⟩).2]
      exact holds other fun name known => agree name (declares name known)
  | @proved runtime middle output proofs reached advances ih =>
    obtain ⟨_, _, _, _, rfl⟩ := advances.extends_
    exact ih ⟨free.datatypes, free.enums⟩

/-- What a document declares has a model: in every state that is reached, over any free algebras for
the declared types, there are functions that satisfy all definitions. -/
theorem reached_standard (reached : Reached runtime) (free : runtime.Free interp) :
    ∃ function : Identifier → List Value → Value,
      runtime.Standard { interp with function := function } := by
  obtain ⟨function, holds⟩ := reached.exists_functions free
  exact ⟨function, ⟨free.datatypes, free.enums⟩, holds function fun _ _ => rfl⟩

/-- Doubling has a model over the natural numbers. -/
theorem reached_standard_double : ∃ later function,
    (declareFunction Peano.functionDecl).run Peano.start = .ok ((), later) ∧
    later.Standard { Peano.interp with function := function } := by
  obtain ⟨later, run⟩ : ∃ later,
    (declare (.function Peano.functionDecl)).run Peano.start = .ok ((), later) := ⟨_, rfl⟩
  have tables := ((declare_leaves Peano.start_reached.inOrder run).2.1 (by simp)).1
  simp only [Runtime.typeTables, Prod.mk.injEq] at tables
  have same : SameTypes later Peano.start := ⟨tables.1.symm, tables.2.1.symm, tables.2.2.1.symm⟩
  obtain ⟨function, standard⟩ :=
    reached_standard (Peano.start_reached.declared run) (same.free Peano.start_free)
  exact ⟨later, function, run, standard⟩

end Fine.RuntimeDetail
