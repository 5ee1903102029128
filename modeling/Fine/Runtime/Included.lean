import Fine.Runtime.Reached

/-!
# What names stand for

Declarations only add new names to the tables, so expressions are elaborated in later states to the
same term, and with constants replaced to the term with these replaced.
-/

namespace Fine.RuntimeDetail

open Fine.Syntax Fine.Semantics Fine.Fallible List

variable {runtime later : Runtime}

/-! ## Elaboration in a larger state -/

/-- What a name or type stands for in one state, it does in the other. -/
structure Includes (first second : Runtime) : Prop where
  boolType : second.boolType = first.boolType
  intType : second.intType = first.intType
  compound : ∀ key type, first.compoundTypes.lookup key = some type →
    second.compoundTypes.lookup key = some type
  cases : ∀ name found, first.cases.lookup name = some found →
    second.cases.lookup name = some found
  constructors : ∀ name found, first.cases.lookup name = none →
    first.constructors.lookup name = some found →
    second.cases.lookup name = none ∧ second.constructors.lookup name = some found
  callees : ∀ name callee, first.callee? name = some callee → second.callee? name = some callee
  views : ∀ name view, first.views.lookup name = some view → second.views.lookup name = some view

namespace Includes

theorem refl (runtime : Runtime) : Includes runtime runtime :=
  ⟨rfl, rfl, fun _ _ => id, fun _ _ => id, fun _ _ none found => ⟨none, found⟩, fun _ _ => id,
    fun _ _ => id⟩

theorem trans {first second third : Runtime} (left : Includes first second)
    (right : Includes second third) : Includes first third where
  boolType := right.boolType.trans left.boolType
  intType := right.intType.trans left.intType
  compound key type found := right.compound key type (left.compound key type found)
  cases name found known := right.cases name found (left.cases name found known)
  constructors name found none known := by
    obtain ⟨still, here⟩ := left.constructors name found none known
    exact right.constructors name found still here
  callees name callee found := right.callees name callee (left.callees name callee found)
  views name view found := right.views name view (left.views name view found)

end Includes

theorem Advances.includes (advances : Advances runtime later) : Includes runtime later := by
  obtain ⟨⟨added, names, address, sequence, rfl⟩, valid⟩ := advances
  refine ⟨rfl, rfl, fun key type found => ?_, fun _ _ => id,
    fun _ _ none found => ⟨none, found⟩, fun _ _ => id, fun _ _ => id⟩
  exact Map.lookup_of_mem valid.types.compoundKeys (mem_append_right _ (Map.mem_of_lookup found))

/-- An elaborated expression with constants replaced. -/
def TypedExpression.substitute (replacements : List (Const × Term)) (found : TypedExpression) :
    TypedExpression :=
  ⟨found.type, found.expression.substitute replacements⟩

variable {span : SourceSpan} {after : Runtime}

theorem tupleType_includes {first second type : RuntimeType}
    (run : (tupleType first second span).run runtime = .ok (type, after))
    (includes : Includes after later) :
    (tupleType first second span).run later = .ok (type, later) := by
  unfold tupleType at run ⊢
  split at run
  · cases run
  rename_i flat
  rw [if_neg flat]
  simp only [run_get_bind] at run ⊢
  split at run
  · rename_i found known
    cases run
    simp only [includes.compound _ _ known]
    rfl
  · rename_i absent
    cases run
    have here := includes.compound ("(" ++ first.display ++ ", " ++ second.display ++ ")")
      (.tuple runtime.nextAddress runtime.tupleSequence first second) (by
        rw [Map.lookup_emplace, absent, if_pos rfl]
        rfl)
    simp only [here]
    rfl

variable {name : Identifier}

section Replaced

variable (replacements : List (Const × Term))

variable {result : TypedExpression} {otherwise : Expr → Run Term}

variable {left right : TypedExpression} {terms : List Term} {instead : Expr → Run Term}

theorem elaboratePair_includes
    (run : (elaboratePair span left right).run runtime = .ok (result, after))
    (includes : Includes after later) :
    (elaboratePair span (left.substitute replacements) (right.substitute replacements)).run later =
      .ok (result.substitute replacements, later) := by
  obtain ⟨type, behind, ran, run⟩ := run_bind_ok run
  cases run
  rw [elaboratePair, TypedExpression.substitute, TypedExpression.substitute,
    run_bind_of_ok (tupleType_includes ran includes)]
  simp only [TypedExpression.substitute, Term.substitute, Term.substituteAll_eq, map_cons, map_nil]
  rfl

/-- Binary expressions, with constants replaced. -/
theorem elaborateBinary_includes {op : BinaryOp}
    (run : (elaborateBinary span op left right).run runtime = .ok (result, after))
    (includes : Includes after later) :
    (elaborateBinary span op (left.substitute replacements) (right.substitute replacements)).run
      later = .ok (result.substitute replacements, later) ∧ after = runtime := by
  have operates : ∀ {operand result' : RuntimeType} {decl : FuncDecl} {message : String}
      {result : TypedExpression} {after : Runtime},
      (elaborateOperator span operand result' decl message left right).run runtime =
        .ok (result, after) →
      (elaborateOperator span operand result' decl message (left.substitute replacements)
        (right.substitute replacements)).run later =
        .ok (result.substitute replacements, later) ∧ after = runtime := by
    intro operand result' decl message result after run
    unfold elaborateOperator at run ⊢
    split at run
    · cases run
    rename_i fits
    cases run
    rw [TypedExpression.substitute, TypedExpression.substitute, if_neg fits]
    exact ⟨by simp only [TypedExpression.substitute, Term.substitute, Term.substituteAll_eq,
      map_cons, map_nil]; rfl, rfl⟩
  simp only [elaborateBinary, run_get_bind] at run ⊢
  cases op with
  | equal =>
    dsimp only at run ⊢
    split at run
    · cases run
    rename_i fits
    cases run
    rw [includes.boolType]
    rw [TypedExpression.substitute, TypedExpression.substitute, if_neg fits]
    simp only [TypedExpression.substitute, Term.substitute, Term.substituteAll_eq, map_cons,
      map_nil]
    exact ⟨rfl, trivial⟩
  | greaterEqual | lessEqual | logicalAnd | logicalOr | add | subtract =>
    obtain ⟨ran, rfl⟩ := operates run
    rw [includes.boolType, includes.intType]
    exact ⟨ran, rfl⟩

theorem elaborateConditional_includes {conditionSpan : SourceSpan}
    {condition yes no : TypedExpression}
    (run : (elaborateConditional conditionSpan span condition yes no).run runtime =
      .ok (result, after)) (includes : Includes after later) :
    (elaborateConditional conditionSpan span (condition.substitute replacements)
      (yes.substitute replacements) (no.substitute replacements)).run later =
      .ok (result.substitute replacements, later) ∧ after = runtime := by
  simp only [elaborateConditional, run_get_bind] at run ⊢
  split at run
  · cases run
  rename_i isBool
  split at run
  · cases run
  rename_i fits
  cases run
  rw [includes.boolType]
  rw [TypedExpression.substitute, TypedExpression.substitute, TypedExpression.substitute,
    if_neg isBool, if_neg fits]
  simp only [TypedExpression.substitute, Term.substitute, Term.substituteAll_eq, map_cons, map_nil]
  exact ⟨rfl, trivial⟩

/-- The first environment with constants replaced. -/
def Environment.Replaced (environment other : Environment) : Prop :=
  ∀ name, other.lookup name =
    (environment.lookup name).map (TypedExpression.substitute replacements)

variable {replacements} {environment other : Environment}

/-- A name is elaborated with constants replaced. -/
theorem elaborateName_includes (replaced : environment.Replaced replacements other)
    (run : (elaborateName environment span name).run runtime = .ok (result, after))
    (includes : Includes after later) :
    (elaborateName other span name).run later = .ok (result.substitute replacements, later) := by
  unfold elaborateName at run ⊢
  rw [replaced name]
  cases found : environment.lookup name with
  | some entry =>
    simp only [found] at run
    cases run
    rfl
  | none =>
    simp only [found, run_get_bind] at run
    simp only [Option.map_none, run_get_bind]
    split at run
    · rename_i known
      cases run
      simp only [includes.cases _ _ known]
      simp only [TypedExpression.substitute, EnumInfo.value, Term.substitute,
        Term.substituteAll_eq, map_nil]
      rfl
    · rename_i none
      split at run
      · cases run
      rename_i datatype item known
      split at run
      · rename_i bare
        cases run
        obtain ⟨still, here⟩ := includes.constructors _ _ none known
        simp only [still, here, bare, if_true]
        simp only [TypedExpression.substitute, Term.substitute, Term.substituteAll_eq, map_nil]
        rfl
      · cases run

/-- Elaboration with constants replaced, in every state that includes what it left. -/
def ElaboratesReplaced (replacements : List (Const × Term)) (environment other : Environment)
    (expression : Expr) : Prop :=
  ∀ {runtime after later : Runtime} {result : TypedExpression}, runtime.Valid →
    environment.Valid runtime →
    (elaborate environment expression).run runtime = .ok (result, after) →
    Includes after later →
    (elaborate other expression).run later = .ok (result.substitute replacements, later)

/-- Arguments with constants replaced, if each is. -/
theorem elaborateArguments_includes {mismatch : Nat → RuntimeType → String}
    (instead : Nat → RuntimeType → String) {arguments : List Expr}
    (each : ∀ argument ∈ arguments, ElaboratesReplaced replacements environment other argument)
    {index : Nat} {types : List RuntimeType} (valid : runtime.Valid)
    (names : environment.Valid runtime) (known : ∀ type ∈ types, type ∈ runtime.objects)
    (length : arguments.length = types.length)
    (run : (elaborateArguments environment mismatch index arguments types).run runtime =
      .ok (terms, after)) (includes : Includes after later) :
    (elaborateArguments other instead index arguments types).run later =
      .ok (terms.map (Term.substitute replacements), later) := by
  induction arguments generalizing index types terms runtime with
  | nil =>
    cases run
    rfl
  | cons argument arguments ih =>
    cases types with
    | nil => cases length
    | cons type types =>
      rw [elaborateArguments] at run ⊢
      obtain ⟨first, between, ran, run⟩ := run_bind_ok run
      have elaborated := elaborate_ok argument valid names ran
      split at run
      · cases run
      rename_i fits
      obtain ⟨rest, behind, ran', run⟩ := run_bind_ok run
      cases run
      have names' := names.extends_ elaborated.extends_
      have kept : ∀ other ∈ types, other ∈ between.objects :=
        fun other member => elaborated.extends_.objects (known other (by simp [member]))
      have all := elaborateArguments_ok (fun expression _ => elaborate_ok expression)
        elaborated.valid names' kept (Nat.succ.inj length) ran'
      have advances : Advances between after := ⟨all.extends_, all.valid⟩
      rw [run_bind_of_ok (each argument (by simp) valid names ran
        (advances.includes.trans includes))]
      rw [TypedExpression.substitute, if_neg fits]
      rw [run_bind_of_ok (ih (fun other member => each other (by simp [member])) elaborated.valid
        names' kept (Nat.succ.inj length) ran')]
      rfl

variable (replaced : environment.Replaced replacements other)

include replaced

/-- Every expression is. -/
theorem elaborate_includes (expression : Expr)
    : ElaboratesReplaced replacements environment other expression := by
  induction expression with
  | name info name =>
    intro runtime after later result valid names run includes
    rw [elaborate] at run ⊢
    exact elaborateName_includes replaced run includes
  | boolean info value =>
    intro runtime after later result valid names run includes
    rw [elaborate] at run ⊢
    cases run
    rw [run_get_bind, includes.boolType]
    cases value <;> rfl
  | integer info literal =>
    intro runtime after later result valid names run includes
    rw [elaborate] at run ⊢
    cases run
    rw [run_get_bind, includes.intType]
    rfl
  | tuple info elements ih =>
    intro runtime after later result valid names run includes
    rcases elements with _ | ⟨first, _ | ⟨second, _ | ⟨third, more⟩⟩⟩
    · cases run
    · cases run
    · rw [elaborate] at run ⊢
      obtain ⟨left, between, ran, run⟩ := run_bind_ok run
      obtain ⟨right, behind, ran', run⟩ := run_bind_ok run
      have one := elaborate_ok first valid names ran
      have names' := names.extends_ one.extends_
      have two := elaborate_ok second one.valid names' ran'
      have compounded : Compounded behind after result.type := by
        obtain ⟨type, last, made, run⟩ := run_bind_ok run
        cases run
        exact (tupleType_ok two.valid.types (two.extends_.objects one.listed) two.listed made).1
      have last : Advances behind after := ⟨compounded.extends_, compounded.stateValid two.valid⟩
      have here := last.includes.trans includes
      rw [run_bind_of_ok (ih first (by simp) valid names ran (two.advances.includes.trans here)),
        run_bind_of_ok (ih second (by simp) one.valid names' ran' here)]
      exact elaboratePair_includes replacements run includes
    · cases run
  | call info name arguments ih =>
    intro runtime after later result valid names run includes
    have all := elaborateCall_inversion (fun expression _ => elaborate_ok expression) valid names
      run
    rw [elaborate] at run ⊢
    simp only [run_get_bind] at run ⊢
    split at run
    · cases run
    rename_i callee found
    split at run
    · cases run
    rename_i arity
    obtain ⟨terms, between, ran, run⟩ := run_bind_ok run
    cases run
    obtain ⟨_, _, _, _, all⟩ := all
    have advances : Advances runtime after := ⟨all.extends_, all.valid⟩
    simp only [includes.callees _ _ (advances.includes.callees _ _ found), if_neg arity]
    rw [run_bind_of_ok (elaborateArguments_includes _ ih valid names
      (callee?_fits valid found).parameters (by simpa using arity) ran includes)]
    simp only [TypedExpression.substitute, Term.substitute, Term.substituteAll_eq]
    rfl
  | binary info op left right leftIh rightIh =>
    intro runtime after later result valid names run includes
    rw [elaborate] at run ⊢
    obtain ⟨first, between, ran, run⟩ := run_bind_ok run
    obtain ⟨second, behind, ran', run⟩ := run_bind_ok run
    have one := elaborate_ok left valid names ran
    have names' := names.extends_ one.extends_
    have two := elaborate_ok right one.valid names' ran'
    obtain ⟨operates, rfl⟩ := elaborateBinary_includes replacements run includes
    rw [run_bind_of_ok (leftIh valid names ran (two.advances.includes.trans includes)),
      run_bind_of_ok (rightIh one.valid names' ran' includes)]
    exact operates
  | conditional info condition yes no conditionIh yesIh noIh =>
    intro runtime after later result valid names run includes
    rw [elaborate] at run ⊢
    obtain ⟨test, between, ran, run⟩ := run_bind_ok run
    obtain ⟨first, behind, ran', run⟩ := run_bind_ok run
    obtain ⟨second, last, ran'', run⟩ := run_bind_ok run
    have zero := elaborate_ok condition valid names ran
    have names' := names.extends_ zero.extends_
    have one := elaborate_ok yes zero.valid names' ran'
    have names'' := names'.extends_ one.extends_
    have two := elaborate_ok no one.valid names'' ran''
    obtain ⟨chooses, rfl⟩ := elaborateConditional_includes replacements run includes
    have here := two.advances.includes.trans includes
    rw [run_bind_of_ok (conditionIh valid names ran (one.advances.includes.trans here)),
      run_bind_of_ok (yesIh zero.valid names' ran' here),
      run_bind_of_ok (noIh one.valid names'' ran'' includes)]
    exact chooses
  | hole info name =>
    intro runtime after later result valid names run includes
    cases run

theorem elaborateAs_includes (fails : ∀ expression, Fails (otherwise expression))
    {expected : RuntimeType} {expression : Expr} {term : Term} (valid : runtime.Valid)
    (names : environment.Valid runtime) (known : expected ∈ runtime.objects)
    (run : (elaborateAs environment expected otherwise expression).run runtime = .ok (term, after))
    (includes : Includes after later) :
    (elaborateAs other expected instead expression).run later =
      .ok (term.substitute replacements, later) := by
  obtain ⟨elaborated, ran⟩ := elaborateAs_ok valid names known fails run
  have same : expected.same expected = true :=
    (elaborated.valid.types.same_iff elaborated.listed elaborated.listed).mpr rfl
  rw [elaborateAs, run_bind_of_ok (elaborate_includes replaced expression valid names ran includes),
    TypedExpression.substitute, if_neg (by simp [same])]
  rfl

/-- Conditions are elaborated with constants replaced. -/
theorem elaborateConditions_includes (fails : ∀ expression, Fails (otherwise expression))
    {conditions : List Expr} (valid : runtime.Valid) (names : environment.Valid runtime)
    (run : (elaborateConditions environment otherwise conditions).run runtime = .ok (terms, after))
    (includes : Includes after later) :
    (elaborateConditions other instead conditions).run later =
      .ok (terms.map (Term.substitute replacements), later) := by
  induction conditions generalizing runtime terms with
  | nil => cases run; rfl
  | cons condition conditions ih =>
    simp only [elaborateConditions, run_get_bind] at run ⊢
    obtain ⟨term, between, ran, run⟩ := run_bind_ok run
    obtain ⟨rest, behind, ran', run⟩ := run_bind_ok run
    cases run
    have first := (elaborateAs_ok valid names valid.types.bool_mem fails ran).1
    have names' := names.extends_ first.extends_
    have second := (elaborateConditions_ok fails first.valid names' ran').1
    have bool : later.boolType = runtime.boolType :=
      (first.advances.includes.trans (second.includes.trans includes)).boolType
    rw [bool, run_bind_of_ok (elaborateAs_includes replaced fails valid names
      valid.types.bool_mem ran (second.includes.trans includes)),
      run_bind_of_ok (ih first.valid names' ran')]
    rfl

theorem viewWitness_includes (fails : ∀ expression, Fails (otherwise expression))
    {carrier : RuntimeType} {witness : Option Expr} {term : Option Term} (valid : runtime.Valid)
    (names : environment.Valid runtime) (known : carrier ∈ runtime.objects)
    (run : (viewWitness environment carrier otherwise witness).run runtime = .ok (term, after))
    (includes : Includes after later) :
    (viewWitness other carrier instead witness).run later =
      .ok (term.map (Term.substitute replacements), later) := by
  cases witness with
  | none => cases run; rfl
  | some witness =>
    rw [viewWitness] at run ⊢
    obtain ⟨found, between, ran, run⟩ := run_bind_ok run
    cases run
    rw [run_bind_of_ok (elaborateAs_includes replaced fails valid names known ran includes)]
    rfl

end Replaced

/-! ## Later declarations -/

/-- What a declared name stands for. -/
structure Stands (first second : Runtime) (name : Identifier) : Prop where
  cases : second.cases.lookup name = first.cases.lookup name
  constructors : second.constructors.lookup name = first.constructors.lookup name
  functions : second.functions.lookup name = first.functions.lookup name
  predicates : ∀ found, first.predicates.lookup name = some found →
    ∃ other, second.predicates.lookup name = some other ∧ other.name = found.name ∧
      other.indexTypes = found.indexTypes
  absent : first.predicates.lookup name = none → second.predicates.lookup name = none

/-- Where declared names stand for the same, with types and views, all is included. -/
theorem Includes.of_stands {first second : Runtime} (bool : second.boolType = first.boolType)
    (int : second.intType = first.intType) (compound : second.compoundTypes = first.compoundTypes)
    (views : ∀ name view, first.views.lookup name = some view →
      second.views.lookup name = some view)
    (stands : ∀ name, first.Declares name → Stands first second name) : Includes first second where
  boolType := bool
  intType := int
  compound key type found := by rw [compound]; exact found
  cases name found known := by
    rw [(stands name (.inl (by simp [known]))).cases]
    exact known
  constructors name found none known := by
    have same := stands name (.inr (.inl (by simp [known])))
    rw [same.cases, same.constructors]
    exact ⟨none, known⟩
  callees name callee found := by
    have declared : first.Declares name := by
      unfold Runtime.callee? at found
      split at found
      · rename_i known
        exact .inr (.inl (by simp [known]))
      split at found
      · rename_i known
        exact .inr (.inr (.inr (by simp [known])))
      · obtain ⟨item, known, -⟩ := Option.map_eq_some_iff.mp found
        exact .inr (.inr (.inl (by simp [known])))
    have same := stands name declared
    unfold Runtime.callee? at found ⊢
    rw [same.constructors, same.functions]
    split at found
    · exact found
    cases known : first.predicates.lookup name with
    | none =>
      rw [known] at found
      rw [same.absent known]
      exact found
    | some item =>
      rw [known] at found
      obtain ⟨other, here, named, types⟩ := same.predicates item known
      rw [here]
      simp only [predicateCallee, PredicateInfo.relation, named, types, bool] at found ⊢
      exact found
  views := views

theorem lookup_none_of_new {α β : Type} {items : List α} {key : α → Identifier} {entry : α → β}
    (new : ∀ item ∈ items, ¬ runtime.Declares (key item)) (declared : runtime.Declares name) :
    (items.map fun item => (key item, entry item)).lookup name = none := by
  cases found : (items.map fun item => (key item, entry item)).lookup name with
  | none => rfl
  | some other =>
    obtain ⟨item, inside, rfl, -⟩ := mem_of_lookup_map found
    exact absurd declared (new item inside)

theorem EnumDeclared.includes {declaration : EnumDecl}
    (declared : EnumDeclared declaration runtime later) : Includes runtime later := by
  cases declared with
  | @datatype info _ new =>
    refine .of_stands rfl rfl rfl (fun _ _ => id) fun name old => ?_
    refine ⟨rfl, ?_, rfl, fun found known => ⟨found, known, rfl, rfl⟩, id⟩
    rw [Runtime.addDatatype, Map.lookup_emplaceAll,
      lookup_none_of_new (fun item member => (new.names item member).2) old, Option.or_none]
  | @enumeration info _ new =>
    refine .of_stands rfl rfl rfl (fun _ _ => id) fun name old => ?_
    refine ⟨?_, rfl, rfl, fun found known => ⟨found, known, rfl, rfl⟩, id⟩
    have fresh : ∀ item ∈ info.caseNames.zipIdx, ¬ runtime.Declares item.1 := fun item member =>
      (new.names item.1 (fst_mem_of_mem_zipIdx member)).2
    rw [Runtime.addEnum, Map.lookup_emplaceAll, lookup_none_of_new fresh old, Option.or_none]

theorem Keeps.includes (keeps : Keeps runtime later)
    (views : ∀ name view, runtime.views.lookup name = some view →
      later.views.lookup name = some view) : Includes runtime later := by
  obtain ⟨_, _, _, _, _, _, rfl⟩ := keeps
  exact .of_stands rfl rfl rfl views fun _ _ =>
    ⟨rfl, rfl, rfl, fun found known => ⟨found, known, rfl, rfl⟩, id⟩

theorem addFunction_includes (info : FunctionInfo) (new : ¬ runtime.Declares info.name) :
    Includes runtime (runtime.addFunction info) := by
  refine .of_stands rfl rfl rfl (fun _ _ => id) fun name old => ?_
  refine ⟨rfl, rfl, ?_, fun found known => ⟨found, known, rfl, rfl⟩, id⟩
  have other : name ≠ info.name := fun same => new (same ▸ old)
  rw [Runtime.addFunction, Map.lookup_emplace, if_neg other, Option.or_none]

theorem addPredicate_includes (info : PredicateInfo) (new : ¬ runtime.Declares info.name) :
    Includes runtime (runtime.addPredicate info) := by
  refine .of_stands rfl rfl rfl (fun _ _ => id) fun name old => ?_
  have other : name ≠ info.name := fun same => new (same ▸ old)
  have same : (runtime.addPredicate info).predicates.lookup name =
      runtime.predicates.lookup name := by
    rw [Runtime.addPredicate, Map.lookup_emplace, if_neg other, Option.or_none]
  exact ⟨rfl, rfl, rfl, fun found known => ⟨found, same.trans known, rfl, rfl⟩, same.trans⟩

theorem setConstructors_includes (runtime : Runtime) (declared : Identifier)
    (constructors : List PredicateConstructorInfo) :
    Includes runtime (runtime.setConstructors declared constructors) := by
  refine .of_stands rfl rfl rfl (fun _ _ => id) fun name old => ?_
  have same := setConstructors_lookup runtime declared name constructors
  refine ⟨rfl, rfl, rfl, fun found known => ?_, fun none => by rw [same, none]; rfl⟩
  rw [same, known]
  refine ⟨_, rfl, ?_, ?_⟩ <;> split <;> rfl

theorem Ruled.includes (ruled : Ruled runtime later) :
    Includes runtime later := by
  have advances : Advances runtime { later with fixedpoint := runtime.fixedpoint } :=
    ⟨ruled.extends_, Keeps.valid ⟨_, _, _, _, _, _, rfl⟩ ruled.valid⟩
  have back : Includes { later with fixedpoint := runtime.fixedpoint } later :=
    Keeps.includes ⟨_, _, _, _, _, _, rfl⟩ fun _ _ => id
  exact advances.includes.trans back

/-- A declaration leaves what names stand for. -/
theorem declare_includes (order : runtime.InOrder) {declaration : Declaration}
    (run : (declare declaration).run runtime = .ok ((), later)) : Includes runtime later := by
  cases declaration with
  | enum declaration =>
    obtain ⟨middle, advances, declared⟩ := declareEnum_ok order.formed run
    exact advances.includes.trans declared.includes
  | function declaration =>
    obtain ⟨middle, after, frame, branches, advances, declared, rfl⟩ :=
      declareFunction_ok order.formed run
    have entered := addFunction_includes ⟨declaration.name, frame.formals.map Formal.type,
      frame.resultType⟩ declared.new.2
    exact ((advances.includes.trans entered).trans declared.arms.advances.includes).trans
      ((keeps_addDefinition _ _).includes fun _ _ => id)
  | letBinding declaration =>
    obtain ⟨middle, bindings, advances, rfl⟩ := declareLet_ok order.formed.toValid run
    exact advances.includes.trans (Keeps.includes ⟨_, _, _, _, _, _, rfl⟩ fun _ _ => id)
  | model declaration =>
    obtain ⟨middle, bindings, advances, rfl⟩ := declareModel_ok order.formed.toValid run
    exact advances.includes.trans (Keeps.includes ⟨_, _, _, _, _, _, rfl⟩ fun _ _ => id)
  | view declaration =>
    obtain ⟨middle, view, advances, known, rfl⟩ := declareView_ok order.formed.toValid run
    refine advances.includes.trans (Keeps.includes ⟨_, _, _, _, _, _, rfl⟩ ?_)
    exact fun name found known => Map.emplace_keeps known
  | predicate declaration =>
    obtain ⟨middle, after, indices, kept, advances, declared, rfl⟩ :=
      declarePredicate_ok order.formed order.views run
    have entered := addPredicate_includes (predicateInfo declaration indices) declared.new.2
    exact ((advances.includes.trans entered).trans declared.rules.includes).trans
      (setConstructors_includes _ _ _)
  | solve | synth | check | counterexample => cases run; exact .refl _

/-- Reached by declarations, with proofs in between. -/
inductive Leads (first : Runtime) : Runtime → Prop where
  | refl : Leads first first
  | declared {runtime later declaration} : Leads first runtime →
      (declare declaration).run runtime = .ok ((), later) → Leads first later
  | proved {runtime middle output proofs} : Leads first runtime → Advances runtime middle →
      Leads first { middle with output := output, admittedProofs := proofs }

namespace Leads

variable {first second : Runtime}

theorem reached (leads : Leads first second) (reached : Reached first) : Reached second := by
  induction leads with
  | refl => exact reached
  | declared _ run ih => exact ih.declared run
  | proved _ advances ih => exact ih.proved advances

theorem includes (leads : Leads first second) (reached : Reached first) :
    Includes first second := by
  induction leads with
  | refl => exact .refl _
  | declared before run ih =>
    exact ih.trans (declare_includes (before.reached reached).inOrder run)
  | proved _ advances ih =>
    exact (ih.trans advances.includes).trans (Keeps.includes ⟨_, _, _, _, _, _, rfl⟩ fun _ _ => id)

end Leads

end Fine.RuntimeDetail
