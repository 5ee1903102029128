import Fine.Runtime.Invariant

/-!
# Elaboration is typing and keeps the meaning

An expression is elaborated exactly when it is well typed, to a term that means what it denotes.
-/

namespace Fine.RuntimeDetail

open Fine.Syntax Fine.Semantics Fine.Fallible List

/-- What the state declares. -/
def Runtime.signature (runtime : Runtime) : Signature where
  cases name := (runtime.cases.lookup name).map fun entry => entry.1.name
  constructors name := (runtime.constructors.lookup name).map fun entry =>
    (entry.1.name, entry.2.fieldTypes.map RuntimeType.meaning)
  functions name := (runtime.functions.lookup name).map fun info =>
    (info.parameterTypes.map RuntimeType.meaning, info.resultType.meaning)
  predicates name := (runtime.predicates.lookup name).map fun info =>
    info.indexTypes.map RuntimeType.meaning

/-- Every name is declared as itself, with type objects. -/
structure Runtime.NamesValid (runtime : Runtime) : Prop where
  cases : ∀ name info index, runtime.cases.lookup name = some (info, index) →
    info.caseNames.getD index default = name ∧ info.type ∈ runtime.objects ∧
      info.type.meaning = .named info.name
  constructors : ∀ name datatype item, runtime.constructors.lookup name = some (datatype, item) →
    item.name = name ∧ datatype.type ∈ runtime.objects ∧
      datatype.type.meaning = .named datatype.name ∧ item.range = datatype.type.sort ∧
      ∀ type ∈ item.fieldTypes, type ∈ runtime.objects
  functions : ∀ name info, runtime.functions.lookup name = some info →
    info.name = name ∧ (∀ type ∈ info.parameterTypes, type ∈ runtime.objects) ∧
      info.resultType ∈ runtime.objects
  predicates : ∀ name info, runtime.predicates.lookup name = some info →
    info.name = name ∧ ∀ type ∈ info.indexTypes, type ∈ runtime.objects

/-- The tables of the state are in order. -/
structure Runtime.Valid (runtime : Runtime) : Prop where
  types : runtime.TypesValid
  names : runtime.NamesValid

theorem Extends.signature_eq {first second : Runtime} (extends_ : Extends first second) :
    second.signature = first.signature := by
  obtain ⟨added, names, address, sequence, rfl⟩ := extends_
  rfl

theorem Extends.namesValid {first second : Runtime} (extends_ : Extends first second)
    (valid : first.NamesValid) : second.NamesValid := by
  have listed : ∀ {type}, type ∈ first.objects → type ∈ second.objects := extends_.objects
  obtain ⟨added, names, address, sequence, rfl⟩ := extends_
  constructor
  · intro name info index found
    obtain ⟨one, two, three⟩ := valid.cases name info index found
    exact ⟨one, listed two, three⟩
  · intro name datatype item found
    obtain ⟨one, two, three, four, five⟩ := valid.constructors name datatype item found
    exact ⟨one, listed two, three, four, fun type member => listed (five type member)⟩
  · intro name info found
    obtain ⟨one, two, three⟩ := valid.functions name info found
    exact ⟨one, fun type member => listed (two type member), listed three⟩
  · intro name info found
    obtain ⟨one, two⟩ := valid.predicates name info found
    exact ⟨one, fun type member => listed (two type member)⟩

theorem Compounded.stateValid {runtime later : Runtime} {type : RuntimeType}
    (compounded : Compounded runtime later type) (valid : runtime.Valid) : later.Valid :=
  ⟨compounded.valid, compounded.extends_.namesValid valid.names⟩

namespace Environment

def scope (environment : Environment) : Scope := fun name =>
  (environment.lookup name).map fun found => found.type.meaning

noncomputable def meaning (environment : Environment) (interp : Interp)
    (assignment : Assignment) : Meaning := fun name =>
  (environment.lookup name).map fun found => eval interp found.expression assignment

/-- Names in scope have objects and terms of their sorts. -/
def Valid (environment : Environment) (runtime : Runtime) : Prop :=
  ∀ name found, environment.lookup name = some found →
    found.type ∈ runtime.objects ∧ found.expression.sort? = some found.type.sort

theorem Valid.extends_ {environment : Environment} {first second : Runtime}
    (valid : environment.Valid first) (more : Extends first second) : environment.Valid second :=
  fun name found lookup =>
    ⟨more.objects (valid name found lookup).1, (valid name found lookup).2⟩

end Environment

/-- What the elaboration of an expression gives. -/
structure Elaborated (environment : Environment) (runtime later : Runtime) (expression : Expr)
    (result : TypedExpression) : Prop where
  extends_ : Extends runtime later
  valid : later.Valid
  listed : result.type ∈ later.objects
  typed : HasType runtime.signature environment.scope expression result.type.meaning
  sorted : result.expression.sort? = some result.type.sort
  denotes : ∀ interp assignment, eval interp result.expression assignment =
    denote runtime.signature interp (environment.meaning interp assignment) expression
  plain : (∀ name found, environment.lookup name = some found →
    found.expression.quantifierFree = true) → result.expression.quantifierFree = true
  constants : ∀ constant ∈ result.expression.constants, ∃ name found,
    environment.lookup name = some found ∧ constant ∈ found.expression.constants

variable {environment : Environment} {runtime later : Runtime}

variable {first second : Expr} {info : NodeInfo} {name : Identifier}
  {result left right : TypedExpression} {arguments : List Expr} {between behind : Runtime}

/-- A name is elaborated as the rules say. -/
theorem elaborateName_ok (valid : runtime.Valid) (names : environment.Valid runtime)
    (run : (elaborateName environment info.span name).run runtime = .ok (result, later)) :
    Elaborated environment runtime later (.name info name) result := by
  unfold elaborateName at run
  cases inScope : environment.lookup name with
  | some found =>
    simp only [inScope] at run
    cases run
    obtain ⟨listed, sorted⟩ := names name _ inScope
    refine ⟨.refl _, valid, listed, .inScope (by simp [Environment.scope, inScope]), sorted, ?_,
      fun plain => plain name _ inScope, fun constant member => ⟨name, _, inScope, member⟩⟩
    intro interp assignment
    simp [denote, Environment.meaning, inScope]
  | none =>
    have hidden : environment.scope name = none := by simp [Environment.scope, inScope]
    simp only [inScope, run_get_bind] at run
    cases enumCase : runtime.cases.lookup name with
    | some entry =>
      obtain ⟨enumeration, index⟩ := entry
      simp only [enumCase] at run
      cases run
      obtain ⟨same, listed, meaning⟩ := valid.names.cases name enumeration index enumCase
      have known : runtime.signature.cases name = some enumeration.name := by
        simp [Runtime.signature, enumCase]
      refine ⟨.refl _, valid, listed, ?_, ?_, ?_, fun _ => rfl, ?_⟩
      · rw [meaning]
        exact .enumCase hidden known
      · simp [EnumInfo.value, Term.sort?, Term.sorts?, FuncDecl.range?]
      · intro interp assignment
        rw [EnumInfo.value, same]
        simp [eval, FuncDecl.apply, denote, Environment.meaning, inScope]
      · simp [EnumInfo.value, Term.constants]
    | none =>
      simp only [enumCase] at run
      cases constructor : runtime.constructors.lookup name with
      | none =>
        simp only [constructor] at run
        cases run
      | some entry =>
        obtain ⟨datatype, item⟩ := entry
        simp only [constructor] at run
        split at run
        · rename_i empty
          cases run
          have none : item.fieldTypes = [] := List.isEmpty_iff.mp empty
          obtain ⟨same, listed, meaning, range, -⟩ :=
            valid.names.constructors name datatype item constructor
          have known : runtime.signature.constructors name = some (datatype.name, []) := by
            simp [Runtime.signature, constructor, none]
          refine ⟨.refl _, valid, listed, ?_, ?_, ?_, fun _ => rfl, ?_⟩
          · rw [meaning]
            exact .constant hidden (by simp [Runtime.signature, enumCase]) known
          · simp [DatatypeCaseInfo.constructor, Term.sort?, Term.sorts?, FuncDecl.range?, none, range]
          · intro interp assignment
            simp [DatatypeCaseInfo.constructor, eval, FuncDecl.apply, same, denote,
              Environment.meaning, inScope]
          · simp [Term.constants]
        · cases run

variable {type : FineType} {types : List RuntimeType} {expression condition : Expr}
  {decl : FuncDecl} {results : List TypedExpression} {op : BinaryOp} {operand : RuntimeType}
  {message : String} {span : SourceSpan} {test : TypedExpression} {after : Runtime}

theorem elaborateName_total
    (typed : HasType runtime.signature environment.scope (.name info name) type) :
    ∃ result later, (elaborateName environment info.span name).run runtime =
      .ok (result, later) := by
  unfold elaborateName
  cases inScope : environment.lookup name with
  | some found => exact ⟨_, _, rfl⟩
  | none =>
    simp only [run_get_bind]
    cases enumCase : runtime.cases.lookup name with
    | some entry => exact ⟨_, _, rfl⟩
    | none =>
      cases typed with
      | inScope found => simp [Environment.scope, inScope] at found
      | enumCase hidden known => simp [Runtime.signature, enumCase] at known
      | constant hidden other known =>
        obtain ⟨⟨datatype, item⟩, constructor, same⟩ := Option.map_eq_some_iff.mp known
        simp only [Prod.mk.injEq, map_eq_nil_iff] at same
        rw [constructor]
        simp only [same.2, isEmpty_nil, if_true]
        exact ⟨_, _, rfl⟩

/-- What a called name is, as the rules see it. -/
structure Callee.Fits (callee : Callee) (runtime : Runtime) (name : Identifier) : Prop where
  parameters : ∀ type ∈ callee.parameterTypes, type ∈ runtime.objects
  result : callee.result ∈ runtime.objects
  /-- The call is typed by its arguments. -/
  rule : ∀ scope info arguments,
    HaveTypes runtime.signature scope arguments (callee.parameterTypes.map RuntimeType.meaning) →
    HasType runtime.signature scope (.call info name arguments) callee.result.meaning
  /-- A typed call has typed arguments. -/
  inversion : ∀ scope info arguments type,
    HasType runtime.signature scope (.call info name arguments) type →
    HaveTypes runtime.signature scope arguments (callee.parameterTypes.map RuntimeType.meaning)
  sort : callee.decl.range? (callee.parameterTypes.map RuntimeType.sort) = some callee.result.sort
  /-- The declaration means what the call denotes. -/
  call : ∀ interp elements, callee.decl.apply interp elements =
    interp.call runtime.signature name (elements.map Element.toValue)

/-- A called name that is found fits. -/
theorem callee?_fits (valid : runtime.Valid) {callee : Callee}
    (found : runtime.callee? name = some callee) : callee.Fits runtime name := by
  unfold Runtime.callee? at found
  cases constructor : runtime.constructors.lookup name with
  | some entry =>
    obtain ⟨datatype, item⟩ := entry
    rw [constructor] at found
    cases found
    obtain ⟨same, listed, meaning, range, fields⟩ :=
      valid.names.constructors name datatype item constructor
    have known : runtime.signature.constructors name =
        some (datatype.name, item.fieldTypes.map RuntimeType.meaning) := by
      simp [Runtime.signature, constructor]
    refine ⟨fields, listed, ?_, ?_, ?_, ?_⟩
    · intro scope info arguments typed
      change HasType _ _ _ datatype.type.meaning
      rw [meaning]
      exact .construct known typed
    · intro scope info arguments type typed
      cases typed with
      | construct known' typed => rw [known] at known'; cases known'; exact typed
      | atom other | apply other => rw [known] at other; cases other
    · simp [constructorCallee, DatatypeCaseInfo.constructor, FuncDecl.range?, range]
    · intro interp elements
      simp [constructorCallee, DatatypeCaseInfo.constructor, FuncDecl.apply, Interp.call, known, same]
  | none =>
    rw [constructor] at found
    have other : runtime.signature.constructors name = none := by
      simp [Runtime.signature, constructor]
    cases predicate : runtime.predicates.lookup name with
    | some item =>
      simp only [predicate] at found
      cases found
      obtain ⟨same, indices⟩ := valid.names.predicates name item predicate
      obtain ⟨address, bool⟩ := valid.types.bool_eq
      have known : runtime.signature.predicates name =
          some (item.indexTypes.map RuntimeType.meaning) := by
        simp [Runtime.signature, predicate]
      refine ⟨indices, valid.types.bool_mem, ?_, ?_, ?_, ?_⟩
      · intro scope info arguments typed
        change HasType _ _ _ runtime.boolType.meaning
        rw [bool]
        exact .atom other known typed
      · intro scope info arguments type typed
        cases typed with
        | construct known' => rw [other] at known'; cases known'
        | atom _ known' typed => rw [known] at known'; cases known'; exact typed
        | apply _ other' => rw [known] at other'; cases other'
      · simp [predicateCallee, PredicateInfo.relation, FuncDecl.range?, bool, RuntimeType.sort]
      · intro interp elements
        simp [predicateCallee, PredicateInfo.relation, FuncDecl.apply, Interp.call, other, known, same]
    | none =>
      simp only [predicate] at found
      obtain ⟨item, function, rfl⟩ := Option.map_eq_some_iff.mp found
      obtain ⟨same, parameters, result⟩ := valid.names.functions name item function
      have other' : runtime.signature.predicates name = none := by
        simp [Runtime.signature, predicate]
      have known : runtime.signature.functions name =
          some (item.parameterTypes.map RuntimeType.meaning, item.resultType.meaning) := by
        simp [Runtime.signature, function]
      refine ⟨parameters, result, ?_, ?_, ?_, ?_⟩
      · intro scope info arguments typed
        exact .apply other other' known typed
      · intro scope info arguments type typed
        cases typed with
        | construct known' => rw [other] at known'; cases known'
        | atom _ known' => rw [other'] at known'; cases known'
        | apply _ _ known' typed => rw [known] at known'; cases known'; exact typed
      · simp [functionCallee, FunctionInfo.declaration, FuncDecl.range?]
      · intro interp elements
        simp [functionCallee, FunctionInfo.declaration, FuncDecl.apply, Interp.call, other, other',
          same]

theorem callee?_total {scope : Scope}
    (typed : HasType runtime.signature scope (.call info name arguments) type) :
    ∃ callee, runtime.callee? name = some callee := by
  unfold Runtime.callee?
  cases constructor : runtime.constructors.lookup name with
  | some entry => exact ⟨_, rfl⟩
  | none =>
    cases predicate : runtime.predicates.lookup name with
    | some item => exact ⟨_, rfl⟩
    | none =>
      cases typed with
      | construct known => simp [Runtime.signature, constructor] at known
      | atom _ known => simp [Runtime.signature, predicate] at known
      | apply _ _ known =>
        obtain ⟨item, function, -⟩ := Option.map_eq_some_iff.mp known
        exact ⟨_, by simp [function]; rfl⟩

/-- What the elaboration of arguments gives. -/
structure ElaboratedAll (environment : Environment) (runtime later : Runtime)
    (arguments : List Expr) (types : List RuntimeType) (terms : List Term) : Prop where
  extends_ : Extends runtime later
  valid : later.Valid
  typed : HaveTypes runtime.signature environment.scope arguments
    (types.map RuntimeType.meaning)
  sorted : Term.sorts? terms = some (types.map RuntimeType.sort)
  denotes : ∀ interp assignment, (terms.map fun term => eval interp term assignment) =
    arguments.map fun argument =>
      denote runtime.signature interp (environment.meaning interp assignment) argument
  plain : (∀ name found, environment.lookup name = some found →
    found.expression.quantifierFree = true) → ∀ term ∈ terms, term.quantifierFree = true
  constants : ∀ term ∈ terms, ∀ constant ∈ term.constants, ∃ name found,
    environment.lookup name = some found ∧ constant ∈ found.expression.constants

/-- Elaborated as the rules say, in every state. -/
def ElaboratesOk (environment : Environment) (expression : Expr) : Prop :=
  ∀ {runtime later : Runtime} {result : TypedExpression}, runtime.Valid →
    environment.Valid runtime →
    (elaborate environment expression).run runtime = .ok (result, later) →
    Elaborated environment runtime later expression result

section

variable (each : ∀ argument ∈ arguments, ElaboratesOk environment argument)

include each

/-- Arguments are elaborated as the rules say, if each is. -/
theorem elaborateArguments_ok {mismatch : Nat → RuntimeType → String} {index : Nat}
    {terms : List Term} (valid : runtime.Valid) (names : environment.Valid runtime)
    (known : ∀ type ∈ types, type ∈ runtime.objects) (length : arguments.length = types.length)
    (run : (elaborateArguments environment mismatch index arguments types).run runtime =
      .ok (terms, later)) : ElaboratedAll environment runtime later arguments types terms := by
  induction arguments generalizing runtime later index types terms with
  | nil =>
    cases types with
    | nil =>
      rw [elaborateArguments] at run
      · cases run
        exact ⟨.refl _, valid, .nil, rfl, fun _ _ => rfl, by simp, by simp⟩
      · simp
    | cons => cases length
  | cons argument arguments ih =>
    cases types with
    | nil => cases length
    | cons type types =>
      rw [elaborateArguments] at run
      obtain ⟨elaborated, between, ran, run⟩ := run_bind_ok run
      have first := each argument (by simp) valid names ran
      split at run
      · cases run
      rename_i fits
      obtain ⟨rest, behind, ran', run⟩ := run_bind_ok run
      cases run
      have kept : ∀ other ∈ type :: types, other ∈ between.objects :=
        fun other member => first.extends_.objects (known other member)
      have same : elaborated.type = type := by
        have pointers : elaborated.type.same type = true := by simpa using fits
        exact first.valid.types.unique first.listed (kept type (by simp))
          ((first.valid.types.same_iff first.listed (kept type (by simp))).mp pointers)
      subst same
      have there := ih (fun other member => each other (by simp [member])) first.valid
        (names.extends_ first.extends_) (fun other member => kept other (by simp [member]))
        (Nat.succ.inj length) ran'
      have typed := there.typed
      rw [first.extends_.signature_eq] at typed
      refine ⟨first.extends_.trans there.extends_, there.valid, .cons first.typed typed, ?_, ?_,
        ?_, ?_⟩
      · simp [Term.sorts?, first.sorted, there.sorted]
      · intro interp assignment
        have denotes := there.denotes interp assignment
        rw [first.extends_.signature_eq] at denotes
        rw [map_cons, map_cons, first.denotes, denotes]
      · intro plain
        exact forall_mem_cons.mpr ⟨first.plain plain, there.plain plain⟩
      · exact forall_mem_cons.mpr ⟨first.constants, there.constants⟩

theorem elaborateCall_inversion (valid : runtime.Valid) (names : environment.Valid runtime)
    (run : (elaborate environment (.call info name arguments)).run runtime = .ok (result, later)) :
    ∃ callee terms, runtime.callee? name = some callee ∧
      result = ⟨callee.result, .app callee.decl terms⟩ ∧
      ElaboratedAll environment runtime later arguments callee.parameterTypes terms := by
  rw [elaborate] at run
  simp only [run_get_bind] at run
  split at run
  · cases run
  rename_i callee found
  split at run
  · cases run
  rename_i arity
  obtain ⟨terms, between, ran, run⟩ := run_bind_ok run
  cases run
  exact ⟨callee, terms, found, rfl, elaborateArguments_ok each valid names
    (callee?_fits valid found).parameters (by simpa using arity) ran⟩

theorem elaborateCall_ok :
    ElaboratesOk environment (.call info name arguments) := by
  intro runtime later result valid names run
  obtain ⟨callee, terms, found, rfl, all⟩ := elaborateCall_inversion each valid names run
  have fits := callee?_fits valid found
  refine ⟨all.extends_, all.valid, all.extends_.objects fits.result, fits.rule _ _ _ all.typed,
    ?_, ?_, ?_, ?_⟩
  · simp [Term.sort?, all.sorted, fits.sort]
  · intro interp assignment
    rw [eval_app, fits.call, all.denotes, denote, denoteAll_eq, map_map]
    rfl
  · intro plain
    simpa [Term.quantifierFree] using all.plain plain
  · intro constant member
    rw [Term.constants, Term.constantsAll_eq] at member
    obtain ⟨term, inside, member⟩ := mem_flatMap.mp member
    exact all.constants term inside constant member

end

theorem Elaborated.before (more : Extends runtime between)
    (elaborated : Elaborated environment between later expression result) :
    Elaborated environment runtime later expression result where
  extends_ := more.trans elaborated.extends_
  valid := elaborated.valid
  listed := elaborated.listed
  typed := more.signature_eq ▸ elaborated.typed
  sorted := elaborated.sorted
  denotes := more.signature_eq ▸ elaborated.denotes
  plain := elaborated.plain
  constants := elaborated.constants

theorem Elaborated.app_plain
    (each : ∀ result ∈ results, ∃ first last expression,
      Elaborated environment first last expression result)
    (plain : ∀ name found, environment.lookup name = some found →
      found.expression.quantifierFree = true) :
    (Term.app decl (results.map TypedExpression.expression)).quantifierFree = true := by
  simp only [Term.quantifierFree, Term.quantifierFreeAll_iff, forall_mem_map]
  intro result member
  obtain ⟨first, last, expression, elaborated⟩ := each result member
  exact elaborated.plain plain

theorem Elaborated.app_constants
    (each : ∀ result ∈ results, ∃ first last expression,
      Elaborated environment first last expression result) :
    ∀ constant ∈ (Term.app decl (results.map TypedExpression.expression)).constants,
      ∃ name found, environment.lookup name = some found ∧
        constant ∈ found.expression.constants := by
  intro constant member
  rw [Term.constants, Term.constantsAll_eq, mem_flatMap] at member
  obtain ⟨term, inside, member⟩ := member
  obtain ⟨result, listed, rfl⟩ := mem_map.mp inside
  obtain ⟨first, last, expression, elaborated⟩ := each result listed
  exact elaborated.constants constant member

section

variable (one : Elaborated environment runtime between first left)
  (two : Elaborated environment between behind second right)

include one two

theorem Elaborated.each_two :
    ∀ result ∈ [left, right], ∃ first last expression,
      Elaborated environment first last expression result := by
  simp only [forall_mem_cons, not_mem_nil, false_implies, implies_true, and_true]
  exact ⟨⟨_, _, _, one⟩, _, _, _, two⟩

theorem elaboratePair_ok
    (run : (elaboratePair info.span left right).run behind = .ok (result, later)) :
    Elaborated environment runtime later (.tuple info [first, second]) result := by
  obtain ⟨type, last, ran, run⟩ := run_bind_ok run
  cases run
  obtain ⟨compounded, flat, flat', address, sequence, rfl⟩ :=
    tupleType_ok two.valid.types (two.extends_.objects one.listed) two.listed ran
  have two' := two.before one.extends_
  have each := one.each_two two
  refine ⟨two'.extends_.trans compounded.extends_, compounded.stateValid two.valid,
    compounded.listed, ?_, ?_, ?_, Elaborated.app_plain each, Elaborated.app_constants each⟩
  · exact .pair one.typed two'.typed ((RuntimeType.isTable_meaning _).trans flat)
      ((RuntimeType.isTable_meaning _).trans flat')
  · simp [Term.sort?, Term.sorts?, one.sorted, two.sorted, RuntimeType.tupleConstructor,
      FuncDecl.range?, RuntimeType.sort]
  · intro interp assignment
    simp only [eval_app, map_cons, map_nil, one.denotes, two'.denotes,
      RuntimeType.tupleConstructor, FuncDecl.apply, denote, denoteAll]

end

/-- The solver's operator and the types of it. -/
structure OperatorFits (op : BinaryOp) (operand result : RuntimeType) (decl : FuncDecl) :
    Prop where
  types : operatorTypes op = some (operand.meaning, result.meaning)
  sort : decl.range? [operand.sort, operand.sort] = some result.sort
  apply : ∀ interp left right, decl.apply interp [left, right] = operate op left right

/-- An operator is elaborated as the rules say. -/
theorem elaborateOperator_ok {type : RuntimeType} (fits : OperatorFits op operand type decl)
    (known : operand ∈ runtime.objects) (known' : type ∈ runtime.objects)
    (one : Elaborated environment runtime between first left)
    (two : Elaborated environment between behind second right)
    (run : (elaborateOperator info.span operand type decl message left right).run behind =
      .ok (result, later)) :
    Elaborated environment runtime later (.binary info op first second) result := by
  unfold elaborateOperator at run
  split at run
  · cases run
  rename_i pointers
  cases run
  simp only [Bool.or_eq_true, Bool.not_eq_true', not_or, Bool.not_eq_false] at pointers
  have two' := two.before one.extends_
  have listed : operand ∈ later.objects := two'.extends_.objects known
  have leftListed : left.type ∈ later.objects := two.extends_.objects one.listed
  have same := two.valid.types.unique leftListed listed
    ((two.valid.types.same_iff leftListed listed).mp pointers.1)
  have same' := two.valid.types.unique two.listed listed
    ((two.valid.types.same_iff two.listed listed).mp pointers.2)
  have each := one.each_two two
  refine ⟨two'.extends_, two.valid, two'.extends_.objects known', ?_, ?_, ?_,
    Elaborated.app_plain each, Elaborated.app_constants each⟩
  · exact .operator fits.types (same ▸ one.typed) (same' ▸ two'.typed)
  · simp [Term.sort?, Term.sorts?, one.sorted, two.sorted, same, same', fits.sort]
  · intro interp assignment
    rw [eval_app, map_cons, map_cons, map_nil, one.denotes, two'.denotes, fits.apply, denote]

/-- A binary expression is elaborated as the rules say. -/
theorem elaborateBinary_ok (valid : runtime.Valid)
    (one : Elaborated environment runtime between first left)
    (two : Elaborated environment between behind second right)
    (run : (elaborateBinary info.span op left right).run behind = .ok (result, later)) :
    Elaborated environment runtime later (.binary info op first second) result := by
  have two' := two.before one.extends_
  obtain ⟨address, bool⟩ := two.valid.types.bool_eq
  obtain ⟨address', int⟩ := two.valid.types.int_eq
  have boolKept : behind.boolType = runtime.boolType := by
    obtain ⟨_, _, _, _, rfl⟩ := two'.extends_
    rfl
  have intKept : behind.intType = runtime.intType := by
    obtain ⟨_, _, _, _, rfl⟩ := two'.extends_
    rfl
  have boolMem : behind.boolType ∈ runtime.objects := boolKept ▸ valid.types.bool_mem
  have intMem : behind.intType ∈ runtime.objects := intKept ▸ valid.types.int_mem
  simp only [elaborateBinary, run_get_bind] at run
  cases op with
  | equal =>
    dsimp only at run
    split at run
    · cases run
    rename_i pointers
    cases run
    simp only [Bool.or_eq_true, Bool.not_eq_true', not_or, Bool.not_eq_false,
      Bool.not_eq_true] at pointers
    have leftListed : left.type ∈ later.objects := two.extends_.objects one.listed
    have same := two.valid.types.unique leftListed two.listed
      ((two.valid.types.same_iff leftListed two.listed).mp pointers.1)
    have each := one.each_two two
    refine ⟨two'.extends_, two.valid, two.valid.types.bool_mem, ?_, ?_, ?_,
      Elaborated.app_plain each, Elaborated.app_constants each⟩
    · change HasType _ _ _ later.boolType.meaning
      rw [bool]
      exact .equal one.typed (same ▸ two'.typed) (by simpa using pointers.2)
    · simp [Term.sort?, Term.sorts?, one.sorted, two.sorted, same, FuncDecl.range?, bool,
        RuntimeType.sort]
    · intro interp assignment
      simp only [eval_app, map_cons, map_nil, one.denotes, two'.denotes, FuncDecl.apply, denote]
  | greaterEqual | lessEqual =>
    exact elaborateOperator_ok ⟨by rw [bool, int]; rfl, by rw [bool, int]; rfl, fun _ _ _ => rfl⟩
      intMem boolMem one two run
  | logicalAnd | logicalOr =>
    exact elaborateOperator_ok ⟨by rw [bool]; rfl, by rw [bool]; rfl, fun _ _ _ => rfl⟩
      boolMem boolMem one two run
  | add | subtract =>
    exact elaborateOperator_ok ⟨by rw [int]; rfl, by rw [int]; rfl, fun _ _ _ => rfl⟩
      intMem intMem one two run

/-- A conditional is elaborated as the rules say. -/
theorem elaborateConditional_ok {yes no : Expr}
    (zero : Elaborated environment runtime between condition test)
    (one : Elaborated environment between behind yes left)
    (two : Elaborated environment behind after no right)
    (run : (elaborateConditional span info.span test left right).run after = .ok (result, later)) :
    Elaborated environment runtime later (.conditional info condition yes no) result := by
  have one' := one.before zero.extends_
  have two' := two.before one'.extends_
  obtain ⟨address, bool⟩ := two.valid.types.bool_eq
  simp only [elaborateConditional, run_get_bind] at run
  split at run
  · cases run
  rename_i pointer
  split at run
  · cases run
  rename_i pointers
  cases run
  simp only [Bool.not_eq_true', Bool.not_eq_false] at pointer pointers
  have testListed : test.type ∈ later.objects :=
    two.extends_.objects (one.extends_.objects zero.listed)
  have leftListed : left.type ∈ later.objects := two.extends_.objects one.listed
  have sameTest := two.valid.types.unique testListed two.valid.types.bool_mem
    ((two.valid.types.same_iff testListed two.valid.types.bool_mem).mp pointer)
  have same := two.valid.types.unique leftListed two.listed
    ((two.valid.types.same_iff leftListed two.listed).mp pointers)
  have each : ∀ result ∈ [test, left, right], ∃ first last expression,
      Elaborated environment first last expression result :=
    forall_mem_cons.mpr ⟨⟨_, _, _, zero⟩, one.each_two two⟩
  refine ⟨two'.extends_, two.valid, leftListed, ?_, ?_, ?_, Elaborated.app_plain each,
    Elaborated.app_constants each⟩
  · refine .conditional ?_ one'.typed (same ▸ two'.typed)
    have typed := zero.typed
    rw [sameTest, bool] at typed
    exact typed
  · simp [Term.sort?, Term.sorts?, zero.sorted, one.sorted, two.sorted, same, sameTest, bool,
      FuncDecl.range?, RuntimeType.sort]
  · intro interp assignment
    simp only [eval_app, map_cons, map_nil, zero.denotes, one'.denotes, two'.denotes,
      FuncDecl.apply, denote]

/-- An expression is elaborated as the rules say. -/
theorem elaborate_ok (expression : Expr) : ElaboratesOk environment expression := by
  induction expression with
  | name info name =>
    intro runtime later result valid names run
    rw [elaborate] at run
    exact elaborateName_ok valid names run
  | boolean info value =>
    intro runtime later result valid names run
    rw [elaborate] at run
    cases run
    obtain ⟨address, bool⟩ := valid.types.bool_eq
    refine ⟨.refl _, valid, valid.types.bool_mem, ?_, ?_, ?_, fun _ => rfl, ?_⟩
    · change HasType _ _ _ runtime.boolType.meaning
      rw [bool]
      exact .boolean
    · cases value <;>
        simp [Term.boolVal, Term.sort?, Term.sorts?, FuncDecl.range?, bool, RuntimeType.sort]
    · intro interp assignment
      cases value <;> simp [Term.boolVal, eval, FuncDecl.apply, denote, Element.truth]
    · simp [Term.boolVal, Term.constants]
  | integer info literal =>
    intro runtime later result valid names run
    rw [elaborate] at run
    cases run
    obtain ⟨address, int⟩ := valid.types.int_eq
    refine ⟨.refl _, valid, valid.types.int_mem, ?_, ?_, fun _ _ => rfl, fun _ => rfl, ?_⟩
    · change HasType _ _ _ runtime.intType.meaning
      rw [int]
      exact .integer
    · simp [Term.sort?, int, RuntimeType.sort]
    · simp [Term.constants]
  | tuple info elements ih =>
    intro runtime later result valid names run
    rcases elements with _ | ⟨first, _ | ⟨second, _ | ⟨third, more⟩⟩⟩
    · cases run
    · cases run
    · rw [elaborate] at run
      obtain ⟨left, between, ran, run⟩ := run_bind_ok run
      obtain ⟨right, behind, ran', run⟩ := run_bind_ok run
      have one := ih first (by simp) valid names ran
      have two := ih second (by simp) one.valid (names.extends_ one.extends_) ran'
      exact elaboratePair_ok one two run
    · cases run
  | call info name arguments ih => exact elaborateCall_ok ih
  | binary info op left right leftIh rightIh =>
    intro runtime later result valid names run
    rw [elaborate] at run
    obtain ⟨first, between, ran, run⟩ := run_bind_ok run
    obtain ⟨second, behind, ran', run⟩ := run_bind_ok run
    have one := leftIh valid names ran
    have two := rightIh one.valid (names.extends_ one.extends_) ran'
    exact elaborateBinary_ok valid one two run
  | conditional info condition yes no conditionIh yesIh noIh =>
    intro runtime later result valid names run
    rw [elaborate] at run
    obtain ⟨test, between, ran, run⟩ := run_bind_ok run
    obtain ⟨first, behind, ran', run⟩ := run_bind_ok run
    obtain ⟨second, after, ran'', run⟩ := run_bind_ok run
    have zero := conditionIh valid names ran
    have one := yesIh zero.valid (names.extends_ zero.extends_) ran'
    have two := noIh one.valid ((names.extends_ zero.extends_).extends_ one.extends_) ran''
    exact elaborateConditional_ok zero one two run
  | hole info name =>
    intro runtime later result valid names run
    cases run

/-- Elaborated wherever it is well typed. -/
def ElaboratesTotal (environment : Environment) (expression : Expr) : Prop :=
  ∀ {runtime : Runtime} {type : FineType}, runtime.Valid → environment.Valid runtime →
    HasType runtime.signature environment.scope expression type →
    ∃ result later, (elaborate environment expression).run runtime = .ok (result, later) ∧
      Elaborated environment runtime later expression result ∧ result.type.meaning = type

theorem ElaboratesTotal.of_result
    (total : ∀ {runtime : Runtime} {type : FineType}, runtime.Valid → environment.Valid runtime →
      HasType runtime.signature environment.scope expression type →
      ∃ result later, (elaborate environment expression).run runtime = .ok (result, later)) :
    ElaboratesTotal environment expression := by
  intro runtime type valid names typed
  obtain ⟨result, later, run⟩ := total valid names typed
  have elaborated := elaborate_ok expression valid names run
  exact ⟨result, later, run, elaborated, HasType.unique expression elaborated.typed typed⟩

/-- Well-typed arguments are elaborated, if each is. -/
theorem elaborateArguments_total
    (each : ∀ argument ∈ arguments, ElaboratesTotal environment argument)
    (mismatch : Nat → RuntimeType → String) (index : Nat) (valid : runtime.Valid)
    (names : environment.Valid runtime) (known : ∀ type ∈ types, type ∈ runtime.objects)
    (typed : HaveTypes runtime.signature environment.scope arguments
      (types.map RuntimeType.meaning)) :
    ∃ terms later, (elaborateArguments environment mismatch index arguments types).run runtime =
      .ok (terms, later) := by
  induction arguments generalizing runtime index types with
  | nil =>
    rw [elaborateArguments]
    · exact ⟨_, _, rfl⟩
    · simp
  | cons argument arguments ih =>
    cases types with
    | nil => cases typed
    | cons type types =>
      cases typed with
      | cons here there =>
        obtain ⟨elaborated, between, ran, first, meaning⟩ :=
          each argument (by simp) valid names here
        have kept : ∀ other ∈ type :: types, other ∈ between.objects :=
          fun other member => first.extends_.objects (known other member)
        have pointers : elaborated.type.same type = true :=
          (first.valid.types.same_iff first.listed (kept type (by simp))).mpr meaning
        rw [← first.extends_.signature_eq] at there
        obtain ⟨terms, last, ran'⟩ := ih (fun other member => each other (by simp [member]))
          (index + 1) first.valid (names.extends_ first.extends_)
          (fun other member => kept other (by simp [member])) there
        refine ⟨elaborated.expression :: terms, last, ?_⟩
        rw [elaborateArguments, run_bind_of_ok ran, if_neg (by simp [pointers]),
          run_bind_of_ok ran']
        rfl

theorem elaborateCall_total (each : ∀ argument ∈ arguments, ElaboratesTotal environment argument) :
    ElaboratesTotal environment (.call info name arguments) := by
  apply ElaboratesTotal.of_result
  intro runtime type valid names typed
  obtain ⟨callee, found⟩ := callee?_total typed
  have fits := callee?_fits valid found
  have there := fits.inversion _ _ _ _ typed
  obtain ⟨terms, later, ran⟩ :=
    elaborateArguments_total each callee.mismatch 0 valid names fits.parameters there
  have length : arguments.length = callee.parameterTypes.length := by
    simpa using there.length_eq
  refine ⟨⟨callee.result, .app callee.decl terms⟩, later, ?_⟩
  rw [elaborate]
  simp only [run_get_bind, found]
  rw [if_neg (by simp [length]), run_bind_of_ok ran]
  rfl

theorem elaborateOperator_total {type : RuntimeType} (one : left.type.same operand = true)
    (two : right.type.same operand = true) :
    ∃ result later, (elaborateOperator span operand type decl message left right).run runtime =
      .ok (result, later) := by
  unfold elaborateOperator
  rw [if_neg (by simp [one, two])]
  exact ⟨_, _, rfl⟩

/-- Well-typed operations on elaborated operands. -/
theorem elaborateBinary_total (one : Elaborated environment runtime between first left)
    (two : Elaborated environment between behind second right)
    (typed : HasType runtime.signature environment.scope (.binary info op first second) type) :
    ∃ result later, (elaborateBinary info.span op left right).run behind = .ok (result, later) := by
  have two' := two.before one.extends_
  have leftListed : left.type ∈ behind.objects := two.extends_.objects one.listed
  obtain ⟨address, bool⟩ := two.valid.types.bool_eq
  obtain ⟨address', int⟩ := two.valid.types.int_eq
  have same : ∀ {object other : RuntimeType}, object ∈ behind.objects → other ∈ behind.objects →
      object.meaning = other.meaning → object.same other = true :=
    fun listed listed' => (two.valid.types.same_iff listed listed').mpr
  simp only [elaborateBinary, run_get_bind]
  cases typed with
  | equal here there flat =>
    have meaning := HasType.unique first one.typed here
    have meaning' := HasType.unique second two'.typed there
    have table : left.type.isTable = false := by
      rw [← RuntimeType.isTable_meaning, meaning, flat]
    dsimp only
    rw [if_neg (by simp [same leftListed two.listed (meaning.trans meaning'.symm), table])]
    exact ⟨_, _, rfl⟩
  | operator known here there =>
    have meaning := HasType.unique first one.typed here
    have meaning' := HasType.unique second two'.typed there
    cases op with
    | equal => cases known
    | greaterEqual | lessEqual | add | subtract =>
      cases known
      have operand : behind.intType.meaning = .int := by rw [int]; rfl
      exact elaborateOperator_total
        (same leftListed two.valid.types.int_mem (meaning.trans operand.symm))
        (same two.listed two.valid.types.int_mem (meaning'.trans operand.symm))
    | logicalAnd | logicalOr =>
      cases known
      have operand : behind.boolType.meaning = .bool := by rw [bool]; rfl
      exact elaborateOperator_total
        (same leftListed two.valid.types.bool_mem (meaning.trans operand.symm))
        (same two.listed two.valid.types.bool_mem (meaning'.trans operand.symm))

theorem elaborateConditional_total {yes no : Expr}
    (zero : Elaborated environment runtime between condition test)
    (one : Elaborated environment between behind yes left)
    (two : Elaborated environment behind after no right)
    (typed : HasType runtime.signature environment.scope (.conditional info condition yes no) type) :
    ∃ result later, (elaborateConditional span info.span test left right).run after =
      .ok (result, later) := by
  have one' := one.before zero.extends_
  have two' := two.before one'.extends_
  obtain ⟨address, bool⟩ := two.valid.types.bool_eq
  have leftListed : left.type ∈ after.objects := two.extends_.objects one.listed
  have testListed : test.type ∈ after.objects :=
    two.extends_.objects (one.extends_.objects zero.listed)
  cases typed with
  | conditional here there elsewhere =>
    have pointer : test.type.same after.boolType = true := by
      rw [two.valid.types.same_iff testListed two.valid.types.bool_mem,
        HasType.unique condition zero.typed here, bool]
      rfl
    have pointers : left.type.same right.type = true := by
      rw [two.valid.types.same_iff leftListed two.listed, HasType.unique yes one'.typed there,
        HasType.unique no two'.typed elsewhere]
    simp only [elaborateConditional, run_get_bind]
    rw [if_neg (by simp [pointer]), if_neg (by simp [pointers])]
    exact ⟨_, _, rfl⟩

/-- A well-typed expression is elaborated. -/
theorem elaborate_total (expression : Expr) : ElaboratesTotal environment expression := by
  induction expression with
  | name info name =>
    apply ElaboratesTotal.of_result
    intro runtime type valid names typed
    rw [elaborate]
    exact elaborateName_total typed
  | boolean info value | integer info literal =>
    exact ElaboratesTotal.of_result fun _ _ _ => ⟨_, _, rfl⟩
  | tuple info elements ih =>
    apply ElaboratesTotal.of_result
    intro runtime type valid names typed
    cases typed with
    | pair here there flat flat' =>
      obtain ⟨left, between, ran, one, meaning⟩ := ih _ (by simp) valid names here
      rw [← one.extends_.signature_eq] at there
      obtain ⟨right, behind, ran', two, meaning'⟩ :=
        ih _ (by simp) one.valid (names.extends_ one.extends_) there
      obtain ⟨pair, later, paired⟩ := tupleType_total behind info.span
        (by rw [← RuntimeType.isTable_meaning, meaning, flat])
        (by rw [← RuntimeType.isTable_meaning, meaning', flat'])
      rw [elaborate, run_bind_of_ok ran, run_bind_of_ok ran', elaboratePair, run_bind_of_ok paired]
      exact ⟨_, _, rfl⟩
  | call info name arguments ih => exact elaborateCall_total ih
  | binary info op left right leftIh rightIh =>
    apply ElaboratesTotal.of_result
    intro runtime type valid names typed
    obtain ⟨here, there⟩ : (∃ type, HasType runtime.signature environment.scope left type) ∧
        ∃ type, HasType runtime.signature environment.scope right type := by
      cases typed with
      | equal here there | operator known here there => exact ⟨⟨_, here⟩, _, there⟩
    obtain ⟨leftType, here⟩ := here
    obtain ⟨rightType, there⟩ := there
    obtain ⟨first, between, ran, one, -⟩ := leftIh valid names here
    rw [← one.extends_.signature_eq] at there
    obtain ⟨second, behind, ran', two, -⟩ :=
      rightIh one.valid (names.extends_ one.extends_) there
    rw [elaborate, run_bind_of_ok ran, run_bind_of_ok ran']
    exact elaborateBinary_total one two typed
  | conditional info condition yes no conditionIh yesIh noIh =>
    apply ElaboratesTotal.of_result
    intro runtime type valid names typed
    have whole := typed
    cases typed with
    | conditional here there elsewhere =>
      obtain ⟨test, between, ran, zero, -⟩ := conditionIh valid names here
      rw [← zero.extends_.signature_eq] at there
      obtain ⟨first, behind, ran', one, -⟩ := yesIh zero.valid (names.extends_ zero.extends_) there
      rw [← (one.before zero.extends_).extends_.signature_eq] at elsewhere
      obtain ⟨second, after, ran'', two, -⟩ :=
        noIh one.valid ((names.extends_ zero.extends_).extends_ one.extends_) elsewhere
      rw [elaborate, run_bind_of_ok ran, run_bind_of_ok ran', run_bind_of_ok ran'']
      exact elaborateConditional_total zero one two whole
  | hole info name =>
    apply ElaboratesTotal.of_result
    intro runtime type valid names typed
    cases typed

/-- Expressions are elaborated exactly where they are well typed, to the type's object and sort and
a term that means what they denote. -/
theorem elaborate_iff_hasType (valid : runtime.Valid) (names : environment.Valid runtime)
    (expression : Expr) :
    (∀ type, HasType runtime.signature environment.scope expression type ↔
      ∃ result later, (elaborate environment expression).run runtime = .ok (result, later) ∧
        result.type.meaning = type) ∧
    ∀ result later, (elaborate environment expression).run runtime = .ok (result, later) →
      later.Valid ∧ result.type ∈ later.objects ∧
      result.expression.sort? = some result.type.sort ∧
      ∀ interp assignment, eval interp result.expression assignment =
        denote runtime.signature interp (environment.meaning interp assignment) expression := by
  constructor
  · intro type
    constructor
    · intro typed
      obtain ⟨result, later, run, -, meaning⟩ := elaborate_total expression valid names typed
      exact ⟨result, later, run, meaning⟩
    · rintro ⟨result, later, run, rfl⟩
      exact (elaborate_ok expression valid names run).typed
  · intro result later run
    have elaborated := elaborate_ok expression valid names run
    exact ⟨elaborated.valid, elaborated.listed, elaborated.sorted, elaborated.denotes⟩

theorem Runtime.initial_valid : Runtime.initial.Valid := by
  refine ⟨⟨rfl, rfl, ?_, by decide, by simp [initial], by simp [initial], ?_, ?_, ?_⟩,
    ⟨by simp [initial], by simp [initial], by simp [initial], by simp [initial]⟩⟩
  · intro name type member
    simp only [initial, mem_cons, Prod.mk.injEq, not_mem_nil, or_false] at member
    rcases member with ⟨rfl, rfl⟩ | ⟨rfl, rfl⟩
    · exact .inr (.inl ⟨rfl, _, rfl⟩)
    · exact .inl ⟨rfl, _, rfl⟩
  · decide
  · decide
  · decide

/-- `x >= x` of an integer in scope. -/
theorem elaborate_comparison :
    let x : Identifier := ⟨"x", by decide⟩
    let environment : Environment := [(x, ⟨.integer 1, .constant ⟨"x", .int⟩⟩)]
    let expression : Expr := .binary default .greaterEqual (.name default x) (.name default x)
    ∃ result later, (elaborate environment expression).run Runtime.initial = .ok (result, later) ∧
      result.type.meaning = .bool := by
  intro x environment expression
  have names : environment.Valid Runtime.initial := by
    intro name found lookup
    have member := Map.mem_of_lookup lookup
    simp only [environment, mem_singleton, Prod.mk.injEq] at member
    rw [member.2]
    exact ⟨by decide, rfl⟩
  have typed : HasType Runtime.initial.signature environment.scope expression .bool :=
    .operator rfl (.inScope (by decide)) (.inScope (by decide))
  exact ((elaborate_iff_hasType Runtime.initial_valid names expression).1 .bool).mp typed

end Fine.RuntimeDetail
