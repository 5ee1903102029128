import Fine.Runtime.Functions

/-!
# What predicates and views add to the state

Views and predicates add compound types and reserved names, then themselves, and predicates add
rules.
-/

namespace Fine.RuntimeDetail

open Fine.Syntax Fine.Semantics Fine.Fallible List

variable {runtime later : Runtime} {environment : Environment}

/-- The term is a translation of the expression. -/
structure Translates (sig : Signature) (environment : Environment) (expression : Expr)
    (type : FineType) (term : Term) : Prop where
  typed : HasType sig environment.scope expression type
  denotes : ∀ interp assignment, eval interp term assignment =
    denote sig interp (environment.meaning interp assignment) expression
  plain : (∀ name found, environment.lookup name = some found →
    found.expression.quantifierFree = true) → term.quantifierFree = true
  constants : ∀ constant ∈ term.constants, ∃ name found,
    environment.lookup name = some found ∧ constant ∈ found.expression.constants

variable {expression : Expr} {result : Unit} {α : Type} {term : Term} {view : ViewInfo}
  {types : List RuntimeType} {hornComplete : Bool}

theorem Elaborated.translates {result : TypedExpression}
    (elaborated : Elaborated environment runtime later expression result) :
    Translates runtime.signature environment expression result.type.meaning result.expression :=
  ⟨elaborated.typed, elaborated.denotes, elaborated.plain, elaborated.constants⟩

def Fails {α : Type} (action : Run α) : Prop := ∀ runtime, ∃ failure,
  action.run runtime = .error failure

theorem fails_reject (span : SourceSpan) (message : String) :
    Fails (reject span message : Run α) := fun _ => ⟨_, rfl⟩

theorem fails_internal (message : String) : Fails (internal message : Run α) :=
  fun _ => ⟨_, rfl⟩

variable {otherwise : Expr → Run Term} {terms : List Term} {declared : Identifier}
  {declaration : PredicateDecl} {constructor : PredicateConstructor}

theorem elaborateAs_ok (valid : runtime.Valid) (names : environment.Valid runtime)
    {expected : RuntimeType} (known : expected ∈ runtime.objects)
    (fails : ∀ expression, Fails (otherwise expression))
    (run : (elaborateAs environment expected otherwise expression).run runtime = .ok (term, later)) :
    Elaborated environment runtime later expression ⟨expected, term⟩ ∧
      (elaborate environment expression).run runtime = .ok (⟨expected, term⟩, later) := by
  unfold elaborateAs at run
  obtain ⟨result, between, ran, run⟩ := run_bind_ok run
  split at run
  · obtain ⟨failure, error⟩ := fails expression between
    rw [error] at run
    cases run
  rename_i pointer
  cases run
  have elaborated := elaborate_ok expression valid names ran
  have listed := elaborated.extends_.objects known
  have pointers : result.type.same expected = true := by simpa using pointer
  have same : result.type = expected := elaborated.valid.types.unique elaborated.listed listed
    ((elaborated.valid.types.same_iff elaborated.listed listed).mp pointers)
  subst same
  exact ⟨elaborated, ran⟩

theorem Runtime.Valid.bool_meaning (valid : runtime.Valid) : runtime.boolType.meaning = .bool := by
  obtain ⟨address, bool⟩ := valid.types.bool_eq
  rw [bool]
  rfl

theorem elaborateConditions_ok (fails : ∀ expression, Fails (otherwise expression))
    {conditions : List Expr} (valid : runtime.Valid) (names : environment.Valid runtime)
    (run : (elaborateConditions environment otherwise conditions).run runtime = .ok (terms, later)) :
    Advances runtime later ∧
      Forall₂ (fun condition term => Translates runtime.signature environment condition .bool
        term) conditions terms := by
  induction conditions generalizing runtime terms with
  | nil => cases run; exact ⟨.refl valid, .nil⟩
  | cons condition conditions ih =>
    simp only [elaborateConditions, run_get_bind] at run
    obtain ⟨term, between, ran, run⟩ := run_bind_ok run
    obtain ⟨rest, behind, ran', run⟩ := run_bind_ok run
    cases run
    have first := (elaborateAs_ok valid names valid.types.bool_mem fails ran).1
    obtain ⟨second, all⟩ := ih first.valid (names.extends_ first.extends_) ran'
    rw [first.extends_.signature_eq] at all
    refine ⟨first.advances.trans second, .cons ?_ all⟩
    have here := first.translates
    rwa [show (TypedExpression.mk runtime.boolType term).type.meaning = .bool from
      valid.bool_meaning] at here

section

variable (valid : runtime.Valid) (names : environment.Valid runtime)

include valid names

/-- Elaborating indices adds types only. -/
theorem elaborateIndices_ok {indices : List Expr}
    (run : (elaborateIndices environment indices).run runtime = .ok (terms, later)) :
    Advances runtime later := by
  induction indices generalizing runtime terms with
  | nil => cases run; exact .refl valid
  | cons index indices ih =>
    rw [elaborateIndices] at run
    obtain ⟨result, between, ran, run⟩ := run_bind_ok run
    obtain ⟨rest, behind, ran', run⟩ := run_bind_ok run
    cases run
    have first := elaborate_ok index valid names ran
    exact first.advances.trans (ih first.valid (names.extends_ first.extends_) ran')

/-- Translating an atom adds types only. -/
theorem atom_ok {messages : AtomMessages}
    (run : (atom environment messages expression).run runtime = .ok (term, later)) :
    Advances runtime later := by
  simp only [atom, run_get_bind] at run
  split at run
  · split at run
    · exact (elaborateAs_ok valid names valid.types.bool_mem (fun _ => fails_reject _ _)
        run).1.advances
    · cases run
  · cases run

/-- Translating a premise adds types only. -/
theorem predicatePremise_ok {premise : Expr} {kept : Term × List (List Term)}
    (run : (predicatePremise declared environment premise).run runtime = .ok (kept, later)) :
    Advances runtime later := by
  unfold predicatePremise at run
  obtain ⟨term, between, ran, run⟩ := run_bind_ok run
  have first := atom_ok valid names ran
  split at run
  · split at run
    · obtain ⟨others, behind, ran', run⟩ := run_bind_ok run
      cases run
      exact first.trans (elaborateIndices_ok first.valid (names.extends_ first.extends_) ran')
    · cases run
      exact first
  · cases run
    exact first

variable {premises : List Expr}

/-- Premises of a constructor add types only. -/
theorem predicatePremises_ok {kept : List (Term × List (List Term))}
    (run : (predicatePremises declared environment premises).run runtime = .ok (kept, later)) :
    Advances runtime later := by
  induction premises generalizing runtime kept with
  | nil => cases run; exact .refl valid
  | cons premise premises ih =>
    rw [predicatePremises] at run
    obtain ⟨one, between, ran, run⟩ := run_bind_ok run
    obtain ⟨rest, behind, ran', run⟩ := run_bind_ok run
    cases run
    have first := predicatePremise_ok valid names ran
    exact first.trans (ih first.valid (names.extends_ first.extends_) ran')

/-- Premises under an arbitrary field add types only. -/
theorem scopedPremises_ok {kept : List Term}
    (run : (scopedPremises declared environment premises).run runtime = .ok (kept, later)) :
    Advances runtime later := by
  induction premises generalizing runtime kept with
  | nil => cases run; exact .refl valid
  | cons premise premises ih =>
    rw [scopedPremises] at run
    obtain ⟨one, between, ran, run⟩ := run_bind_ok run
    obtain ⟨rest, behind, ran', run⟩ := run_bind_ok run
    cases run
    unfold scopedPremise at ran
    obtain ⟨term, middle, found, ran⟩ := run_bind_ok ran
    have first := atom_ok valid names found
    have same : between = middle := by
      repeat' split at ran
      all_goals cases ran
      all_goals rfl
    subst same
    exact first.trans (ih first.valid (names.extends_ first.extends_) ran')

end

/-- The types of a view are known. -/
structure ViewInfo.Valid (view : ViewInfo) (runtime : Runtime) : Prop where
  parameters : ∀ type ∈ view.parameterTypes, type ∈ runtime.objects
  carrier : view.carrier ∈ runtime.objects

def Runtime.ViewsValid (runtime : Runtime) : Prop :=
  ∀ name view, runtime.views.lookup name = some view → view.Valid runtime

theorem ViewInfo.Valid.grow (valid : view.Valid runtime)
    (more : ∀ type ∈ runtime.objects, type ∈ later.objects) : view.Valid later :=
  ⟨fun type member => more type (valid.parameters type member), more _ valid.carrier⟩

theorem Runtime.ViewsValid.grow (valid : runtime.ViewsValid) (views : later.views = runtime.views)
    (more : ∀ type ∈ runtime.objects, type ∈ later.objects) : later.ViewsValid := by
  intro name view found
  rw [views] at found
  exact (valid name view found).grow more

theorem Extends.views_eq {first second : Runtime} (extends_ : Extends first second) :
    second.views = first.views := by
  obtain ⟨_, _, _, _, rfl⟩ := extends_
  rfl

theorem Advances.viewsValid (advances : Advances runtime later) (valid : runtime.ViewsValid) :
    later.ViewsValid :=
  valid.grow advances.extends_.views_eq fun _ => advances.extends_.objects

theorem Environment.Valid.emplace (names : environment.Valid runtime) {name : Identifier}
    {entry : TypedExpression} (known : entry.type ∈ runtime.objects)
    (sorted : entry.expression.sort? = some entry.type.sort) :
    Environment.Valid (Map.emplace environment name entry) runtime := by
  intro other found lookup
  rcases Map.emplace_cases lookup with old | ⟨-, rfl⟩
  · exact names other found old
  · exact ⟨known, sorted⟩

/-- Elaborating the witness of a view adds types only. -/
theorem viewWitness_ok (fails : ∀ expression, Fails (otherwise expression)) {carrier : RuntimeType}
    {witness : Option Expr} {term : Option Term} (valid : runtime.Valid)
    (names : environment.Valid runtime) (known : carrier ∈ runtime.objects)
    (run : (viewWitness environment carrier otherwise witness).run runtime = .ok (term, later)) :
    Advances runtime later := by
  cases witness with
  | none => cases run; exact .refl valid
  | some witness =>
    rw [viewWitness] at run
    obtain ⟨found, between, ran, run⟩ := run_bind_ok run
    cases run
    exact (elaborateAs_ok valid names known fails ran).1.advances

theorem declareView_ok (valid : runtime.Valid) {declaration : ViewDecl}
    (run : (declareView declaration).run runtime = .ok (result, later)) :
    ∃ middle view, Advances runtime middle ∧ view.Valid middle ∧
      later = { middle with views := middle.views.emplace declaration.name view } := by
  simp only [declareView, run_get_bind] at run
  split at run
  · cases run
  obtain ⟨carrier, start, resolved, run⟩ := run_bind_ok run
  obtain ⟨first, listed, -⟩ := resolveType_advances valid resolved
  split at run
  · cases run
  unfold checkView at run
  obtain ⟨formals, between, ran, run⟩ := run_bind_ok run
  obtain ⟨second, of⟩ := declareParameters_ok first.valid ran
  have carried := second.extends_.objects listed
  obtain ⟨_, middle, conditions, run⟩ := run_bind_ok run
  obtain ⟨third, -⟩ := elaborateConditions_ok (fun _ => fails_reject _ _) second.valid
    (of.valid.emplace carried (by simp [Term.sort?])) conditions
  obtain ⟨_, last, witness, run⟩ := run_bind_ok run
  have fourth := viewWitness_ok (fun _ => fails_reject _ _) third.valid
    (of.valid.extends_ third.extends_) (third.extends_.objects carried) witness
  cases run
  have more := third.extends_.trans fourth.extends_
  refine ⟨last, _, ((first.trans second).trans third).trans fourth, ⟨?_, more.objects carried⟩, rfl⟩
  intro type member
  obtain ⟨formal, inside, rfl⟩ := mem_map.mp member
  exact more.objects (of.listed formal inside)

theorem sorts_iff :
    Term.sorts? terms = some (types.map RuntimeType.sort) ↔
      Forall₂ (fun term (type : RuntimeType) => term.sort? = some type.sort) terms types := by
  induction terms generalizing types with
  | nil => cases types <;> simp [Term.sorts?]
  | cons term terms ih =>
    cases types with
    | nil => simp [Term.sorts?, Option.bind_eq_some_iff]
    | cons type types =>
      rw [forall₂_cons, ← ih]
      simp [Term.sorts?, Option.bind_eq_some_iff]

theorem mem_zipWith_typed
    (sorted : Forall₂ (fun term (type : RuntimeType) => term.sort? = some type.sort)
      terms types) {found : TypedExpression}
    (member : found ∈ List.zipWith TypedExpression.mk types terms) :
    found.type ∈ types ∧ found.expression.sort? = some found.type.sort := by
  induction sorted with
  | nil => cases member
  | cons here _ ih =>
    rcases mem_cons.mp member with rfl | rest
    · exact ⟨by simp, here⟩
    · exact ⟨mem_cons_of_mem _ (ih rest).1, (ih rest).2⟩

theorem viewEnvironment_valid (known : view.Valid runtime)
    (sorted : Term.sorts? terms = some (view.parameterTypes.map RuntimeType.sort)) :
    (viewEnvironment view terms).Valid runtime := by
  intro name found lookup
  have member := (of_mem_zip (Map.mem_of_lookup lookup)).2
  obtain ⟨listed, sort⟩ := mem_zipWith_typed (sorts_iff.mp sorted) member
  exact ⟨known.parameters _ listed, sort⟩

/-- Keeping an arbitrary field adds types only. -/
theorem retainField_ok {field : ArbitraryPremise} {kept : ArbitraryField} (valid : runtime.Valid)
    (names : environment.Valid runtime) (known : view.Valid runtime)
    (length : field.viewArguments.length = view.parameterTypes.length)
    (run : (retainField declaration constructor environment field view).run runtime =
      .ok (kept, later)) : Advances runtime later := by
  unfold retainField at run
  obtain ⟨terms, start, arguments, run⟩ := run_bind_ok run
  have all := elaborateArguments_ok (fun argument _ => elaborate_ok argument) valid names
    known.parameters length arguments
  have first : Advances runtime start := ⟨all.extends_, all.valid⟩
  have used := known.grow fun _ => first.extends_.objects
  have scope := viewEnvironment_valid used all.sorted
  obtain ⟨requirements, between, conditions, run⟩ := run_bind_ok run
  have second := (elaborateConditions_ok (fun _ => fails_internal _) first.valid
    (scope.emplace used.carrier (by simp [Term.sort?])) conditions).1
  obtain ⟨witness, middle, found, run⟩ := run_bind_ok run
  have third := viewWitness_ok (fun _ => fails_internal _) second.valid
    (scope.extends_ second.extends_) (second.extends_.objects used.carrier) found
  obtain ⟨premises, last, ran, run⟩ := run_bind_ok run
  have before := (first.trans second).trans third
  have fourth := scopedPremises_ok third.valid
    ((names.extends_ before.extends_).emplace (before.extends_.objects known.carrier)
      (by simp [Term.sort?])) ran
  cases run
  exact before.trans fourth

/-- Keeping arbitrary fields adds types only. -/
theorem arbitraryFields_ok {fields : List ArbitraryPremise} {kept : List ArbitraryField}
    (valid : runtime.Valid) (views : runtime.ViewsValid) (names : environment.Valid runtime)
    (run : (arbitraryFields declaration constructor environment fields).run runtime =
      .ok (kept, later)) : Advances runtime later := by
  induction fields generalizing runtime kept with
  | nil => cases run; exact .refl valid
  | cons field fields ih =>
    rw [arbitraryFields] at run
    obtain ⟨one, between, ran, run⟩ := run_bind_ok run
    obtain ⟨rest, behind, ran', run⟩ := run_bind_ok run
    cases run
    simp only [arbitraryField, run_get_bind] at ran
    repeat' split at ran
    any_goals cases ran
    rename_i view found length
    have first := retainField_ok valid names (views _ view found) (by simpa using length) ran
    exact first.trans (ih first.valid (first.viewsValid views) (names.extends_ first.extends_) ran')

/-- More compound types, names and rules, in order. -/
structure Ruled (first second : Runtime) : Prop where
  extends_ : Extends first { second with fixedpoint := first.fixedpoint }
  valid : second.Valid

theorem Advances.ruled (advances : Advances runtime later) : Ruled runtime later := by
  obtain ⟨⟨added, names, address, sequence, rfl⟩, valid⟩ := advances
  exact ⟨⟨added, names, address, sequence, rfl⟩, valid⟩

theorem Keeps.valid (keeps : Keeps runtime later) (valid : runtime.Valid) : later.Valid := by
  obtain ⟨_, _, _, _, _, _, rfl⟩ := keeps
  exact ⟨valid.types.congr rfl rfl rfl rfl rfl, ⟨valid.names.cases, valid.names.constructors,
    valid.names.functions, valid.names.predicates⟩⟩

namespace Ruled

variable {first second third : Runtime}

theorem trans (left : Ruled first second) (right : Ruled second third) : Ruled first third := by
  obtain ⟨leftExtends, -⟩ := left
  obtain ⟨⟨added, names, address, sequence, same⟩, valid⟩ := right
  refine ⟨leftExtends.trans ⟨added, names, address, sequence, ?_⟩, valid⟩
  exact congrArg (fun runtime => { runtime with fixedpoint := first.fixedpoint }) same

/-- Rules may be added. -/
theorem add (left : Ruled first second) (fixedpoint : Fixedpoint) :
    Ruled first { second with fixedpoint := fixedpoint } :=
  ⟨left.extends_, Keeps.valid ⟨_, _, _, _, _, _, rfl⟩ left.valid⟩

variable (ruled : Ruled first second)

include ruled

theorem views_eq : second.views = first.views :=
  ruled.extends_.views_eq

theorem objects :
    ∀ type ∈ first.objects, type ∈ second.objects := fun _ => ruled.extends_.objects

theorem wellFormed (formed : first.WellFormed) : second.WellFormed := by
  have tables := ruled.extends_.tablesValid formed.tables
  exact ⟨ruled.valid, ⟨tables.reserved, tables.enumeration, tables.datatype, tables.cases,
    tables.constructors, tables.apart, tables.shapes⟩⟩

end Ruled

/-- The result of a constructor adds types only. -/
theorem constructorResult_ok {result : Term × List Term} (valid : runtime.Valid)
    (names : environment.Valid runtime)
    (run : (constructorResult declared constructor environment).run runtime = .ok (result, later)) :
    Advances runtime later := by
  unfold constructorResult at run
  obtain ⟨conclusion, between, ran, run⟩ := run_bind_ok run
  have first := atom_ok valid names ran
  split at run
  · split at run
    · cases run
    obtain ⟨others, behind, ran', run⟩ := run_bind_ok run
    cases run
    exact first.trans (elaborateIndices_ok first.valid (names.extends_ first.extends_) ran')
  · cases run
    exact first

/-- Asking whether parameters occur leaves the state. -/
theorem occurring_ok {written : Expr} {parameters : List Parameter}
    (run : (occurring written parameters).run runtime = .ok (result, later)) :
    runtime = later := by
  induction parameters with
  | nil => cases run; rfl
  | cons parameter parameters ih =>
    rw [occurring] at run
    split at run
    · exact ih run
    · cases run

/-- A constructor adds types, and perhaps a rule. -/
theorem declareConstructor_ok {kept : PredicateConstructorInfo} (valid : runtime.Valid)
    (views : runtime.ViewsValid)
    (run : (declareConstructor declaration hornComplete constructor).run runtime =
      .ok (kept, later)) : Ruled runtime later := by
  unfold declareConstructor at run
  obtain ⟨formals, start, ran, run⟩ := run_bind_ok run
  obtain ⟨first, of⟩ := declareParameters_ok valid ran
  obtain ⟨⟨conclusion, indices⟩, between, ran, run⟩ := run_bind_ok run
  have second := constructorResult_ok first.valid of.valid ran
  dsimp only at run
  obtain ⟨_, _, ran, run⟩ := run_bind_ok run
  obtain rfl := occurring_ok ran
  obtain ⟨premises, middle, ran, run⟩ := run_bind_ok run
  have third := predicatePremises_ok second.valid (of.valid.extends_ second.extends_) ran
  obtain ⟨fields, last, ran, run⟩ := run_bind_ok run
  have before := (first.trans second).trans third
  have fourth := arbitraryFields_ok third.valid (before.viewsValid views)
    ((of.valid.extends_ second.extends_).extends_ third.extends_) ran
  have advances := before.trans fourth
  obtain ⟨_, _, ran, run⟩ := run_bind_ok run
  unfold addConstructorRule at ran
  split at ran
  · cases ran
    cases run
    exact advances.ruled.add _
  · cases ran
    cases run
    exact advances.ruled

/-- Constructors add types and rules. -/
theorem declareConstructors_ok {seen : List Identifier} {constructors : List PredicateConstructor}
    {infos : List PredicateConstructorInfo} (valid : runtime.Valid) (views : runtime.ViewsValid)
    (run : (declareConstructors declaration hornComplete seen constructors).run runtime =
      .ok (infos, later)) : Ruled runtime later := by
  induction constructors generalizing runtime seen infos with
  | nil => cases run; exact (Advances.refl valid).ruled
  | cons constructor constructors ih =>
    rw [declareConstructors] at run
    split at run
    · cases run
    obtain ⟨info, between, ran, run⟩ := run_bind_ok run
    obtain ⟨rest, behind, ran', run⟩ := run_bind_ok run
    cases run
    have first := declareConstructor_ok valid views ran
    exact first.trans (ih first.valid (views.grow first.views_eq first.objects) ran')

/-- A predicate before its constructors are declared. -/
def predicateInfo (declaration : PredicateDecl) (indices : List Formal) : PredicateInfo :=
  ⟨declaration.name, indices.map Formal.type, [], declaration.constructors.all fun constructor =>
    constructor.arbitraryPremises.isEmpty⟩

/-- What the declaration of a predicate does, in the end. -/
structure PredicateDeclared (declaration : PredicateDecl) (middle after : Runtime)
    (indices : List Formal) : Prop where
  listed : ∀ formal ∈ indices, formal.type ∈ middle.objects
  new : declaration.name ∈ middle.valueNames ∧ ¬ middle.Declares declaration.name
  rules : Ruled (middle.addPredicate (predicateInfo declaration indices)) after

theorem addPredicate_wellFormed (formed : runtime.WellFormed) {info : PredicateInfo}
    (types : ∀ type ∈ info.indexTypes, type ∈ runtime.objects)
    (new : info.name ∈ runtime.valueNames ∧ ¬ runtime.Declares info.name) :
    (runtime.addPredicate info).WellFormed := by
  refine ⟨⟨formed.types.congr rfl rfl rfl rfl rfl, ⟨formed.names.cases, formed.names.constructors,
    formed.names.functions, ?_⟩⟩, ⟨?_, formed.tables.enumeration, formed.tables.datatype,
    formed.tables.cases, formed.tables.constructors, formed.tables.apart, formed.tables.shapes⟩⟩
  · intro name found lookup
    rcases Map.emplace_cases lookup with old | ⟨rfl, rfl⟩
    · exact formed.names.predicates name found old
    · exact ⟨rfl, types⟩
  · intro name declared
    by_cases same : name = info.name
    · rw [same]
      exact new.1
    · refine formed.tables.reserved name (declared.imp_right (.imp_right (.imp_right fun found => ?_)))
      rwa [Runtime.addPredicate, Map.lookup_emplace, if_neg same, Option.or_none] at found

theorem Map.lookup_map_entry {κ : Type} [DecidableEq κ] (map : Map κ α) (key other : κ)
    (change : α → α) :
    (map.map fun entry => if entry.1 = key then (entry.1, change entry.2) else entry).lookup other =
      (map.lookup other).map fun entry => if other = key then change entry else entry := by
  induction map with
  | nil => rfl
  | cons entry map ih =>
    obtain ⟨first, value⟩ := entry
    rw [map_cons, lookup_cons]
    by_cases here : first = key
    · rw [if_pos here, lookup_cons, ih]
      by_cases same : other = first
      · simp [same, here]
      · rw [beq_eq_false_iff_ne.mpr same]
    · rw [if_neg here, lookup_cons, ih]
      by_cases same : other = first
      · subst same
        simp [here]
      · rw [beq_eq_false_iff_ne.mpr same]

theorem setConstructors_lookup (runtime : Runtime) (declared name : Identifier)
    (constructors : List PredicateConstructorInfo) :
    (runtime.setConstructors declared constructors).predicates.lookup name =
      (runtime.predicates.lookup name).map fun info =>
        if name = declared then { info with constructors } else info :=
  Map.lookup_map_entry runtime.predicates declared name fun info => { info with constructors }

theorem setConstructors_wellFormed (formed : runtime.WellFormed) (declared : Identifier)
    (constructors : List PredicateConstructorInfo) :
    (runtime.setConstructors declared constructors).WellFormed := by
  have lookup := fun name => setConstructors_lookup runtime declared name constructors
  refine ⟨⟨formed.types.congr rfl rfl rfl rfl rfl, ⟨formed.names.cases, formed.names.constructors,
    formed.names.functions, ?_⟩⟩, ⟨?_, formed.tables.enumeration, formed.tables.datatype,
    formed.tables.cases, formed.tables.constructors, formed.tables.apart, formed.tables.shapes⟩⟩
  · intro name found is
    rw [lookup, Option.map_eq_some_iff] at is
    obtain ⟨info, known, same⟩ := is
    have listed := formed.names.predicates name info known
    rw [← same]
    split
    · exact listed
    · exact listed
  · intro name is
    refine formed.tables.reserved name (is.imp_right (.imp_right (.imp_right fun found => ?_)))
    rwa [lookup, Option.isSome_map] at found

/-- The state advances, and the predicate is entered with its constructors. -/
theorem declarePredicate_ok (formed : runtime.WellFormed) (views : runtime.ViewsValid)
    (run : (declarePredicate declaration).run runtime = .ok (result, later)) :
    ∃ middle after indices kept, Advances runtime middle ∧
      PredicateDeclared declaration middle after indices ∧
      later = after.setConstructors declaration.name kept := by
  unfold declarePredicate at run
  obtain ⟨_, start, reserved, run⟩ := run_bind_ok run
  obtain ⟨first, fresh, names⟩ := reserveValueName_ok formed.toValid reserved
  obtain ⟨indices, middle, ran, run⟩ := run_bind_ok run
  obtain ⟨second, of⟩ := declareParameters_ok first.valid ran
  have advances := first.trans second
  have new : declaration.name ∈ middle.valueNames ∧ ¬ middle.Declares declaration.name := by
    refine ⟨second.extends_.valueNames (by simp [names]), ?_⟩
    rw [advances.extends_.declares_iff]
    exact formed.undeclared fresh
  obtain ⟨_, added, ran', run⟩ := run_bind_ok run
  cases ran'
  obtain ⟨infos, after, ran, run⟩ := run_bind_ok run
  cases run
  have entered : (middle.addPredicate (predicateInfo declaration indices)).WellFormed := by
    refine addPredicate_wellFormed (advances.wellFormed formed) ?_ new
    intro type member
    obtain ⟨formal, inside, rfl⟩ := mem_map.mp member
    exact of.listed formal inside
  have rules := declareConstructors_ok entered.toValid
    ((advances.viewsValid views).grow rfl fun _ => id) ran
  exact ⟨middle, after, indices, infos, advances, ⟨of.listed, new, rules⟩, rfl⟩

theorem PredicateDeclared.wellFormed {middle after : Runtime} {indices : List Formal}
    {kept : List PredicateConstructorInfo}
    (declared : PredicateDeclared declaration middle after indices)
    (formed : middle.WellFormed) (views : middle.ViewsValid) :
    (after.setConstructors declaration.name kept).WellFormed ∧
      (after.setConstructors declaration.name kept).ViewsValid := by
  have entered : (middle.addPredicate (predicateInfo declaration indices)).WellFormed := by
    refine addPredicate_wellFormed formed ?_ declared.new
    intro type member
    obtain ⟨formal, inside, rfl⟩ := mem_map.mp member
    exact declared.listed formal inside
  exact ⟨setConstructors_wellFormed (declared.rules.wellFormed entered) _ _,
    views.grow declared.rules.views_eq declared.rules.objects⟩

end Fine.RuntimeDetail
