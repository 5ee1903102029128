import Fine.Runtime.Included
import Fine.Runtime.Rejected
import Fine.Runtime.Total

/-!
# Instances of views

A view is kept as source and elaborated again where an arbitrary field uses it. No declaration in
between changes what its names stand for.
-/

namespace Fine.RuntimeDetail

open Fine.Syntax Fine.Semantics Fine.Fallible List

variable {runtime later : Runtime}

/-! ## Views -/

/-- A view as its declaration elaborates it. -/
structure ViewTerms where
  formals : List Formal
  carrier : RuntimeType
  carried : Const
  requirements : List Term
  witness : Option Term

/-- What the declaration of a view elaborates. -/
def viewTerms (declaration : ViewDecl) : Run ViewTerms := do
  let carrier ← resolveType declaration.carrier
  let formals ← declareParameters (viewRules declaration.name) 0 [] declaration.parameters
  let carried : Const := ⟨"Fine.view." ++ declaration.name.text ++ ".value", carrier.sort⟩
  let requirements ← elaborateConditions
    ((environmentOf formals).emplace valueName ⟨carrier, .constant carried⟩)
    (fun requirement =>
      reject requirement.span "a constrained-view requirement must have type Bool")
    declaration.requirements
  let witness ← viewWitness (environmentOf formals) carrier
    (fun witness => reject witness.span ("a constrained-view witness must have carrier type `" ++
      carrier.display ++ "`"))
    declaration.witness
  pure ⟨formals, carrier, carried, requirements, witness⟩

/-- The constants of a view with what stands in their place. -/
def ViewTerms.replacements (view : ViewTerms) (arguments : List Term) (binder : Const) :
    List (Const × Term) :=
  (view.formals.map Formal.term).zip arguments ++ [(view.carried, .constant binder)]

/-- The kept view is elaborated to the terms. -/
structure ViewAt (runtime : Runtime) (info : ViewInfo) (view : ViewTerms) : Prop where
  names : info.parameterNames = view.formals.map Formal.name
  types : info.parameterTypes = view.formals.map Formal.type
  carrier : info.carrier = view.carrier
  distinct : (view.formals.map Formal.term).Nodup
  carried : view.carried ∉ view.formals.map Formal.term
  elaborated : ∃ start middle last otherwise instead, start.Valid ∧
    (environmentOf view.formals).Valid start ∧ view.carrier ∈ start.objects ∧
    view.carried.sort = view.carrier.sort ∧
    (∀ expression, Fails (otherwise expression)) ∧ (∀ expression, Fails (instead expression)) ∧
    (elaborateConditions ((environmentOf view.formals).emplace valueName
      ⟨view.carrier, .constant view.carried⟩) otherwise info.requirements).run start =
      .ok (view.requirements, middle) ∧
    (viewWitness (environmentOf view.formals) view.carrier instead info.witness).run middle =
      .ok (view.witness, last) ∧
    Includes last runtime

variable {info : ViewInfo} {view : ViewTerms} {arguments : List Term}

theorem ViewAt.mono (known : ViewAt runtime info view) (includes : Includes runtime later) :
    ViewAt later info view := by
  obtain ⟨names, types, carrier, distinct, carried, start, middle, last, otherwise, instead, valid,
    scope, listed, sort, fails, fails', requirements, witness, before⟩ := known
  exact ⟨names, types, carrier, distinct, carried, start, middle, last, otherwise, instead, valid,
    scope, listed, sort, fails, fails', requirements, witness, before.trans includes⟩

/-- The declaration of a view keeps what it elaborates. -/
theorem declareView_terms (valid : runtime.Valid) {declaration : ViewDecl}
    (run : (declareView declaration).run runtime = .ok ((), later)) :
    ∃ view middle info, (viewTerms declaration).run runtime = .ok (view, middle) ∧
      later = { middle with views := middle.views.emplace declaration.name info } ∧
      runtime.views.lookup declaration.name = none ∧ Advances runtime middle ∧
      ViewAt middle info view := by
  simp only [declareView, run_get_bind] at run
  split at run
  · cases run
  rename_i new
  have absent : runtime.views.lookup declaration.name = none := by
    simp only [Bool.or_eq_true, not_or] at new
    exact Map.lookup_of_not_contains new.1.1.1
  obtain ⟨carrier, start, resolved, run⟩ := run_bind_ok run
  obtain ⟨first, listed, -⟩ := resolveType_advances valid resolved
  split at run
  · cases run
  unfold checkView at run
  obtain ⟨formals, between, ran, run⟩ := run_bind_ok run
  obtain ⟨second, of⟩ := declareParameters_ok first.valid ran
  have carried := second.extends_.objects listed
  obtain ⟨requirements, middle, conditions, run⟩ := run_bind_ok run
  obtain ⟨third, -⟩ := elaborateConditions_ok (fun _ => fails_reject _ _) second.valid
    (of.valid.emplace carried (by simp [Term.sort?])) conditions
  obtain ⟨term, last, witness, run⟩ := run_bind_ok run
  have fourth := viewWitness_ok (fun _ => fails_reject _ _) third.valid
    (of.valid.extends_ third.extends_) (third.extends_.objects carried) witness
  cases run
  refine ⟨⟨formals, carrier, _, requirements, term⟩, last, _, ?_, rfl, absent,
    ((first.trans second).trans third).trans fourth, rfl, rfl, rfl,
    of.terms_nodup (numbered_injective _), ?_, between, middle, last, _, _, second.valid, of.valid,
    carried, rfl, fun _ => fails_reject _ _, fun _ => fails_reject _ _, conditions, witness,
    .refl _⟩
  · rw [viewTerms, run_bind_of_ok resolved, run_bind_of_ok ran, run_bind_of_ok conditions,
      run_bind_of_ok witness]
    rfl
  · intro member
    obtain ⟨formal, inside, same⟩ := mem_map.mp member
    obtain ⟨place, at_⟩ := mem_iff_getElem?.mp inside
    rw [of.terms place formal at_, Const.mk.injEq] at same
    have letters := congrArg String.toList same.1
    simp [viewRules, String.toList_append] at letters

/-- Every view of the state is kept as it was elaborated. -/
def Runtime.ViewsElaborated (runtime : Runtime) : Prop :=
  ∀ name info, runtime.views.lookup name = some info → ∃ view, ViewAt runtime info view

theorem Reached.viewsElaborated (reached : Reached runtime) : runtime.ViewsElaborated := by
  induction reached with
  | initial =>
    intro name info found
    simp [Runtime.initial] at found
  | @declared runtime later declaration before run ih =>
    intro name info found
    have order := before.inOrder
    have includes := declare_includes order run
    by_cases isView : ∃ item, declaration = .view item
    · obtain ⟨item, rfl⟩ := isView
      obtain ⟨view, middle, new, -, rfl, absent, advances, known⟩ :=
        declareView_terms order.formed.toValid run
      rcases Map.emplace_cases found with old | ⟨-, rfl⟩
      · obtain ⟨view, known⟩ := ih name info (advances.extends_.views_eq ▸ old)
        exact ⟨view, known.mono includes⟩
      · refine ⟨view, known.mono (Keeps.includes ⟨_, _, _, _, _, _, rfl⟩ ?_)⟩
        exact fun other found listed => Map.emplace_keeps listed
    · rw [(declare_leaves order run).2.2 fun item is => isView ⟨item, is⟩] at found
      obtain ⟨view, known⟩ := ih name info found
      exact ⟨view, known.mono includes⟩
  | @proved runtime middle output proofs before advances ih =>
    intro name info found
    obtain ⟨view, known⟩ := ih name info (advances.extends_.views_eq ▸ found)
    exact ⟨view, known.mono (advances.includes.trans
      (Keeps.includes ⟨_, _, _, _, _, _, rfl⟩ fun _ _ => id))⟩

/-! ## Uses -/

/-- Names of constants are bound to what these are replaced by. -/
theorem replaced_of_formals {replacements : List (Const × Term)} {formals : List Formal}
    (each : Forall₂ (fun formal argument =>
      (Term.constant formal.term).substitute replacements = argument) formals arguments) :
    (environmentOf formals).Replaced replacements (List.zip (formals.map Formal.name)
      (List.zipWith TypedExpression.mk (formals.map Formal.type) arguments)) := by
  intro name
  induction each with
  | nil => rfl
  | @cons formal argument formals arguments here _ ih =>
    rw [environmentOf, map_cons, map_cons, map_cons, zipWith_cons_cons,
      zip_cons_cons, Formal.entry, lookup_cons, lookup_cons]
    by_cases same : name = formal.name
    · simp [same, TypedExpression.substitute, here]
    · rw [beq_eq_false_iff_ne.mpr same]
      exact ih

theorem Environment.Replaced.emplace {replacements : List (Const × Term)}
    {environment other : Environment} (replaced : environment.Replaced replacements other)
    (name : Identifier) {entry instead : TypedExpression}
    (same : entry.substitute replacements = instead) :
    Environment.Replaced replacements (Map.emplace environment name entry)
      (Map.emplace other name instead) := by
  intro key
  rw [Map.lookup_emplace, Map.lookup_emplace, replaced key]
  cases environment.lookup key with
  | some found => rfl
  | none =>
    by_cases here : key = name
    · simp [here, same]
    · simp [here]

theorem ViewTerms.replacements_formals (view : ViewTerms) {binder : Const}
    (distinct : (view.formals.map Formal.term).Nodup)
    (length : view.formals.length = arguments.length) :
    Forall₂ (fun formal argument => (Term.constant formal.term).substitute
      (view.replacements arguments binder) = argument) view.formals arguments := by
  rw [forall₂_iff_get]
  refine ⟨length, fun place inFormals inArguments => ?_⟩
  have key : (view.formals.map Formal.term)[place]? =
      some (view.formals.get ⟨place, inFormals⟩).term := by simp [inFormals]
  have value : arguments[place]? = some (arguments.get ⟨place, inArguments⟩) := by
    simp [inArguments]
  have found := lookup_zip_of_getElem? distinct (by simp [length]) key value
  rw [Term.substitute, ViewTerms.replacements, lookup_append, found]
  rfl

theorem ViewTerms.replacements_carried (view : ViewTerms) (arguments : List Term) (binder : Const)
    (carried : view.carried ∉ view.formals.map Formal.term) :
    (Term.constant view.carried).substitute (view.replacements arguments binder) =
      .constant binder := by
  have absent : ((view.formals.map Formal.term).zip arguments).lookup view.carried = none := by
    cases found : ((view.formals.map Formal.term).zip arguments).lookup view.carried with
    | none => rfl
    | some other => exact absurd (of_mem_zip (Map.mem_of_lookup found)).1 carried
  rw [Term.substitute, ViewTerms.replacements, lookup_append, absent]
  simp

/-- A used view gives its terms with constants replaced. -/
theorem ViewAt.instantiates (known : ViewAt runtime info view) (binder : Const)
    (length : view.formals.length = arguments.length) (otherwise instead : Expr → Run Term) :
    (elaborateConditions ((viewEnvironment info arguments).emplace valueName
      ⟨info.carrier, .constant binder⟩) otherwise info.requirements).run runtime =
      .ok (view.requirements.map (Term.substitute (view.replacements arguments binder)), runtime) ∧
    (viewWitness (viewEnvironment info arguments) info.carrier instead info.witness).run runtime =
      .ok (view.witness.map (Term.substitute (view.replacements arguments binder)), runtime) := by
  obtain ⟨names, types, carrier, distinct, carried, start, middle, last, _, _, valid, scope, listed,
    sort, fails, fails', requirements, witness, before⟩ := known
  have replaced : (environmentOf view.formals).Replaced (view.replacements arguments binder)
      (viewEnvironment info arguments) := by
    rw [viewEnvironment, names, types]
    exact replaced_of_formals (view.replacements_formals distinct length)
  have scope' : Environment.Valid (Map.emplace (environmentOf view.formals) valueName
      ⟨view.carrier, .constant view.carried⟩) start :=
    scope.emplace listed (by simp [Term.sort?, sort])
  have first := (elaborateConditions_ok fails valid scope' requirements).1
  have second := viewWitness_ok fails' first.valid (scope.extends_ first.extends_)
    (first.extends_.objects listed) witness
  rw [carrier]
  refine ⟨elaborateConditions_includes (replaced.emplace valueName ?_) fails valid scope'
    requirements (second.includes.trans before), viewWitness_includes replaced fails' first.valid
    (scope.extends_ first.extends_) (first.extends_.objects listed) witness before⟩
  rw [TypedExpression.substitute, view.replacements_carried arguments binder carried]

/-- The field is kept with the view's terms, its constants replaced. -/
def Instantiated (view : ViewTerms) (after : Runtime) (environment : Environment)
    (field : ArbitraryPremise) (kept : ArbitraryField) : Prop :=
  ∃ arguments, (∀ mismatch, (elaborateArguments environment mismatch 0 field.viewArguments
      (view.formals.map Formal.type)).run after = .ok (arguments, after)) ∧
    kept.requirement =
      (Term.conditions view.requirements).substitute
        (view.replacements arguments kept.binderTerm) ∧
    kept.availabilityWitness =
      view.witness.map (Term.substitute (view.replacements arguments kept.binderTerm))

theorem Term.conditions_substitute (replacements : List (Const × Term)) (terms : List Term) :
    (Term.conditions terms).substitute replacements =
      Term.conditions (terms.map (Term.substitute replacements)) := by
  have fold : ∀ first : Term, (Term.conjunction first terms).substitute replacements =
      Term.conjunction (first.substitute replacements)
        (terms.map (Term.substitute replacements)) := by
    induction terms with
    | nil => intro first; rfl
    | cons term terms ih =>
      intro first
      rw [Term.conjunction, foldl_cons, ← Term.conjunction, ih (first.conj term),
        map_cons, Term.conjunction, Term.conjunction, foldl_cons]
      simp [Term.conj, Term.substitute]
  rw [Term.conditions, fold]
  rfl

theorem Term.substitute_nil (term : Term) : term.substitute [] = term := by
  induction term with
  | constant symbol => rfl
  | numeral value => rfl
  | app decl arguments ih =>
    rw [Term.substitute, Term.substituteAll_eq, map_congr_left ih, map_id']
  | quantified universal bound body ih => rw [Term.substitute, filter_nil, ih]

theorem Environment.replaced_nil (environment : Environment) :
    environment.Replaced [] environment := by
  intro name
  cases environment.lookup name with
  | none => rfl
  | some found => simp [TypedExpression.substitute, Term.substitute_nil]

theorem elaborateArguments_again {environment : Environment}
    {mismatch : Nat → RuntimeType → String} {arguments : List Expr} {index : Nat}
    {types : List RuntimeType} {terms : List Term} {after : Runtime}
    (valid : runtime.Valid) (names : environment.Valid runtime)
    (known : ∀ type ∈ types, type ∈ runtime.objects) (length : arguments.length = types.length)
    (run : (elaborateArguments environment mismatch index arguments types).run runtime =
      .ok (terms, after))
    (includes : Includes after later) (instead : Nat → RuntimeType → String) :
    (elaborateArguments environment instead index arguments types).run later =
      .ok (terms, later) := by
  have again := elaborateArguments_includes instead
    (fun argument _ => elaborate_includes environment.replaced_nil argument) valid names known
    length run includes
  rwa [map_congr_left (fun term _ => Term.substitute_nil term), map_id'] at again

/-- A field is kept as the view's terms say, or the document is rejected. -/
theorem retainField_ends {declaration : PredicateDecl} {constructor : PredicateConstructor}
    {environment : Environment} {field : ArbitraryPremise} (valid : runtime.Valid)
    (names : environment.Valid runtime) (listed : info.Valid runtime)
    (known : ViewAt runtime info view)
    (length : field.viewArguments.length = info.parameterTypes.length) :
    Ends Rejected (retainField declaration constructor environment field info) runtime
      fun kept later => Advances runtime later ∧
        kept.binderTerm.name = "Fine.predicate." ++ declaration.name.text ++ "." ++
          constructor.name.text ++ ".arbitrary0" ∧
        ∀ after, Includes later after → Instantiated view after environment field kept := by
  unfold retainField
  refine ((elaborateArguments_rejects _ _ _ _ _).ends fun arguments start ran => ran).bind
    fun arguments start ran => ?_
  have all := elaborateArguments_ok (fun argument _ => elaborate_ok argument) valid names
    listed.parameters length ran
  have first : Advances runtime start := ⟨all.extends_, all.valid⟩
  have many : view.formals.length = arguments.length := by
    have sorts := (sorts_iff.mp all.sorted).length_eq
    rw [sorts, known.types, length_map]
  obtain ⟨required, available⟩ := (known.mono first.includes).instantiates
    ⟨"Fine.predicate." ++ declaration.name.text ++ "." ++ constructor.name.text ++ ".arbitrary0",
      info.carrier.sort⟩ many (fun _ => internal "validated view requirement changed type")
    (fun _ => internal "validated view witness changed type")
  refine .after required (.after available ?_)
  refine ((scopedPremises_rejects _ _ _).ends fun premises last ran => ran).bind
    fun premises last ran' => ?_
  have second := scopedPremises_ok first.valid ((names.extends_ first.extends_).emplace
    (first.extends_.objects listed.carrier) (by simp [Term.sort?])) ran'
  refine .pure ⟨first.trans second, rfl, fun after includes =>
    ⟨arguments, fun mismatch => ?_, ?_, rfl⟩⟩
  · have again := elaborateArguments_again valid names listed.parameters length ran
      (second.includes.trans includes) mismatch
    rwa [known.types] at again
  · rw [Term.conditions_substitute]

/-- Views are kept as the terms chosen for their names. -/
def Runtime.ViewsAt (runtime : Runtime) (chosen : Identifier → ViewTerms) : Prop :=
  ∀ name info, runtime.views.lookup name = some info → ViewAt runtime info (chosen name)

theorem Runtime.ViewsAt.mono {chosen : Identifier → ViewTerms} (known : runtime.ViewsAt chosen)
    (views : later.views = runtime.views) (includes : Includes runtime later) :
    later.ViewsAt chosen := by
  intro name info found
  rw [views] at found
  exact (known name info found).mono includes

section Predicates

variable {chosen : Identifier → ViewTerms} {declaration : PredicateDecl}
  {constructor : PredicateConstructor} {environment : Environment}

/-- Arbitrary fields are kept as their views say. -/
theorem arbitraryFields_ends {fields : List ArbitraryPremise} (valid : runtime.Valid)
    (views : runtime.ViewsValid) (names : environment.Valid runtime)
    (known : runtime.ViewsAt chosen) :
    Ends Rejected (arbitraryFields declaration constructor environment fields) runtime
      fun kept later => Advances runtime later ∧
        (∀ item ∈ kept, item.binderTerm.name = "Fine.predicate." ++ declaration.name.text ++ "." ++
          constructor.name.text ++ ".arbitrary0") ∧
        ∀ after, Includes later after → Forall₂ (fun field item =>
          Instantiated (chosen field.viewName) after environment field item) fields kept := by
  induction fields generalizing runtime with
  | nil => exact .pure ⟨.refl valid, by simp, fun _ _ => .nil⟩
  | cons field fields ih =>
    have one : Ends Rejected (arbitraryField declaration constructor environment field) runtime
        fun kept later => Advances runtime later ∧
          kept.binderTerm.name = "Fine.predicate." ++ declaration.name.text ++ "." ++
            constructor.name.text ++ ".arbitrary0" ∧
          ∀ after, Includes later after →
            Instantiated (chosen field.viewName) after environment field kept := by
      simp only [arbitraryField]
      change Ends Rejected (if _ then _ else _) runtime _
      split
      · exact ⟨_, _, rfl⟩
      split
      · exact ⟨_, _, rfl⟩
      split
      · exact ⟨_, _, rfl⟩
      rename_i info found
      split
      · exact ⟨_, _, rfl⟩
      rename_i length
      exact retainField_ends valid names (views _ info found) (known _ info found)
        (by simpa using length)
    rw [arbitraryFields]
    refine one.bind fun item between here => ?_
    obtain ⟨first, binder, here⟩ := here
    refine (ih first.valid (first.viewsValid views) (names.extends_ first.extends_)
      (known.mono first.extends_.views_eq first.includes)).bind fun rest last there => ?_
    obtain ⟨second, binders, there⟩ := there
    exact .pure ⟨first.trans second, forall_mem_cons.mpr ⟨binder, binders⟩, fun after includes =>
      .cons (here after (second.includes.trans includes)) (there after includes)⟩

/-- The constructor is kept with its formals and with such fields. -/
def ConstructorInstantiated (chosen : Identifier → ViewTerms) (after : Runtime)
    (constructor : PredicateConstructor) (kept : PredicateConstructorInfo) : Prop :=
  ∃ formals : List Formal, formals.map Formal.name = constructor.parameters.map Parameter.name ∧
    kept.parameters = formals.map Formal.term ∧
    (∀ item ∈ kept.arbitraryFields, item.binderTerm ∉ kept.parameters) ∧
    Forall₂ (fun field item => Instantiated (chosen field.viewName) after
      (environmentOf formals) field item) constructor.arbitraryPremises kept.arbitraryFields

theorem addConstructorRule_ends (declared : Identifier) (hornComplete : Bool)
    (info : PredicateConstructorInfo) (conclusion : Term) :
    Ends Rejected (addConstructorRule declared hornComplete info conclusion) runtime
      fun _ later => Includes runtime later := by
  unfold addConstructorRule
  split
  · exact Keeps.includes ⟨_, _, _, _, _, _, rfl⟩ fun _ _ => id
  · exact .refl _

variable {hornComplete : Bool}

/-- A constructor is kept so. -/
theorem declareConstructor_ends (valid : runtime.Valid) (views : runtime.ViewsValid)
    (known : runtime.ViewsAt chosen) :
    Ends Rejected (declareConstructor declaration hornComplete constructor) runtime
      fun kept later => ∀ after, Includes later after →
        ConstructorInstantiated chosen after constructor kept := by
  unfold declareConstructor
  refine ((declareParameters_rejects _ _ _ _).ends fun formals start ran => ran).bind
    fun formals start ran => ?_
  obtain ⟨first, of⟩ := declareParameters_ok valid ran
  refine ((constructorResult_rejects _ _ _).ends fun result between ran => ran).bind
    fun result between ran => ?_
  have second := constructorResult_ok first.valid of.valid ran
  obtain ⟨conclusion, indices⟩ := result
  refine ((occurring_rejects _ _).ends fun result later ran => ran).bind fun _ same ran => ?_
  obtain rfl := occurring_ok ran
  refine ((predicatePremises_rejects _ _ _).ends fun result later ran => ran).bind
    fun premises middle ran => ?_
  have scope := of.valid.extends_ second.extends_
  have third := predicatePremises_ok second.valid scope ran
  have before := (first.trans second).trans third
  refine (arbitraryFields_ends third.valid (before.viewsValid views)
    (scope.extends_ third.extends_) (known.mono before.extends_.views_eq before.includes)).bind
    fun fields last all => ?_
  obtain ⟨fourth, binders, all⟩ := all
  have apart : ∀ item ∈ fields, item.binderTerm ∉ formals.map Formal.term := by
    intro item inside member
    obtain ⟨formal, listed, same⟩ := mem_map.mp member
    obtain ⟨place, at_⟩ := mem_iff_getElem?.mp listed
    have letters := congrArg String.toList ((congrArg Const.name same).trans (binders item inside))
    rw [of.terms place formal at_] at letters
    simp [constructorRules, String.toList_append] at letters
  have kept : ∀ after, Includes last after → ConstructorInstantiated chosen after constructor
      ⟨constructor.name, formals.map Formal.term, indices, premises.map Prod.fst,
        premises.flatMap Prod.snd, fields, constructor.premises.length⟩ :=
    fun after includes => ⟨formals, of.names, rfl, apart, all after includes⟩
  exact (addConstructorRule_ends _ _ _ _).bind fun _ later more =>
    .pure fun after includes => kept after (more.trans includes)

theorem declareConstructors_ends {seen : List Identifier} {constructors : List PredicateConstructor}
    (valid : runtime.Valid) (views : runtime.ViewsValid) (known : runtime.ViewsAt chosen) :
    Ends Rejected (declareConstructors declaration hornComplete seen constructors) runtime
      fun kept later => ∀ after, Includes later after →
        Forall₂ (ConstructorInstantiated chosen after) constructors kept := by
  induction constructors generalizing runtime seen with
  | nil => exact .pure fun _ _ => .nil
  | cons constructor constructors ih =>
    rw [declareConstructors]
    split
    · exact ⟨_, _, rfl⟩
    refine (declareConstructor_ends valid views known).remember.bind fun item between here => ?_
    obtain ⟨here, ran⟩ := here
    have first := declareConstructor_ok valid views ran
    refine (ih first.valid (views.grow first.views_eq first.objects)
      (known.mono first.views_eq first.includes)).remember.bind fun rest last there => ?_
    obtain ⟨there, ran'⟩ := there
    have second := declareConstructors_ok first.valid (views.grow first.views_eq first.objects) ran'
    exact .pure fun after includes =>
      .cons (here after (second.includes.trans includes)) (there after includes)

/-- A predicate is kept with such constructors, or the document is rejected. -/
theorem declarePredicate_ends (order : runtime.InOrder) (known : runtime.ViewsAt chosen) :
    Ends Rejected (declarePredicate declaration) runtime fun _ after =>
      ∃ info, after.predicates.lookup declaration.name = some info ∧
        Forall₂ (ConstructorInstantiated chosen after) declaration.constructors
          info.constructors := by
  unfold declarePredicate
  refine ((reserveValueName_rejects _ _).ends fun _ start ran => ran).bind fun _ start ran => ?_
  obtain ⟨first, fresh, reserved⟩ := reserveValueName_ok order.formed.toValid ran
  refine ((declareParameters_rejects _ _ _ _).ends fun indices middle ran => ran).bind
    fun indices middle ran => ?_
  obtain ⟨second, of⟩ := declareParameters_ok first.valid ran
  have advances := first.trans second
  have formed := advances.wellFormed order.formed
  have new : ¬ middle.Declares declaration.name := by
    rw [advances.extends_.declares_iff]
    exact order.formed.undeclared fresh
  have entered : (middle.addPredicate (predicateInfo declaration indices)).WellFormed := by
    refine addPredicate_wellFormed formed ?_ ⟨second.extends_.valueNames (by simp [reserved,
      predicateInfo]), new⟩
    intro type member
    obtain ⟨formal, inside, rfl⟩ := mem_map.mp member
    exact of.listed formal inside
  have includes := addPredicate_includes (predicateInfo declaration indices) new
  refine .after rfl ?_
  have views : (middle.addPredicate (predicateInfo declaration indices)).ViewsValid :=
    (advances.viewsValid order.views).grow rfl fun _ => id
  refine (declareConstructors_ends entered.toValid views
    ((known.mono advances.extends_.views_eq advances.includes).mono rfl includes)).remember.bind
    fun kept last all => ?_
  obtain ⟨all, ran⟩ := all
  have ruled := declareConstructors_ok entered.toValid views ran
  have found : last.predicates.lookup declaration.name =
      some (predicateInfo declaration indices) := by
    have absent : middle.predicates.lookup declaration.name = none := by
      cases old : middle.predicates.lookup declaration.name with
      | none => rfl
      | some other => exact absurd (.inr (.inr (.inr (by simp [old])))) new
    have same : last.predicates =
        (middle.addPredicate (predicateInfo declaration indices)).predicates := by
      obtain ⟨_, _, _, _, same⟩ := ruled.extends_
      have tables := congrArg Runtime.predicates same
      exact tables
    rw [same, Runtime.addPredicate, Map.lookup_emplace, absent, Option.none_or, if_pos (by rfl)]
  have kept_ : (last.setConstructors declaration.name kept).predicates.lookup declaration.name =
      some { predicateInfo declaration indices with constructors := kept } := by
    rw [setConstructors_lookup, found, Option.map_some, if_pos rfl]
  exact ⟨_, kept_, all _ (setConstructors_includes _ _ _)⟩

end Predicates

/-- The view is kept, and elaborating it with arguments and a binder succeeds with the terms of its
declaration, their constants replaced. -/
def Reelaborates (declaration : ViewDecl) (view : ViewTerms) (runtime : Runtime) : Prop :=
  ∃ info, runtime.views.lookup declaration.name = some info ∧
    ∀ (arguments : List Term) (binder : Const) (otherwise instead : Expr → Run Term),
      view.formals.length = arguments.length →
      (elaborateConditions ((viewEnvironment info arguments).emplace valueName
          ⟨info.carrier, .constant binder⟩) otherwise info.requirements).run runtime =
        .ok (view.requirements.map (Term.substitute (view.replacements arguments binder)),
          runtime) ∧
      (viewWitness (viewEnvironment info arguments) info.carrier instead info.witness).run
          runtime =
        .ok (view.witness.map (Term.substitute (view.replacements arguments binder)), runtime)

/-- Fields of the view are kept so, for binders that are no parameters. -/
def FieldsInstantiated (declaration : ViewDecl) (view : ViewTerms) (after : Runtime)
    (constructor : PredicateConstructor) (kept : PredicateConstructorInfo) : Prop :=
  ∃ formals : List Formal, formals.map Formal.name = constructor.parameters.map Parameter.name ∧
    kept.parameters = formals.map Formal.term ∧
    (∀ item ∈ kept.arbitraryFields, item.binderTerm ∉ kept.parameters) ∧
    Forall₂ (fun field item => field.viewName = declaration.name →
      Instantiated view after (environmentOf formals) field item)
      constructor.arbitraryPremises kept.arbitraryFields

/-- A view is instantiated by substitution. Whatever is declared and proved after it, elaborating it
again succeeds and gives the terms of its declaration, with the arguments for the constants of its
parameters and the binder for that of its carrier. A later declaration of a predicate fails only by
being rejected at a place, and keeps every arbitrary field of the view with these terms, for a
binder that is none of the constructor's parameters. -/
theorem view_instantiated {start declared : Runtime} {declaration : ViewDecl}
    (reached : Reached start)
    (run : (declareView declaration).run start = .ok ((), declared)) :
    ∃ view middle, (viewTerms declaration).run start = .ok (view, middle) ∧
      ∀ before, Leads declared before → Reelaborates declaration view before ∧
        ∀ predicate : PredicateDecl,
          Ends Rejected (declarePredicate predicate) before fun _ after =>
            ∃ info, after.predicates.lookup predicate.name = some info ∧
              Forall₂ (FieldsInstantiated declaration view after)
                predicate.constructors info.constructors := by
  classical
  obtain ⟨view, middle, info, elaborated, rfl, absent, advances, known⟩ :=
    declareView_terms reached.inOrder.formed.toValid run
  refine ⟨view, middle, elaborated, fun before leads => ?_⟩
  have declares : (declare (.view declaration)).run start = .ok ((), _) := run
  have after := reached.declared declares
  have includes := leads.includes after
  have here : ViewAt before info view := by
    refine known.mono (Includes.trans (Keeps.includes ⟨_, _, _, _, _, _, rfl⟩ ?_) includes)
    exact fun other found listed => Map.emplace_keeps listed
  have found : before.views.lookup declaration.name = some info := by
    refine includes.views _ _ ?_
    rw [Map.lookup_emplace, advances.extends_.views_eq, absent, Option.none_or, if_pos rfl]
  refine ⟨⟨info, found, fun arguments binder otherwise instead length =>
    here.instantiates binder length otherwise instead⟩, fun predicate => ?_⟩
  have choice : ∀ name, ∃ terms, (name = declaration.name → terms = view) ∧
      ∀ other, before.views.lookup name = some other → ViewAt before other terms := by
    intro name
    by_cases same : name = declaration.name
    · refine ⟨view, fun _ => rfl, fun other listed => ?_⟩
      rw [same, found, Option.some.injEq] at listed
      exact listed ▸ here
    · cases listed : before.views.lookup name with
      | none => exact ⟨view, fun is => absurd is same, fun other listed => by cases listed⟩
      | some other =>
        obtain ⟨terms, at_⟩ := (leads.reached after).viewsElaborated name other listed
        exact ⟨terms, fun is => absurd is same, fun _ is => by cases is; exact at_⟩
  choose chosen own each using choice
  have views : before.ViewsAt chosen := each
  refine (declarePredicate_ends (leads.reached after).inOrder views).mono fun _ last kept => ?_
  obtain ⟨item, listed, all⟩ := kept
  refine ⟨item, listed, all.imp fun constructor kept of => ?_⟩
  obtain ⟨formals, names, parameters, apart, fields⟩ := of
  refine ⟨formals, names, parameters, apart, fields.imp fun field kept instantiated same => ?_⟩
  rwa [own field.viewName same] at instantiated

def aboveView : ViewDecl where
  info := default
  name := ⟨"Above", by decide⟩
  parameters := [⟨default, ⟨"low", by decide⟩, .named default intName⟩]
  carrier := .named default intName
  requirements := [.binary default .lessEqual (.name default ⟨"low", by decide⟩)
    (.name default valueName)]
  witness := some (.name default ⟨"low", by decide⟩)

/-- A constructor with an arbitrary field of that view. -/
def climbsPredicate : PredicateDecl where
  info := default
  name := ⟨"Climbs", by decide⟩
  indices := [⟨default, Peano.n, .named default intName⟩]
  constructors := [{
    span := default
    name := ⟨"climb", by decide⟩
    parameters := [⟨default, ⟨"low", by decide⟩, .named default intName⟩]
    premises := []
    arbitraryPremises := [⟨default, ⟨"high", by decide⟩, aboveView.name,
      [.name default ⟨"low", by decide⟩],
      [.call default ⟨"Climbs", by decide⟩ [.name default ⟨"high", by decide⟩]]⟩]
    result := .call default ⟨"Climbs", by decide⟩ [.name default ⟨"low", by decide⟩] }]

/-- An accepted predicate uses the view: its field has the view's formula and witness with the
parameter for the bound and the binder for the carrier. -/
theorem climb_instantiated : ∃ declared after,
    (declareView aboveView).run .initial = .ok ((), declared) ∧
    (declarePredicate climbsPredicate).run declared = .ok ((), after) ∧
    ∃ view middle, (viewTerms aboveView).run .initial = .ok (view, middle) ∧
      Reelaborates aboveView view declared ∧
      ∃ info, after.predicates.lookup climbsPredicate.name = some info ∧
        Forall₂ (FieldsInstantiated aboveView view after) climbsPredicate.constructors
          info.constructors := by
  obtain ⟨declared, after, run, ran⟩ : ∃ declared after,
      (declareView aboveView).run .initial = .ok ((), declared) ∧
      (declarePredicate climbsPredicate).run declared = .ok ((), after) := ⟨_, _, rfl, rfl⟩
  obtain ⟨view, middle, elaborated, uses⟩ := view_instantiated .initial run
  obtain ⟨again, ends⟩ := uses declared .refl
  have kept := ends climbsPredicate
  rw [Ends, ran] at kept
  exact ⟨declared, after, run, ran, view, middle, elaborated, again, kept⟩

/-- No later declaration changes what an expression means: it is elaborated to the same term in
every later state, and adds nothing to it. -/
theorem elaborate_settled {environment : Environment} {expression : Expr}
    {result : TypedExpression} {first after later : Runtime} (reached : Reached first)
    (names : environment.Valid first)
    (run : (elaborate environment expression).run first = .ok (result, after))
    (leads : Leads after later) :
    (elaborate environment expression).run later = .ok (result, later) := by
  have valid := reached.inOrder.formed.toValid
  have elaborated := elaborate_ok expression valid names run
  have between : Reached after := reached.proved ⟨elaborated.extends_, elaborated.valid⟩
  have again := elaborate_includes environment.replaced_nil expression valid names run
    (leads.includes between)
  rwa [TypedExpression.substitute, Term.substitute_nil] at again

/-- `Succ(Zero())`, before and after the doubling function. -/
theorem elaborate_settled_one : ∃ result later,
    (declareFunction Peano.functionDecl).run Peano.start = .ok ((), later) ∧
    (elaborate [] (.call {} Peano.succ [.call {} Peano.zero []])).run later =
      .ok (result, later) := by
  obtain ⟨later, run⟩ : ∃ later,
    (declare (.function Peano.functionDecl)).run Peano.start = .ok ((), later) := ⟨_, rfl⟩
  have elaborated : (elaborate [] (.call {} Peano.succ [.call {} Peano.zero []])).run Peano.start =
    .ok (_, Peano.start) := rfl
  refine ⟨_, later, run, elaborate_settled Peano.start_reached ?_ elaborated (.declared .refl run)⟩
  intro name found here
  cases here

end Fine.RuntimeDetail
