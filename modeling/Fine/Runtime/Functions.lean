import Fine.Runtime.Declared
import Mathlib

/-!
# What functions mean to the solver

The declared body is, at a value of a constructor, the arm of that constructor. So the recursion of
the source makes the solver's definition true.
-/

namespace Fine.RuntimeDetail

open Fine.Syntax Fine.Semantics Fine.Fallible
open List hiding choose

variable {runtime later : Runtime}

/-- Every name that binds, with the field that it stands for. -/
def patternEntries (matched : Formal) (item : DatatypeCaseInfo) : Nat → List MatchBinding →
    List RuntimeType → List (Identifier × TypedExpression)
  | field, binding :: bindings, type :: types =>
    if binding.name.text = "_" then patternEntries matched item (field + 1) bindings types
    else (binding.name, ⟨type, .app (item.accessor field type) [.constant matched.term]⟩) ::
      patternEntries matched item (field + 1) bindings types
  | _, _, _ => []

/-- What a bound pattern gives. -/
structure PatternBound (matched : Formal) (item : DatatypeCaseInfo) (field : Nat)
    (bindings : List MatchBinding) (types : List RuntimeType) (before after : Environment)
    (known recursive : List Identifier) : Prop where
  lookup : ∀ name, after.lookup name =
    (before.lookup name).or ((patternEntries matched item field bindings types).lookup name)
  /-- The recursive names are names of the pattern. -/
  recursive : ∀ name ∈ recursive, name ∈ known ∨ before.lookup name = none ∧
    ((patternEntries matched item field bindings types).lookup name).isSome = true

variable {matched : Formal} {item : DatatypeCaseInfo} {bindings : List MatchBinding}
  {types : List RuntimeType} {assignment : Assignment} {fields : List Value} {frame : FunctionFrame}
  {name : Identifier} {seen : List Identifier} {branches : List (Term × Term)} {interp : Interp}
  {formals : List Formal} {declaration : FunctionDecl}

variable {field index : Nat} {environment : Environment} {result : Unit} {found : TypedExpression}
  {recursion : Recursion} {span : SourceSpan} {after middle : Runtime} {arm : MatchArm}
  {branch : Term × Term} {arms : List MatchArm} {rules : ParameterRules}
  {parameters : List Parameter} {shapes : Shapes} {datatype : DatatypeInfo}

/-- A pattern binds its names. -/
theorem bindPattern_ok {known : List Identifier} {result : Environment × List Identifier}
    (run : (bindPattern matched item field bindings types environment known).run runtime =
      .ok (result, later)) :
    runtime = later ∧
      PatternBound matched item field bindings types environment result.1 known result.2 := by
  induction bindings generalizing field types environment known with
  | nil =>
    rw [bindPattern] at run
    · cases run
      exact ⟨rfl, by simp [patternEntries], fun _ => .inl⟩
    · simp
  | cons binding bindings ih =>
    cases types with
    | nil =>
      rw [bindPattern] at run
      · cases run
        exact ⟨rfl, by simp [patternEntries], fun _ => .inl⟩
      · simp
    | cons type types =>
      rw [bindPattern] at run
      split at run
      · rename_i blank
        obtain ⟨same, bound⟩ := ih run
        refine ⟨same, ?_, ?_⟩
        · simpa [patternEntries, blank] using bound.lookup
        · simpa [patternEntries, blank] using bound.recursive
      · rename_i solid
        split at run
        · cases run
        rename_i fresh
        have absent := Map.lookup_of_not_contains fresh
        obtain ⟨same, bound⟩ := ih run
        have entries : ∀ name, (patternEntries matched item field (binding :: bindings)
            (type :: types)).lookup name = if name = binding.name
            then some ⟨type, .app (item.accessor field type) [.constant matched.term]⟩
            else (patternEntries matched item (field + 1) bindings types).lookup name := by
          intro name
          rw [patternEntries, if_neg solid, lookup_cons]
          by_cases here : name = binding.name
          · simp [here]
          · rw [if_neg here, beq_eq_false_iff_ne.mpr here]
        refine ⟨same, fun name => ?_, fun name member => ?_⟩
        · rw [bound.lookup, Map.lookup_emplace, Option.or_assoc, entries]
          split
          · rw [Option.some_or]
          · rw [Option.none_or]
        · rw [entries]
          by_cases here : name = binding.name
          · subst here
            exact .inr ⟨absent, by simp⟩
          · rw [if_neg here]
            rcases bound.recursive name member with old | ⟨unknown, found⟩
            · refine .inl ?_
              split at old
              · exact (mem_cons.mp old).resolve_left here
              · exact old
            · rw [Map.lookup_emplace, if_neg here, Option.or_none] at unknown
              exact .inr ⟨unknown, found⟩

/-- The fields that the names of a pattern stand for. -/
theorem patternEntries_meaning (interp : Interp)
    (value : assignment matched.term = .plain (.con item.name fields))
    (length : bindings.length = types.length) (enough : fields.length = field + bindings.length)
    (name : Identifier) :
    (((patternEntries matched item field bindings types).lookup name).map fun found =>
      eval interp found.expression assignment) =
      (patternNames bindings (fields.drop field)).lookup name := by
  induction bindings generalizing field types with
  | nil => simp [patternEntries, patternNames]
  | cons binding bindings ih =>
    cases types with
    | nil => cases length
    | cons type types =>
      rw [length_cons] at enough
      have inside : field < fields.length := by omega
      have later := ih (Nat.succ.inj length) (show fields.length = field + 1 + bindings.length by
        omega)
      have shape : patternNames (binding :: bindings) (fields.drop field) =
          if binding.name.text = "_" then patternNames bindings (fields.drop (field + 1))
          else (binding.name, .plain fields[field]) ::
            patternNames bindings (fields.drop (field + 1)) := by
        rw [drop_eq_getElem_cons inside]
        simp only [patternNames, map_cons, zip_cons_cons, filter_cons, bne_iff_ne]
        split <;> rename_i blank <;> simp [blank]
      rw [shape, patternEntries]
      split
      · exact later
      · rw [lookup_cons, lookup_cons]
        cases name == binding.name with
        | true =>
          simp [eval, DatatypeCaseInfo.accessor, FuncDecl.apply, value, Element.toValue, fieldOf,
            getD_eq_getElem?_getD, inside]
        | false => exact later

/-- The matched parameter is one of a known datatype. -/
structure FunctionFrame.Valid (frame : FunctionFrame) (runtime : Runtime) : Prop where
  formals : (environmentOf frame.formals).Valid runtime
  matched : frame.matched ∈ frame.formals
  sort : frame.matched.term.sort = frame.matched.type.sort
  cases : ∀ item ∈ frame.datatype.cases, item.range = frame.matched.type.sort ∧
    ∀ type ∈ item.fieldTypes, type ∈ runtime.objects
  result : frame.resultType ∈ runtime.objects

theorem FunctionFrame.Valid.extends_ (valid : frame.Valid runtime) (more : Extends runtime later) :
    frame.Valid later where
  formals := valid.formals.extends_ more
  matched := valid.matched
  sort := valid.sort
  cases item member := ⟨(valid.cases item member).1,
    fun type inside => more.objects ((valid.cases item member).2 type inside)⟩
  result := more.objects valid.result

theorem patternEntries_valid (sort : matched.term.sort = item.range)
    (known : ∀ type ∈ types, type ∈ runtime.objects)
    (member : (name, found) ∈ patternEntries matched item field bindings types) :
    found.type ∈ runtime.objects ∧ found.expression.sort? = some found.type.sort := by
  induction bindings generalizing field types with
  | nil => cases member
  | cons binding bindings ih =>
    cases types with
    | nil => cases member
    | cons type types =>
      have later : ∀ other ∈ types, other ∈ runtime.objects :=
        fun other inside => known other (by simp [inside])
      rw [patternEntries] at member
      split at member
      · exact ih later member
      · rcases mem_cons.mp member with same | rest
        · cases same
          refine ⟨known type (by simp), ?_⟩
          simp [Term.sort?, Term.sorts?, DatatypeCaseInfo.accessor, FuncDecl.range?, sort]
        · exact ih later rest

/-- The call passes a field of the matched value. -/
def Recursion.Decreases (recursion : Recursion) (arguments : List Expr) : Prop :=
  arguments.length = recursion.arity ∧
    ∃ info field, arguments[recursion.position]? = some (.name info field) ∧
      field ∈ recursion.fields

/-- Checking changes no state, and calls decrease. -/
def ChecksStructure (recursion : Recursion) (expression : Expr) : Prop :=
  ∀ {runtime later : Runtime} {result : Unit},
    (checkStructuralCalls recursion expression).run runtime = .ok (result, later) →
    runtime = later ∧ ∀ arguments, CallsIn recursion.function expression arguments →
      recursion.Decreases arguments

theorem Recursion.checkCall_ok {callee : Identifier} {arguments : List Expr}
    (run : (recursion.checkCall span callee arguments).run runtime = .ok (result, later)) :
    runtime = later ∧ (callee = recursion.function → recursion.Decreases arguments) := by
  unfold Recursion.checkCall at run
  split at run
  · rename_i other
    cases run
    exact ⟨rfl, fun same => absurd same (by simpa using other)⟩
  · split at run
    · cases run
    rename_i arity
    split at run
    · rename_i info field found
      split at run
      · rename_i member
        cases run
        exact ⟨rfl, fun _ => ⟨by simpa using arity, info, field, found, member⟩⟩
      · cases run
    · cases run
    · cases run

theorem checkStructuralAll_ok {expressions : List Expr}
    (each : ∀ expression ∈ expressions, ChecksStructure recursion expression)
    (run : (checkStructuralAll recursion expressions).run runtime = .ok (result, later)) :
    runtime = later ∧ ∀ expression ∈ expressions, ∀ arguments,
      CallsIn recursion.function expression arguments → recursion.Decreases arguments := by
  induction expressions generalizing runtime with
  | nil => cases run; exact ⟨rfl, by simp⟩
  | cons expression expressions ih =>
    rw [checkStructuralAll] at run
    obtain ⟨_, _, first, run⟩ := run_bind_ok run
    obtain ⟨rfl, here⟩ := each expression (by simp) first
    obtain ⟨rfl, there⟩ := ih (fun other member => each other (by simp [member])) run
    exact ⟨rfl, forall_mem_cons.mpr ⟨here, there⟩⟩

/-- Calls of a checked expression decrease. -/
theorem checkStructuralCalls_ok (recursion : Recursion) (expression : Expr) :
    ChecksStructure recursion expression := by
  induction expression with
  | name | boolean | integer | hole =>
    intro runtime later result run
    cases run
    refine ⟨rfl, fun arguments calls => ?_⟩
    cases calls with
    | inside member => cases member
  | tuple info elements ih =>
    intro runtime later result run
    rw [checkStructuralCalls] at run
    obtain ⟨same, all⟩ := checkStructuralAll_ok ih run
    refine ⟨same, fun arguments calls => ?_⟩
    cases calls with
    | inside member calls => exact all _ member arguments calls
  | call info callee elements ih =>
    intro runtime later result run
    rw [checkStructuralCalls] at run
    obtain ⟨_, _, checked, run⟩ := run_bind_ok run
    obtain ⟨rfl, here⟩ := Recursion.checkCall_ok checked
    obtain ⟨same, all⟩ := checkStructuralAll_ok ih run
    refine ⟨same, fun arguments calls => ?_⟩
    cases calls with
    | here => exact here rfl
    | inside member calls => exact all _ member arguments calls
  | binary info op left right leftIh rightIh =>
    intro runtime later result run
    rw [checkStructuralCalls] at run
    obtain ⟨_, _, first, run⟩ := run_bind_ok run
    obtain ⟨rfl, one⟩ := leftIh first
    obtain ⟨rfl, two⟩ := rightIh run
    refine ⟨rfl, fun arguments calls => ?_⟩
    cases calls with
    | inside member calls =>
      simp only [Expr.elements, mem_cons, not_mem_nil, or_false] at member
      rcases member with rfl | rfl
      · exact one arguments calls
      · exact two arguments calls
  | conditional info condition yes no conditionIh yesIh noIh =>
    intro runtime later result run
    rw [checkStructuralCalls] at run
    obtain ⟨_, _, first, run⟩ := run_bind_ok run
    obtain ⟨rfl, one⟩ := conditionIh first
    obtain ⟨_, _, second, run⟩ := run_bind_ok run
    obtain ⟨rfl, two⟩ := yesIh second
    obtain ⟨rfl, three⟩ := noIh run
    refine ⟨rfl, fun arguments calls => ?_⟩
    cases calls with
    | inside member calls =>
      simp only [Expr.elements, mem_cons, not_mem_nil, or_false] at member
      rcases member with rfl | rfl | rfl
      · exact one arguments calls
      · exact two arguments calls
      · exact three arguments calls

/-- What the elaboration of an arm gives. -/
structure ArmElaborated (frame : FunctionFrame) (runtime later : Runtime) (arm : MatchArm)
    (branch : Term × Term) (item : DatatypeCaseInfo) : Prop where
  member : item ∈ frame.datatype.cases
  name : item.name = arm.constructor
  length : arm.bindings.length = item.fieldTypes.length
  guard : branch.1 = .app item.recognizer [.constant frame.matched.term]
  value : ∃ environment recursive, PatternBound frame.matched item 0 arm.bindings item.fieldTypes
      (environmentOf frame.formals) environment [] recursive ∧
    Elaborated environment runtime later arm.value ⟨frame.resultType, branch.2⟩ ∧
    ∀ arguments, CallsIn frame.declaration.name arm.value arguments →
      Recursion.Decreases ⟨frame.declaration.name, frame.declaration.parameters.length,
        frame.position, frame.datatype.name, recursive⟩ arguments

theorem PatternBound.valid {before after : Environment} {recursive : List Identifier}
    (bound : PatternBound matched item 0 bindings item.fieldTypes before after [] recursive)
    (names : before.Valid runtime) (sort : matched.term.sort = item.range)
    (known : ∀ type ∈ item.fieldTypes, type ∈ runtime.objects) : after.Valid runtime := by
  intro name found lookup
  rw [bound.lookup, Option.or_eq_some_iff] at lookup
  rcases lookup with old | ⟨-, new⟩
  · exact names name found old
  · exact patternEntries_valid sort known (Map.mem_of_lookup new)

/-- An arm is elaborated. -/
theorem functionArm_ok (valid : runtime.Valid) (framed : frame.Valid runtime)
    (run : (functionArm frame seen arm).run runtime = .ok (branch, later)) :
    ∃ item, ArmElaborated frame runtime later arm branch item ∧ arm.constructor ∉ seen := by
  unfold functionArm at run
  split at run
  · cases run
  rename_i item found
  split at run
  · cases run
  rename_i new
  split at run
  · cases run
  rename_i length
  obtain ⟨bound, _, pattern, run⟩ := run_bind_ok run
  obtain ⟨rfl, names⟩ := bindPattern_ok pattern
  obtain ⟨_, _, checked, run⟩ := run_bind_ok run
  obtain ⟨rfl, structural⟩ := checkStructuralCalls_ok _ arm.value checked
  obtain ⟨value, between, ran, run⟩ := run_bind_ok run
  split at run
  · cases run
  rename_i fits
  cases run
  have member : item ∈ frame.datatype.cases := mem_of_find?_eq_some found
  have same : item.name = arm.constructor := by simpa using find?_some found
  obtain ⟨range, known⟩ := framed.cases item member
  have elaborated := elaborate_ok arm.value valid
    (names.valid framed.formals (framed.sort.trans range.symm) known) ran
  have result : value.type = frame.resultType := by
    have listed := elaborated.extends_.objects framed.result
    have pointers : value.type.same frame.resultType = true := by simpa using fits
    exact elaborated.valid.types.unique elaborated.listed listed
      ((elaborated.valid.types.same_iff elaborated.listed listed).mp pointers)
  refine ⟨item, ⟨member, same, by simpa using length, rfl, bound.1, bound.2, names, ?_,
    structural⟩, new⟩
  rw [← result]
  exact elaborated

/-- What the elaboration of the arms gives. -/
structure ArmsElaborated (frame : FunctionFrame) (runtime later : Runtime) (seen : List Identifier)
    (arms : List MatchArm) (branches : List (Term × Term)) : Prop where
  advances : Advances runtime later
  each : Forall₂ (fun arm branch => ∃ item before after,
    before.signature = runtime.signature ∧ ArmElaborated frame before after arm branch item)
    arms branches
  distinct : (arms.map MatchArm.constructor).Nodup
  unseen : ∀ arm ∈ arms, arm.constructor ∉ seen

theorem functionArms_ok (valid : runtime.Valid) (framed : frame.Valid runtime)
    (run : (functionArms frame seen arms).run runtime = .ok (branches, later)) :
    ArmsElaborated frame runtime later seen arms branches := by
  induction arms generalizing runtime seen branches with
  | nil => cases run; exact ⟨.refl valid, .nil, by simp, by simp⟩
  | cons arm arms ih =>
    rw [functionArms] at run
    obtain ⟨branch, between, first, run⟩ := run_bind_ok run
    obtain ⟨rest, behind, ran, run⟩ := run_bind_ok run
    cases run
    obtain ⟨item, elaborated, new⟩ := functionArm_ok valid framed first
    obtain ⟨_, _, _, value, _⟩ := elaborated.value
    have all := ih value.valid (framed.extends_ value.extends_) ran
    have signature := value.extends_.signature_eq
    refine ⟨value.advances.trans all.advances, .cons ⟨item, _, _, rfl, elaborated⟩ ?_, ?_, ?_⟩
    · refine all.each.imp ?_
      rintro other branch ⟨item, before, after, same, known⟩
      exact ⟨item, before, after, same.trans signature, known⟩
    · rw [map_cons, nodup_cons]
      refine ⟨fun member => ?_, all.distinct⟩
      obtain ⟨other, inside, same⟩ := mem_map.mp member
      exact all.unseen other inside (by simp [same])
    · exact forall_mem_cons.mpr ⟨new, fun other member old =>
        all.unseen other member (by simp [old])⟩

/-- The body is the branch of the value's constructor. -/
theorem eval_matchBody {matched : Const} {constructor : Identifier}
    (value : assignment matched = .plain (.con constructor fields)) {names : List Identifier}
    {result : Term} {guard : Term}
    (guards : Forall₂ (fun name branch => ∃ domain,
      branch.1 = .app (.recognizer name domain) [.constant matched]) names branches)
    (distinct : names.Nodup) (found : (constructor, (guard, result)) ∈ names.zip branches) :
    eval interp (matchBody branches) assignment = eval interp result assignment := by
  induction guards with
  | nil => cases found
  | cons here rest ih =>
    rename_i name branch names branches
    obtain ⟨domain, shape⟩ := here
    rw [nodup_cons] at distinct
    rw [zip_cons_cons, mem_cons] at found
    obtain ⟨test, body⟩ := branch
    dsimp only at shape
    subst shape
    have tested : (eval interp (.app (.recognizer name domain) [.constant matched])
        assignment).Holds ↔ constructor = name := by
      simp [eval, FuncDecl.apply, value, Element.toValue, constructor?]
    cases branches with
    | nil =>
      cases rest
      rcases found with same | other
      · cases same
        rfl
      · cases other
    | cons next branches =>
      rw [matchBody]
      · rw [eval_app]
        simp only [map_cons, map_nil, FuncDecl.apply, choose]
        rcases found with same | other
        · cases same
          rw [if_pos (tested.mpr rfl)]
        · rw [if_neg, ih distinct.2 other]
          intro holds
          rw [← tested.mp holds] at distinct
          exact distinct.1 (of_mem_zip other).1
      · simp

/-- What the declaration of a function does, in the end. -/
structure FunctionDeclared (declaration : FunctionDecl) (middle after : Runtime)
    (frame : FunctionFrame) (branches : List (Term × Term)) : Prop where
  of : frame.declaration = declaration
  formals : FormalsOf (functionRules declaration.name) middle 0 [] declaration.parameters
    frame.formals
  scrutinee : ∃ info, declaration.scrutinee = .name info frame.matched.name
  matched : frame.formals[frame.position]? = some frame.matched
  datatype : ∃ address, frame.matched.type = .datatype address frame.datatype.name ∧
    middle.datatypes.lookup frame.datatype.name = some frame.datatype
  result : frame.resultType ∈ middle.objects ∧ frame.resultType.isTable = false ∧
    frame.resultType.meaning = FineType.ofSyntax declaration.resultType
  new : declaration.name ∈ middle.valueNames ∧ ¬ middle.Declares declaration.name
  arms : ArmsElaborated frame (middle.addFunction ⟨declaration.name,
    frame.formals.map Formal.type, frame.resultType⟩) after [] declaration.arms branches
  exhaustive : declaration.arms.length = frame.datatype.cases.length

def FunctionFrame.definition (frame : FunctionFrame) (branches : List (Term × Term)) :
    Definition :=
  ⟨⟨frame.declaration.name, frame.formals.map Formal.type, frame.resultType⟩,
    frame.formals.map Formal.term, matchBody branches⟩

theorem addFunction_wellFormed (formed : runtime.WellFormed) {info : FunctionInfo}
    (parameters : ∀ type ∈ info.parameterTypes, type ∈ runtime.objects)
    (result : info.resultType ∈ runtime.objects)
    (new : info.name ∈ runtime.valueNames ∧ ¬ runtime.Declares info.name) :
    (runtime.addFunction info).WellFormed := by
  refine ⟨⟨formed.types.congr rfl rfl rfl rfl rfl, ?_⟩, ⟨?_, formed.tables.enumeration,
    formed.tables.datatype, formed.tables.cases, formed.tables.constructors, formed.tables.apart,
    formed.tables.shapes⟩⟩
  · refine formed.names.grow (fun _ => id) (fun _ _ _ => .inl) (fun _ _ _ => .inl) ?_
      fun _ found old => .inl ⟨found, old, rfl, rfl⟩
    intro name found lookup
    rcases Map.emplace_cases lookup with old | ⟨rfl, rfl⟩
    · exact .inl old
    · exact .inr ⟨rfl, parameters, result⟩
  · intro name declared
    by_cases same : name = info.name
    · rw [same]
      exact new.1
    · refine formed.tables.reserved name (declared.imp_right (.imp_right (.imp_left fun found => ?_)))
      rwa [Runtime.addFunction, Map.lookup_emplace, if_neg same, Option.or_none] at found

theorem keeps_addDefinition (runtime : Runtime) (definition : Definition) :
    Keeps runtime (runtime.addDefinition definition) := ⟨_, _, _, _, _, _, rfl⟩

theorem matchedParameter_ok {result : Formal × Nat × DatatypeInfo}
    (run : (matchedParameter span name formals).run runtime = .ok (result, later)) :
    runtime = later ∧ result.1.name = name ∧ formals[result.2.1]? = some result.1 ∧
      ∃ address declared, result.1.type = .datatype address declared ∧
        runtime.datatypes.lookup declared = some result.2.2 := by
  unfold matchedParameter at run
  split at run
  · cases run
  rename_i matched position found
  simp only [run_get_bind] at run
  split at run
  · rename_i address declared type
    split at run
    · rename_i datatype known
      cases run
      have member : (matched, position) ∈ formals.zipIdx := mem_of_find?_eq_some found
      refine ⟨rfl, by simpa using find?_some found, mem_zipIdx_iff_getElem?.mp member,
        address, declared, type, known⟩
    · cases run
  · cases run

/-- The state advances, and the function is added with its definition. -/
theorem declareFunction_ok (formed : runtime.WellFormed)
    (run : (declareFunction declaration).run runtime = .ok (result, later)) :
    ∃ middle after frame branches, Advances runtime middle ∧
      FunctionDeclared declaration middle after frame branches ∧
      later = after.addDefinition (frame.definition branches) := by
  unfold declareFunction at run
  obtain ⟨_, start, reserved, run⟩ := run_bind_ok run
  obtain ⟨first, fresh, names⟩ := reserveValueName_ok formed.toValid reserved
  split at run
  · cases run
  split at run
  · rename_i info name written
    unfold declareMatch at run
    obtain ⟨formals, between, ran, run⟩ := run_bind_ok run
    obtain ⟨second, of⟩ := declareParameters_ok first.valid ran
    obtain ⟨⟨matched, position, datatype⟩, _, found, run⟩ := run_bind_ok run
    obtain ⟨rfl, same, place, address, declared, type, known⟩ := matchedParameter_ok found
    dsimp only at same place type known run
    obtain ⟨resultType, middle, resolved, run⟩ := run_bind_ok run
    obtain ⟨third, listed, meaning⟩ := resolveType_advances second.valid resolved
    split at run
    · cases run
    rename_i flat
    have advances := (first.trans second).trans third
    have shaped := advances.wellFormed formed
    have known' : middle.datatypes.lookup declared = some datatype := by
      obtain ⟨_, _, _, _, rfl⟩ := third.extends_
      exact known
    obtain ⟨rfl, typeOf, members⟩ := shaped.tables.constructors declared datatype known'
    have of' : FormalsOf (functionRules declaration.name) middle 0 [] declaration.parameters
        formals :=
      ⟨of.names, of.types, fun formal member => third.extends_.objects (of.listed formal member),
        of.admitted, of.terms, of.distinct, of.unseen⟩
    have new : declaration.name ∈ middle.valueNames ∧ ¬ middle.Declares declaration.name := by
      refine ⟨(second.extends_.trans third.extends_).valueNames (by simp [names]), ?_⟩
      rw [advances.extends_.declares_iff]
      exact formed.undeclared fresh
    have memberOf : matched ∈ formals := mem_of_getElem? place
    have object : datatype.type ∈ middle.objects :=
      mem_append_left _ (mem_map.mpr ⟨_, Map.mem_of_lookup typeOf, rfl⟩)
    have matchedType : datatype.type = matched.type := by
      have listed' := of'.listed matched memberOf
      have proper := shaped.types.proper _ listed'
      rw [type] at proper
      refine shaped.types.unique object listed' ?_
      rw [type]
      exact shaped.types.lookup_meaning typeOf
        (by simpa [RuntimeType.meaning, RuntimeType.sort, Z3Sort.meaning, FineType.proper]
          using proper)
    have shaped' : (middle.addFunction ⟨declaration.name, formals.map Formal.type,
        resultType⟩).WellFormed := by
      refine addFunction_wellFormed shaped ?_ listed new
      intro other member
      obtain ⟨formal, inside, rfl⟩ := mem_map.mp member
      exact of'.listed formal inside
    obtain ⟨_, added, ran', run⟩ := run_bind_ok run
    cases ran'
    unfold defineFunction at run
    obtain ⟨branches, after, elaborated, run⟩ := run_bind_ok run
    split at run
    · cases run
    rename_i exhaustive
    cases run
    have framed : FunctionFrame.Valid ⟨declaration, formals, matched, position, datatype,
        resultType⟩ (middle.addFunction ⟨declaration.name, formals.map Formal.type,
        resultType⟩) := by
      refine ⟨of'.valid, memberOf, ?_, fun item member => ?_, listed⟩
      · rw [of'.terms position matched place]
      · obtain ⟨-, -, -, range, fields⟩ :=
          shaped.names.constructors item.name datatype item (members item member)
        exact ⟨by rw [range, matchedType], fields⟩
    refine ⟨middle, after, ⟨declaration, formals, matched, position, datatype, resultType⟩,
      branches, advances, ⟨rfl, of', ⟨info, by rw [written, same]⟩, place, ⟨address, type, known'⟩,
        ⟨listed, by simpa using flat, meaning⟩, new,
        functionArms_ok shaped'.toValid framed elaborated, by simpa using exhaustive⟩, rfl⟩
  · cases run

/-- Constants are elements of their sorts. -/
def Assignment.Sorted (assignment : Assignment) (shapes : Shapes) (constants : List Const) :
    Prop := ∀ constant ∈ constants, (assignment constant).Inhabits shapes constant.sort.meaning

/-- Fields of the matched value are of their types. -/
theorem patternEntries_typed (value : assignment matched.term = .plain (.con item.name fields))
    (typed : Forall₂ (Inhabits interp.shapes) (fields.drop field)
      (types.map RuntimeType.meaning))
    (member : (name, found) ∈ patternEntries matched item field bindings types) :
    (eval interp found.expression assignment).Inhabits interp.shapes found.type.meaning := by
  induction bindings generalizing field types with
  | nil => cases member
  | cons binding bindings ih =>
    cases types with
    | nil => cases member
    | cons type types =>
      have inside : field < fields.length := by
        have length := typed.length_eq
        simp only [length_drop, map_cons, length_cons] at length
        omega
      rw [drop_eq_getElem_cons inside, map_cons, forall₂_cons] at typed
      rw [patternEntries] at member
      split at member
      · exact ih typed.2 member
      · rcases mem_cons.mp member with same | rest
        · cases same
          have is : eval interp (.app (item.accessor field type) [.constant matched.term])
              assignment = .plain fields[field] := by
            simp [eval, DatatypeCaseInfo.accessor, FuncDecl.apply, value, Element.toValue, fieldOf,
              getD_eq_getElem?_getD, inside]
          rw [is]
          exact typed.1
        · exact ih typed.2 rest

theorem Environment.meaning_typed
    (typed : ∀ name found, environment.lookup name = some found →
      (eval interp found.expression assignment).Inhabits interp.shapes found.type.meaning) :
    (environment.meaning interp assignment).Typed interp.shapes environment.scope := by
  intro name
  unfold Environment.meaning Environment.scope
  cases lookup : environment.lookup name with
  | none => exact ⟨rfl, fun _ _ none => by cases none⟩
  | some found =>
    refine ⟨rfl, fun type element one two => ?_⟩
    cases one
    cases two
    exact typed name found lookup

theorem FormalsOf.typed (of : FormalsOf rules runtime index seen parameters formals)
    (sorted : assignment.Sorted shapes (formals.map Formal.term)) {formal : Formal}
    (member : formal ∈ formals) : (assignment formal.term).Inhabits shapes formal.type.meaning := by
  obtain ⟨place, at_⟩ := mem_iff_getElem?.mp member
  have here := sorted formal.term (mem_map_of_mem member)
  rw [of.terms place formal at_] at here ⊢
  exact here

theorem mem_of_environmentOf (lookup : (environmentOf formals).lookup name = some found) :
    ∃ formal ∈ formals, formal.name = name ∧ found = ⟨formal.type, .constant formal.term⟩ := by
  obtain ⟨formal, inside, entry⟩ := mem_map.mp (Map.mem_of_lookup lookup)
  cases entry
  exact ⟨formal, inside, rfl, rfl⟩

theorem FormalsOf.plain (of : FormalsOf rules runtime index seen parameters formals)
    (flat : ∀ formal ∈ formals, formal.type.isTable = false)
    (sorted : assignment.Sorted shapes (formals.map Formal.term)) :
    (formals.map fun formal => assignment formal.term) =
        (formals.map fun formal => (assignment formal.term).toValue).map Element.plain ∧
      Forall₂ (Inhabits shapes) (formals.map fun formal => (assignment formal.term).toValue)
        (parameterTypes parameters) := by
  have each : ∀ formal ∈ formals, assignment formal.term = .plain (assignment formal.term).toValue ∧
      Inhabits shapes (assignment formal.term).toValue formal.type.meaning := by
    intro formal member
    exact (of.typed sorted member).toValue
      ((RuntimeType.isTable_meaning _).trans (flat formal member))
  constructor
  · rw [map_map]
    exact map_congr_left fun formal member => (each formal member).1
  · rw [← of.types, forall₂_map_left_iff, forall₂_map_right_iff, forall₂_same]
    exact fun formal member => (each formal member).2

/-- Names in an arm stand for elements of their types. -/
theorem ArmElaborated.scope {before : Runtime}
    (elaborated : ArmElaborated frame before after arm branch item)
    (of : FormalsOf rules middle 0 [] frame.declaration.parameters frame.formals)
    (flat : ∀ formal ∈ frame.formals, formal.type.isTable = false)
    (sorted : assignment.Sorted interp.shapes (frame.formals.map Formal.term))
    (value : assignment frame.matched.term = .plain (.con item.name fields))
    (typed : Forall₂ (Inhabits interp.shapes) fields (item.fieldTypes.map RuntimeType.meaning)) :
    ∃ environment : Environment,
      Elaborated environment before after arm.value ⟨frame.resultType, branch.2⟩ ∧
      environment.meaning interp assignment = armMeaning frame.declaration arm
        (frame.formals.map fun formal => (assignment formal.term).toValue) fields ∧
      (environment.meaning interp assignment).Typed interp.shapes environment.scope := by
  obtain ⟨environment, recursive, bound, body, -⟩ := elaborated.value
  refine ⟨environment, body, ?_, ?_⟩
  · have outer := environmentOf_meaning frame.formals interp assignment
    rw [(of.plain flat sorted).1, of.names] at outer
    funext name
    have length : fields.length = 0 + arm.bindings.length := by
      rw [typed.length_eq, length_map, elaborated.length, Nat.zero_add]
    have inner := patternEntries_meaning interp value elaborated.length length name
    rw [drop_zero] at inner
    rw [armMeaning, ← outer, ← inner, Environment.meaning, Environment.meaning, bound.lookup]
    cases (environmentOf frame.formals).lookup name <;> rfl
  · apply Environment.meaning_typed
    intro name found lookup
    rw [bound.lookup, Option.or_eq_some_iff] at lookup
    rcases lookup with old | ⟨-, new⟩
    · obtain ⟨formal, member, -, rfl⟩ := mem_of_environmentOf old
      exact of.typed sorted member
    · exact patternEntries_typed value (by rwa [drop_zero]) (Map.mem_of_lookup new)

theorem exists_mem_zip {α β : Type} {first : List α} {second : List β}
    (length : first.length = second.length) {member : α} (inside : member ∈ first) :
    ∃ other, (member, other) ∈ first.zip second := by
  obtain ⟨place, bound, rfl⟩ := mem_iff_getElem.mp inside
  refine ⟨second.get ⟨place, length ▸ bound⟩, mem_iff_getElem.mpr ⟨place, ?_, ?_⟩⟩
  · simpa [length] using bound
  · simp

theorem mem_arms_of_case (distinct : (arms.map MatchArm.constructor).Nodup)
    (known : ∀ arm ∈ arms, ∃ item ∈ datatype.cases, item.name = arm.constructor)
    (exhaustive : arms.length = datatype.cases.length) (member : item ∈ datatype.cases) :
    ∃ arm ∈ arms, arm.constructor = item.name := by
  have covered : arms.map MatchArm.constructor ⊆ datatype.cases.map DatatypeCaseInfo.name := by
    intro name inside
    obtain ⟨arm, listed, rfl⟩ := mem_map.mp inside
    exact mem_map.mpr (known arm listed)
  have all := (subperm_of_subset distinct covered).perm_of_length_le (by simp [exhaustive])
  exact mem_map.mp (all.mem_iff.mpr (mem_map_of_mem member))

theorem FunctionDeclared.arm_of_case
    (declared : FunctionDeclared declaration middle after frame branches)
    (member : item ∈ frame.datatype.cases) :
    ∃ arm branch, (arm, branch) ∈ declaration.arms.zip branches ∧ arm.constructor = item.name := by
  have length := declared.arms.each.length_eq
  obtain ⟨arm, listed, same⟩ := mem_arms_of_case declared.arms.distinct (fun arm listed => by
    obtain ⟨branch, paired⟩ := exists_mem_zip length listed
    obtain ⟨item, _, _, -, elaborated⟩ := forall₂_zip declared.arms.each paired
    exact ⟨item, elaborated.member, elaborated.name⟩) declared.exhaustive member
  obtain ⟨branch, paired⟩ := exists_mem_zip length listed
  exact ⟨arm, branch, paired, same⟩

theorem Runtime.WellFormed.case_unique (formed : runtime.WellFormed)
    (known : runtime.datatypes.lookup name = some datatype) {first second : DatatypeCaseInfo}
    (one : first ∈ datatype.cases) (two : second ∈ datatype.cases)
    (same : first.name = second.name) : first = second := by
  obtain ⟨-, -, members⟩ := formed.tables.constructors name datatype known
  have left := members first one
  rw [same, members second two] at left
  cases left
  rfl

theorem case_of_inhabits {value : Value} (inhabits : Inhabits shapes value (.named name))
    (known : shapes name = some (datatype.cases.map fun item =>
      (item.name, item.fieldTypes.map RuntimeType.meaning))) :
    ∃ item ∈ datatype.cases, ∃ fields, value = .con item.name fields ∧
      Forall₂ (Inhabits shapes) fields (item.fieldTypes.map RuntimeType.meaning) := by
  obtain ⟨constructor, fields, cases, types, is, shape, member, typed⟩ := inhabits_named.mp inhabits
  rw [known] at shape
  cases shape
  obtain ⟨item, inside, entry⟩ := mem_map.mp member
  rw [Prod.mk.injEq] at entry
  obtain ⟨rfl, rfl⟩ := entry
  exact ⟨item, inside, fields, is, inhabitsAll_iff.mp typed⟩

/-- The body is the branch of the constructor that built the argument. -/
theorem FunctionDeclared.branch_of
    (declared : FunctionDeclared declaration middle after frame branches)
    (formed : middle.WellFormed)
    (shapes : interp.shapes frame.datatype.name = some (frame.datatype.cases.map fun item =>
      (item.name, item.fieldTypes.map RuntimeType.meaning)))
    (sorted : assignment.Sorted interp.shapes (frame.formals.map Formal.term)) :
    ∃ arm branch item fields before last, (arm, branch) ∈ declaration.arms.zip branches ∧
      before.signature = (middle.addFunction (frame.definition branches).info).signature ∧
      ArmElaborated frame before last arm branch item ∧
      assignment frame.matched.term = .plain (.con item.name fields) ∧
      Forall₂ (Inhabits interp.shapes) fields (item.fieldTypes.map RuntimeType.meaning) ∧
      matchedArgument declaration (frame.formals.map fun formal =>
        (assignment formal.term).toValue) = some (.con arm.constructor fields) ∧
      eval interp (matchBody branches) assignment = eval interp branch.2 assignment := by
  obtain rfl := declared.of
  obtain ⟨address, type, known⟩ := declared.datatype
  -- the matched argument is a value of one of the cases, which has an arm
  have matchedIn : frame.matched ∈ frame.formals := mem_of_getElem? declared.matched
  have inside := declared.formals.typed sorted matchedIn
  rw [type] at inside
  obtain ⟨value, inhabits⟩ := inside.toValue rfl
  obtain ⟨item, itemIn, fields, is, fieldsTyped⟩ := case_of_inhabits inhabits shapes
  rw [is] at value
  obtain ⟨arm, branch, paired, armOf⟩ := declared.arm_of_case itemIn
  obtain ⟨item', before, last, signature, elaborated⟩ := forall₂_zip declared.arms.each paired
  obtain rfl : item = item' :=
    formed.case_unique known itemIn elaborated.member (armOf.symm.trans elaborated.name.symm)
  have argument : matchedArgument frame.declaration
      (frame.formals.map fun formal => (assignment formal.term).toValue) =
        some (.con arm.constructor fields) := by
    obtain ⟨info, scrutinee⟩ := declared.scrutinee
    simp only [matchedArgument, scrutinee]
    rw [← declared.formals.names, zip_map', armOf, ← is]
    exact lookup_map_of_mem declared.formals.distinct matchedIn
  have guards : Forall₂ (fun name branch => ∃ domain,
      branch.1 = Term.app (.recognizer name domain) [.constant frame.matched.term])
      (frame.declaration.arms.map MatchArm.constructor) branches := by
    rw [forall₂_map_left_iff]
    refine declared.arms.each.imp ?_
    rintro arm branch ⟨item, _, _, -, elaborated⟩
    exact ⟨item.range, by rw [elaborated.guard, DatatypeCaseInfo.recognizer, elaborated.name]⟩
  have listed : (item.name, branch) ∈
      (frame.declaration.arms.map MatchArm.constructor).zip branches := by
    rw [← armOf, zip_map_left]
    exact mem_map.mpr ⟨_, paired, rfl⟩
  exact ⟨arm, branch, item, fields, before, last, paired, signature, elaborated, value,
    fieldsTyped, argument,
    eval_matchBody value guards declared.arms.distinct listed⟩

theorem FunctionDeclared.flat
    (declared : FunctionDeclared declaration middle after frame branches) :
    ∀ formal ∈ frame.formals, formal.type.isTable = false := by
  intro formal member
  simpa [functionRules] using declared.formals.admitted formal member

end Fine.RuntimeDetail
