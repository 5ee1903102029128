import Fine.Runtime.Coverage
import Fine.Runtime.Induction
import Fine.Runtime.Inhabited
import Fine.Runtime.Synthesis
import Fine.Runtime.Total
import Fine.Runtime.Values

/-!
# What a synthesis is started with

A specification is about parameters and result, that of an arm about the other parameters, the
fields and the result; these are different constants.
-/

namespace Fine.RuntimeDetail

open Fine.Syntax Fine.Semantics Fine.Fallible List

variable {runtime later : Runtime}

/-! ## Constants and specifications -/

theorem Term.substitute_plain {replacements : List (Const × Term)}
    (each : ∀ symbol term, replacements.lookup symbol = some term → term.quantifierFree = true)
    (term : Term) (plain : term.quantifierFree = true) :
    (term.substitute replacements).quantifierFree = true := by
  induction term with
  | constant symbol =>
    rw [Term.substitute]
    cases found : replacements.lookup symbol with
    | none => rfl
    | some other => exact each symbol other found
  | numeral value => rfl
  | app decl arguments ih =>
    rw [Term.quantifierFree, Term.quantifierFreeAll_iff] at plain
    rw [Term.substitute, Term.substituteAll_eq, Term.quantifierFree, Term.quantifierFreeAll_iff]
    intro argument member
    obtain ⟨original, inside, rfl⟩ := mem_map.mp member
    exact ih original inside (plain original inside)
  | quantified => cases plain

theorem Extends.intType_eq {first second : Runtime} (extends_ : Extends first second) :
    second.intType = first.intType := by
  obtain ⟨_, _, _, _, rfl⟩ := extends_
  rfl

/-- What a synthesis declaration gives. -/
structure SynthesisFrame.Of (frame : SynthesisFrame) (admits : RuntimeType → Bool)
    (runtime : Runtime) : Prop where
  formals : ∃ refusal, FormalsOf (synthesisRules frame.declaration.name admits refusal) runtime 0 []
    frame.declaration.parameters frame.formals
  result : frame.resultType.same runtime.intType = true
  /-- The specification has no quantifier. -/
  plain : frame.specification.quantifierFree = true
  /-- It is about the result and the parameters. -/
  about : ∀ symbol ∈ frame.specification.constants,
    symbol = synthesisResult frame.declaration ∨ symbol ∈ frame.formals.map Formal.term

variable {formals : List Formal} {admits : RuntimeType → Bool} {item : DatatypeCaseInfo}
  {formal : Formal}

variable {rules : ParameterRules} {seen : List Identifier} {declaration : SynthDecl}
  {intType type : RuntimeType} {entry : Identifier × Const} {field : Nat}
  {bindings : List MatchBinding} {types : List RuntimeType}

theorem FormalsOf.advances {index : Nat} {parameters : List Parameter}
    (of : FormalsOf rules runtime index seen parameters formals)
    (advances : Advances runtime later) : FormalsOf rules later index seen parameters formals :=
  ⟨of.names, of.types, fun formal member => advances.extends_.objects (of.listed formal member),
    of.admitted, of.terms, of.distinct, of.unseen⟩

theorem SynthesisFrame.Of.advances {frame : SynthesisFrame} (of : frame.Of admits runtime)
    (advances : Advances runtime later) : frame.Of admits later := by
  obtain ⟨⟨refusal, formals⟩, result, plain, about⟩ := of
  rw [← advances.extends_.intType_eq] at result
  exact ⟨⟨refusal, formals.advances advances⟩, result, plain, about⟩

/-- Conditions are about parameters and result. -/
theorem specify_ok {specification : Term} (valid : runtime.Valid)
    (of : FormalsOf rules runtime 0 [] declaration.parameters formals)
    (run : (specify declaration formals).run runtime = .ok (specification, later)) :
    Advances runtime later ∧ specification.quantifierFree = true ∧
      ∀ symbol ∈ specification.constants,
        symbol = synthesisResult declaration ∨ symbol ∈ formals.map Formal.term := by
  simp only [specify, run_get_bind] at run
  obtain ⟨terms, _, ran, run⟩ := run_bind_ok run
  cases run
  obtain ⟨address, int⟩ := valid.types.int_eq
  have scope : Environment.Valid (Map.emplace (environmentOf formals) resultName
      ⟨runtime.intType, .constant (synthesisResult declaration)⟩) runtime :=
    of.valid.emplace valid.types.int_mem (by rw [int]; rfl)
  obtain ⟨advances, all⟩ := elaborateConditions_ok (fun _ => fails_reject _ _) valid scope ran
  -- An entry of the environment is a parameter or the result.
  have entries : ∀ name found, List.lookup name (Map.emplace (environmentOf formals) resultName
      ⟨runtime.intType, .constant (synthesisResult declaration)⟩) = some found →
      found.expression = .constant (synthesisResult declaration) ∨
        ∃ formal ∈ formals, found.expression = .constant formal.term := by
    intro name found lookup
    rcases Map.emplace_cases lookup with old | ⟨-, rfl⟩
    · obtain ⟨formal, inside, entry⟩ := mem_map.mp (Map.mem_of_lookup old)
      cases entry
      exact .inr ⟨formal, inside, rfl⟩
    · exact .inl rfl
  refine ⟨advances, Term.conditions_plain fun term member => ?_, fun symbol member => ?_⟩
  · obtain ⟨condition, -, here⟩ := exists_of_forall₂_right all member
    refine here.plain fun name found lookup => ?_
    rcases entries name found lookup with same | ⟨formal, -, same⟩ <;> rw [same] <;> rfl
  · rw [Term.conditions_constants] at member
    obtain ⟨term, inside, member⟩ := mem_flatMap.mp member
    obtain ⟨condition, -, here⟩ := exists_of_forall₂_right all inside
    obtain ⟨name, found, lookup, known⟩ := here.constants symbol member
    rcases entries name found lookup with same | ⟨formal, inside, same⟩
    · rw [same] at known
      exact .inl (mem_singleton.mp known)
    · rw [same] at known
      rw [mem_singleton.mp known]
      exact .inr (mem_map_of_mem inside)

/-- Reading a declaration without a match. -/
theorem openSynthesis_ok {frame : SynthesisFrame} (valid : runtime.Valid)
    (run : (openSynthesis declaration).run runtime = .ok (frame, later)) :
    Advances runtime later ∧ frame.Of (fun type => type.same later.intType) later := by
  unfold openSynthesis at run
  obtain ⟨_, start, reserved, run⟩ := run_bind_ok run
  obtain ⟨first, -, -⟩ := reserveValueName_ok valid reserved
  obtain ⟨resultType, between, resolved, run⟩ := run_bind_ok run
  obtain ⟨second, -, -⟩ := resolveType_advances first.valid resolved
  simp only [run_get_bind] at run
  split at run
  · cases run
  rename_i same
  split at run
  · cases run
  obtain ⟨formals, middle, ran, run⟩ := run_bind_ok run
  obtain ⟨third, of⟩ := declareParameters_ok second.valid ran
  obtain ⟨specification, last, ran, run⟩ := run_bind_ok run
  obtain ⟨fourth, plain, about⟩ := specify_ok third.valid of ran
  cases run
  have kept : later.intType = between.intType := (third.trans fourth).extends_.intType_eq
  refine ⟨((first.trans second).trans third).trans fourth,
    ⟨"the first synthesis slice admits only Int parameters", ?_⟩, ?_, plain, about⟩
  · rw [kept]
    exact of.advances fourth
  · rw [kept]
    simpa using same

theorem synthesisMatched_ok {span : SourceSpan} {name : Identifier}
    {result : Formal × Nat × DatatypeInfo}
    (run : (synthesisMatched span name formals).run runtime = .ok (result, later)) :
    runtime = later ∧ result.1.name = name ∧ formals[result.2.1]? = some result.1 ∧
      ∃ address declared, result.1.type = .datatype address declared ∧
        runtime.datatypes.lookup declared = some result.2.2 := by
  unfold synthesisMatched at run
  split at run
  · cases run
  rename_i matched position found
  split at run
  · rename_i address declared type
    simp only [run_get_bind] at run
    split at run
    · rename_i datatype known
      cases run
      have member : (matched, position) ∈ formals.zipIdx := mem_of_find?_eq_some found
      refine ⟨rfl, by simpa using find?_some found, mem_zipIdx_iff_getElem?.mp member,
        address, declared, type, known⟩
    · cases run
  · cases run

/-- What a declaration with a match gives. -/
structure MatchFrame.Of (frame : MatchFrame) (runtime : Runtime) : Prop where
  base : frame.toSynthesisFrame.Of (fun type => !type.isTable) runtime
  name : frame.matched.name = frame.scrutinee
  place : frame.formals[frame.position]? = some frame.matched
  datatype : ∃ address declared, frame.matched.type = .datatype address declared ∧
    runtime.datatypes.lookup declared = some frame.datatype

theorem MatchFrame.Of.advances {frame : MatchFrame} (of : frame.Of runtime)
    (advances : Advances runtime later) : frame.Of later := by
  obtain ⟨address, declared, type, known⟩ := of.datatype
  refine ⟨of.base.advances advances, of.name, of.place, address, declared, type, ?_⟩
  obtain ⟨_, _, _, _, rfl⟩ := advances.extends_
  exact known

/-- Reading a declaration with a match. -/
theorem openMatch_ok {frame : MatchFrame} (valid : runtime.Valid)
    (run : (openMatch declaration).run runtime = .ok (frame, later)) :
    Advances runtime later ∧ frame.Of later := by
  unfold openMatch at run
  obtain ⟨_, start, reserved, run⟩ := run_bind_ok run
  obtain ⟨first, -, -⟩ := reserveValueName_ok valid reserved
  obtain ⟨resultType, between, resolved, run⟩ := run_bind_ok run
  obtain ⟨second, -, -⟩ := resolveType_advances first.valid resolved
  simp only [run_get_bind] at run
  split at run
  · cases run
  rename_i same
  split at run
  · rename_i info scrutinee _
    obtain ⟨formals, middle, ran, run⟩ := run_bind_ok run
    obtain ⟨third, of⟩ := declareParameters_ok second.valid ran
    obtain ⟨⟨matched, position, datatype⟩, _, found, run⟩ := run_bind_ok run
    obtain ⟨rfl, name, place, known⟩ := synthesisMatched_ok found
    obtain ⟨specification, last, ran, run⟩ := run_bind_ok run
    obtain ⟨fourth, plain, about⟩ := specify_ok third.valid of ran
    cases run
    have kept : middle.intType = between.intType := third.extends_.intType_eq
    have base : SynthesisFrame.Of ⟨declaration, resultType, formals, specification⟩
        (fun type => !type.isTable) middle := by
      refine ⟨⟨"synthesis parameters cannot have Table type", of⟩, ?_, plain, about⟩
      rw [kept]
      simpa using same
    have frame : MatchFrame.Of ⟨⟨declaration, resultType, formals, specification⟩, scrutinee,
        matched, position, datatype⟩ middle := ⟨base, name, place, known⟩
    exact ⟨((first.trans second).trans third).trans fourth, frame.advances fourth⟩
  · cases run

/-! ## Arms -/

/-- The integers among parameters, under their names. -/
def integersOf (intType : RuntimeType) (formals : List Formal) : List (Identifier × Const) :=
  (formals.filter fun formal => formal.type.same intType).map fun formal =>
    (formal.name, formal.term)

theorem mem_integersOf :
    entry ∈ integersOf intType formals ↔
      ∃ formal ∈ formals, formal.type.same intType = true ∧ (formal.name, formal.term) = entry := by
  simp [integersOf, and_assoc]

/-- The fields that a pattern names, as parameters. -/
def MatchFrame.boundFields (frame : MatchFrame) (item : DatatypeCaseInfo) :
    Nat → List MatchBinding → List RuntimeType → List Formal
  | field, binding :: bindings, type :: types =>
    if binding.name.text = "_" then frame.boundFields item (field + 1) bindings types
    else ⟨binding.name, type, frame.armField item field type⟩ ::
      frame.boundFields item (field + 1) bindings types
  | _, _, _ => []

/-- The fields whose binding is a name. -/
theorem MatchFrame.mem_boundFields {frame : MatchFrame} :
    formal ∈ frame.boundFields item field bindings types ↔
      ∃ place binding type, bindings[place]? = some binding ∧ types[place]? = some type ∧
        binding.name.text ≠ "_" ∧
          formal = ⟨binding.name, type, frame.armField item (field + place) type⟩ := by
  induction bindings generalizing field types with
  | nil => simp [boundFields]
  | cons binding bindings ih =>
    cases types with
    | nil => simp [boundFields]
    | cons type types =>
      have later : formal ∈ frame.boundFields item (field + 1) bindings types ↔
          ∃ place other found, (binding :: bindings)[place + 1]? = some other ∧
            (type :: types)[place + 1]? = some found ∧ other.name.text ≠ "_" ∧
              formal = ⟨other.name, found, frame.armField item (field + (place + 1)) found⟩ := by
        simp only [ih, List.getElem?_cons_succ, Nat.add_comm 1, Nat.add_assoc]
      rw [boundFields]
      split
      · rename_i blank
        rw [later]
        constructor
        · rintro ⟨place, rest⟩
          exact ⟨place + 1, rest⟩
        · rintro ⟨place, other, found, here, rest⟩
          cases place with
          | zero =>
            cases here
            exact absurd blank rest.2.1
          | succ place => exact ⟨place, other, found, here, rest⟩
      · rename_i solid
        rw [mem_cons, later]
        constructor
        · rintro (rfl | ⟨place, rest⟩)
          · exact ⟨0, binding, type, rfl, rfl, solid, rfl⟩
          · exact ⟨place + 1, rest⟩
        · rintro ⟨place, other, found, here, there, rest⟩
          cases place with
          | zero =>
            cases here
            cases there
            exact .inl rest.2
          | succ place => exact .inr ⟨place, other, found, here, there, rest⟩

theorem environmentOf_lookup_cons (formal : Formal) (formals : List Formal) (name : Identifier) :
    (environmentOf (formal :: formals)).lookup name =
      if name = formal.name then some ⟨formal.type, .constant formal.term⟩
      else (environmentOf formals).lookup name := by
  rw [environmentOf, map_cons, Formal.entry, lookup_cons]
  by_cases here : name = formal.name
  · simp [here]
  · rw [if_neg here, beq_eq_false_iff_ne.mpr here]
    rfl

/-- What binding the fields of an arm gives. -/
structure FieldsBound (intType : RuntimeType) (fields : List Formal) (before after : Environment)
    (named result : List (Identifier × Const)) : Prop where
  lookup : ∀ name, after.lookup name =
    (before.lookup name).or ((environmentOf fields).lookup name)
  named : result = named ++ integersOf intType fields
  /-- No name is taken, and none is bound twice. -/
  fresh : ∀ formal ∈ fields, before.lookup formal.name = none
  distinct : (fields.map Formal.name).Nodup

/-- Names are bound to the fields' constants. -/
theorem MatchFrame.bindFields_ok {frame : MatchFrame} {environment : Environment}
    {named : List (Identifier × Const)} {result : Environment × List (Identifier × Const)}
    (run : (frame.bindFields item intType field bindings types environment named).run runtime =
      .ok (result, later)) :
    runtime = later ∧ FieldsBound intType (frame.boundFields item field bindings types)
      environment result.1 named result.2 := by
  induction bindings generalizing field types environment named with
  | nil =>
    rw [bindFields] at run
    · cases run
      exact ⟨rfl, by simp [boundFields, environmentOf], by simp [boundFields, integersOf],
        by simp [boundFields], by simp [boundFields]⟩
    · simp
  | cons binding bindings ih =>
    cases types with
    | nil =>
      rw [bindFields] at run
      · cases run
        exact ⟨rfl, by simp [boundFields, environmentOf], by simp [boundFields, integersOf],
          by simp [boundFields], by simp [boundFields]⟩
      · simp
    | cons type types =>
      rw [bindFields] at run
      split at run
      · rename_i blank
        have bound := ih run
        rwa [boundFields, if_pos blank]
      rename_i solid
      split at run
      · cases run
      rename_i free
      have absent := Map.lookup_of_not_contains free
      obtain ⟨same, bound⟩ := ih run
      rw [boundFields, if_neg solid]
      have other : ∀ formal ∈ frame.boundFields item (field + 1) bindings types,
          environment.lookup formal.name = none ∧ formal.name ≠ binding.name := by
        intro formal member
        have none := bound.fresh formal member
        rw [Map.lookup_emplace, Option.or_eq_none_iff] at none
        refine ⟨none.1, fun is => ?_⟩
        rw [if_pos is] at none
        cases none.2
      refine ⟨same, fun name => ?_, ?_, ?_, ?_⟩
      · rw [bound.lookup, Map.lookup_emplace, Option.or_assoc, environmentOf_lookup_cons]
        by_cases here : name = binding.name
        · simp [here]
        · rw [if_neg here, if_neg here, Option.none_or]
      · rw [bound.named]
        split
        · rename_i isInt
          simp [integersOf, isInt]
        · rename_i notInt
          simp [integersOf, notInt]
      · intro formal member
        rcases mem_cons.mp member with rfl | member
        · exact absent
        · exact (other formal member).1
      · rw [map_cons, nodup_cons]
        refine ⟨fun member => ?_, bound.distinct⟩
        obtain ⟨formal, inside, is⟩ := mem_map.mp member
        exact (other formal inside).2 is

/-- What reading an arm gives. -/
structure ArmFrame.Of (armFrame : ArmFrame) (frame : MatchFrame) (arm : MatchArm)
    (runtime : Runtime) : Prop where
  same : armFrame.arm = arm
  item : armFrame.item ∈ frame.datatype.cases
  arity : arm.bindings.length = armFrame.item.fieldTypes.length
  /-- What was bound, before the matched name is given the constructed value. -/
  bound : ∃ environment, FieldsBound runtime.intType
      (frame.boundFields armFrame.item 0 arm.bindings armFrame.item.fieldTypes)
      (environmentOf frame.formals) environment (frame.integers runtime.intType) armFrame.named ∧
    armFrame.environment =
      (frame.scrutinee, ⟨frame.matched.type, frame.constructed armFrame.item⟩) :: environment

theorem MatchFrame.armFrame_ok {frame : MatchFrame} {arm : MatchArm} {armFrame : ArmFrame}
    (run : (frame.armFrame seen arm).run runtime = .ok (armFrame, later)) :
    armFrame.Of frame arm runtime := by
  unfold MatchFrame.armFrame at run
  split at run
  · cases run
  rename_i item found
  split at run
  · cases run
  split at run
  · cases run
  rename_i arity
  simp only [run_get_bind] at run
  obtain ⟨⟨environment, named⟩, _, ran, run⟩ := run_bind_ok run
  obtain ⟨rfl, bound⟩ := bindFields_ok ran
  cases run
  exact ⟨rfl, mem_of_find?_eq_some found, by simpa using arity, environment, bound, rfl⟩

/-! ## Syntheses -/

/-- The syntheses that declarations start, in their states. -/
inductive Launches : Runtime → Launch → Prop where
  | body {start runtime : Runtime} {declaration : SynthDecl} {frame : SynthesisFrame}
      (reached : Reached start)
      (read : (openSynthesis declaration).run start = .ok (frame, runtime)) :
      Launches runtime frame.launch
  /-- Of an arm that is a hole, when the arms in front of it are closed. -/
  | arm {start middle runtime : Runtime} {declaration : SynthDecl} {frame : MatchFrame}
      {seen : List Identifier} {arm : MatchArm} {armFrame : ArmFrame} {info : NodeInfo}
      {hole : Identifier} (reached : Reached start)
      (read : (openMatch declaration).run start = .ok (frame, middle))
      (advances : Advances middle runtime) (member : arm ∈ declaration.arms)
      (pattern : (frame.armFrame seen arm).run runtime = .ok (armFrame, runtime))
      (value : arm.value = .hole info hole) :
      Launches runtime (frame.armLaunch armFrame info hole)

/-- What every synthesis is started with. -/
structure Launch.Of (launch : Launch) (runtime : Runtime) : Prop where
  valid : launch.synthesizer.Valid
  /-- Every parameter is of a known type. -/
  listed : ∀ parameter ∈ launch.synthesizer.parameters,
    ∃ type ∈ runtime.objects, parameter.sort = type.sort
  /-- Every named input is an integer in scope. -/
  inputs : ∀ entry ∈ launch.inputs, entry.2.sort = .int ∧
    launch.environment.lookup entry.1 = some ⟨runtime.intType, .constant entry.2⟩
  result : launch.resultType.same runtime.intType = true

theorem Runtime.Valid.eq_intType (valid : runtime.Valid) (listed : type ∈ runtime.objects)
    (same : type.same runtime.intType = true) : type = runtime.intType :=
  valid.types.unique listed valid.types.int_mem
    ((valid.types.same_iff listed valid.types.int_mem).mp same)

theorem Runtime.Valid.intType_sort (valid : runtime.Valid) : runtime.intType.sort = .int := by
  obtain ⟨address, int⟩ := valid.types.int_eq
  rw [int]
  rfl

section

variable {frame : SynthesisFrame} (of : frame.Of admits runtime)

include of

theorem SynthesisFrame.Of.apart :
    synthesisResult frame.declaration ∉ frame.formals.map Formal.term := by
  intro member
  obtain ⟨formal, inside, same⟩ := mem_map.mp member
  obtain ⟨refusal, formals⟩ := of.formals
  obtain ⟨place, at_⟩ := mem_iff_getElem?.mp inside
  rw [formals.terms place formal at_] at same
  have texts := congrArg (fun symbol : Const => symbol.name.toList) same
  simp [synthesisRules, synthesisResult, String.toList_append] at texts

theorem SynthesisFrame.Of.distinct :
    (frame.formals.map Formal.term).Nodup := by
  obtain ⟨refusal, formals⟩ := of.formals
  exact formals.terms_nodup (numbered_injective _)

theorem SynthesisFrame.Of.lookup (member : formal ∈ frame.formals) :
    (environmentOf frame.formals).lookup formal.name =
      some ⟨formal.type, .constant formal.term⟩ := by
  obtain ⟨refusal, formals⟩ := of.formals
  have keys : (environmentOf frame.formals).map Prod.fst = frame.formals.map Formal.name := by
    rw [environmentOf, map_map]
    rfl
  exact Map.lookup_of_mem (keys ▸ formals.distinct) (mem_map_of_mem member)

theorem SynthesisFrame.Of.integer (valid : runtime.Valid)
    (member : formal ∈ frame.formals) (same : formal.type.same runtime.intType = true) :
    formal.type = runtime.intType ∧ formal.term.sort = .int := by
  obtain ⟨refusal, formals⟩ := of.formals
  have type := valid.eq_intType (formals.listed formal member) same
  refine ⟨type, ?_⟩
  rw [formals.term_sort member, type, valid.intType_sort]

end

theorem SynthesisFrame.Of.launch {frame : SynthesisFrame} (valid : runtime.Valid)
    (of : frame.Of (fun type => type.same runtime.intType) runtime) : frame.launch.Of runtime := by
  obtain ⟨refusal, formals⟩ := of.formals
  refine ⟨⟨of.plain, of.about, of.distinct, of.apart, fun _ => id⟩, ?_, ?_, of.result⟩
  · intro parameter member
    obtain ⟨formal, inside, rfl⟩ := mem_map.mp member
    exact ⟨formal.type, formals.listed formal inside, formals.term_sort inside⟩
  · intro entry member
    obtain ⟨formal, inside, rfl⟩ := mem_map.mp member
    obtain ⟨type, sort⟩ := of.integer valid inside (formals.admitted formal inside)
    refine ⟨sort, ?_⟩
    rw [SynthesisFrame.launch, of.lookup inside, type]

namespace MatchFrame.Of

variable {frame : MatchFrame}

theorem mem_others : formal ∈ frame.others ↔
    ∃ place, place ≠ frame.position ∧ frame.formals[place]? = some formal := by
  simp only [others, mem_map, mem_filter, Prod.exists, exists_and_right, exists_eq_right,
    mem_zipIdx_iff_getElem?, bne_iff_ne]
  exact ⟨fun ⟨place, at_, other⟩ => ⟨place, other, at_⟩, fun ⟨place, other, at_⟩ =>
    ⟨place, at_, other⟩⟩

theorem others_subset (member : formal ∈ frame.others) : formal ∈ frame.formals := by
  obtain ⟨place, -, at_⟩ := mem_others.mp member
  exact mem_of_getElem? at_

theorem others_name (of : frame.Of runtime) (member : formal ∈ frame.others) :
    formal.name ≠ frame.scrutinee := by
  obtain ⟨place, other, at_⟩ := mem_others.mp member
  obtain ⟨refusal, formals⟩ := of.base.formals
  intro same
  rw [← of.name] at same
  have first : (frame.formals.map Formal.name)[place]? = some formal.name := by
    rw [List.getElem?_map, at_, Option.map_some]
  have second : (frame.formals.map Formal.name)[frame.position]? = some formal.name := by
    rw [List.getElem?_map, of.place, Option.map_some, same]
  have inside := (List.getElem?_eq_some_iff.mp first).1
  exact other ((List.getElem?_inj inside formals.distinct).mp (first.trans second.symm))

theorem formals_cases (of : frame.Of runtime) (member : formal ∈ frame.formals) :
    formal = frame.matched ∨ formal ∈ frame.others := by
  obtain ⟨place, at_⟩ := mem_iff_getElem?.mp member
  by_cases here : place = frame.position
  · rw [here, of.place] at at_
    exact .inl (Option.some.inj at_).symm
  · exact .inr (mem_others.mpr ⟨place, here, at_⟩)

theorem fieldTypes_listed (of : frame.Of runtime) (formed : runtime.WellFormed)
    (member : item ∈ frame.datatype.cases) (field : type ∈ item.fieldTypes) :
    type ∈ runtime.objects := by
  obtain ⟨address, declared, -, known⟩ := of.datatype
  obtain ⟨-, -, each⟩ := formed.tables.constructors declared frame.datatype known
  obtain ⟨-, -, -, -, types⟩ := formed.names.constructors _ _ _ (each item member)
  exact types type field

variable {symbol : Const}

theorem mem_fields : symbol ∈ frame.fields item ↔
    ∃ place type, item.fieldTypes[place]? = some type ∧
      symbol = frame.armField item place type := by
  simp only [fields, mem_map, Prod.exists, mem_zipIdx_iff_getElem?]
  exact ⟨fun ⟨type, place, at_, same⟩ => ⟨place, type, at_, same.symm⟩,
    fun ⟨place, type, at_, same⟩ => ⟨type, place, at_, same.symm⟩⟩

theorem fields_nodup (item : DatatypeCaseInfo) : (frame.fields item).Nodup := by
  have distinct : (item.fieldTypes.zipIdx.map Prod.snd).Nodup := by
    rw [zipIdx_map_snd]
    exact nodup_range'
  refine (nodup_map_iff_inj_on distinct.of_map).mpr ?_
  rintro ⟨type, place⟩ first ⟨other, second⟩ last same
  have texts := congrArg Const.name same
  simp only [armField] at texts
  have places : place = second := Scan.toString_injective (by simpa using texts)
  subst places
  rw [mem_zipIdx_iff_getElem?] at first last
  rw [Prod.mk.injEq]
  exact ⟨Option.some.inj (first.symm.trans last), rfl⟩

theorem fields_apart (of : frame.Of runtime) (member : symbol ∈ frame.fields item) :
    symbol ∉ frame.formals.map Formal.term ∧
      symbol ≠ synthesisResult frame.declaration := by
  obtain ⟨place, type, -, rfl⟩ := mem_fields.mp member
  constructor
  · intro inside
    obtain ⟨formal, inside, same⟩ := mem_map.mp inside
    obtain ⟨refusal, formals⟩ := of.base.formals
    obtain ⟨position, at_⟩ := mem_iff_getElem?.mp inside
    rw [formals.terms position formal at_] at same
    have texts := congrArg (fun symbol : Const => symbol.name.toList) same
    simp [synthesisRules, armField, String.toList_append] at texts
  · intro same
    have texts := congrArg (fun symbol : Const => symbol.name.toList) same
    simp [synthesisResult, armField, String.toList_append] at texts

theorem armParameters_nodup (of : frame.Of runtime) (item : DatatypeCaseInfo) :
    (frame.others.map Formal.term ++ frame.fields item).Nodup := by
  have front : (frame.others.map Formal.term).Nodup := by
    refine of.base.distinct.sublist (List.Sublist.map _ ?_)
    have kept := List.Sublist.map Prod.fst (filter_sublist (l := frame.formals.zipIdx)
        (p := fun entry => entry.2 != frame.position))
    rwa [zipIdx_map_fst] at kept
  refine front.append (fields_nodup item) fun symbol inside member => ?_
  obtain ⟨formal, other, rfl⟩ := mem_map.mp inside
  exact (of.fields_apart member).1 (mem_map_of_mem (others_subset other))

theorem armSpecification_about (of : frame.Of runtime) (item : DatatypeCaseInfo) :
    ∀ symbol ∈ (frame.armSpecification item).constants,
      symbol = synthesisResult frame.declaration ∨
        symbol ∈ frame.others.map Formal.term ++ frame.fields item := by
  intro symbol member
  obtain ⟨other, inside, found⟩ := Term.mem_constants_substitute _ _ of.base.plain member
  by_cases matched : other = frame.matched.term
  · rw [matched, lookup_cons, beq_self_eq_true, Option.getD_some, constructed,
      Term.constants, Term.constantsAll_eq, flatMap_map] at found
    obtain ⟨field, known, same⟩ := mem_flatMap.mp found
    rw [mem_singleton.mp same]
    exact .inr (mem_append_right _ known)
  · rw [lookup_cons, beq_eq_false_iff_ne.mpr matched, lookup_nil, Option.getD_none] at found
    rw [mem_singleton.mp found]
    rcases of.base.about other inside with result | parameter
    · exact .inl result
    · obtain ⟨formal, member, rfl⟩ := mem_map.mp parameter
      rcases of.formals_cases member with rfl | rest
      · exact absurd rfl matched
      · exact .inr (mem_append_left _ (mem_map_of_mem rest))

theorem constructed_plain (frame : MatchFrame) (item : DatatypeCaseInfo) :
    (frame.constructed item).quantifierFree = true := by
  rw [constructed, Term.quantifierFree, Term.quantifierFreeAll_iff]
  intro argument member
  obtain ⟨field, -, rfl⟩ := mem_map.mp member
  rfl

theorem armSpecification_plain (of : frame.Of runtime) (item : DatatypeCaseInfo) :
    (frame.armSpecification item).quantifierFree = true := by
  refine Term.substitute_plain ?_ _ of.base.plain
  intro symbol term found
  obtain ⟨-, rfl⟩ := Prod.mk.inj (mem_singleton.mp (Map.mem_of_lookup found))
  exact constructed_plain frame item

end MatchFrame.Of

namespace ArmFrame.Of

variable {frame : MatchFrame} {arm : MatchArm} {armFrame : ArmFrame}

/-- The fields that the pattern of an arm names. -/
def fields (frame : MatchFrame) (armFrame : ArmFrame) : List Formal :=
  frame.boundFields armFrame.item 0 armFrame.arm.bindings armFrame.item.fieldTypes

theorem named_eq (of : armFrame.Of frame arm runtime) :
    armFrame.named = integersOf runtime.intType (frame.others ++ fields frame armFrame) := by
  obtain ⟨environment, bound, -⟩ := of.bound
  rw [bound.named, fields, of.same, integersOf, integersOf, filter_append, map_append]
  rfl

theorem mem_fields (member : formal ∈ fields frame armFrame) :
    formal.term ∈ frame.fields armFrame.item ∧
      formal.type ∈ armFrame.item.fieldTypes ∧ formal.term.sort = formal.type.sort := by
  obtain ⟨place, binding, type, -, at_, -, rfl⟩ := MatchFrame.mem_boundFields.mp member
  refine ⟨MatchFrame.Of.mem_fields.mpr ⟨place, type, at_, ?_⟩, mem_of_getElem? at_, rfl⟩
  rw [Nat.zero_add]

variable (of : armFrame.Of frame arm runtime) (read : frame.Of runtime) (formed : runtime.WellFormed)

include of read formed

/-- A named input is an integer in scope, and a parameter. -/
theorem mem_named (member : entry ∈ armFrame.named) :
    entry.2.sort = .int ∧
      armFrame.environment.lookup entry.1 = some ⟨runtime.intType, .constant entry.2⟩ ∧
      entry.2 ∈ frame.others.map Formal.term ++ frame.fields armFrame.item := by
  rw [of.named_eq] at member
  obtain ⟨formal, inside, isInt, rfl⟩ := mem_integersOf.mp member
  obtain ⟨environment, bound, scope⟩ := of.bound
  have matched : (environmentOf frame.formals).lookup frame.scrutinee =
      some ⟨frame.matched.type, .constant frame.matched.term⟩ := by
    rw [← read.name]
    exact read.base.lookup (mem_of_getElem? read.place)
  rcases mem_append.mp inside with other | field
  · have parameter := MatchFrame.Of.others_subset other
    obtain ⟨type, sort⟩ := read.base.integer formed.toValid parameter isInt
    refine ⟨sort, ?_, mem_append_left _ (mem_map_of_mem other)⟩
    rw [scope, lookup_cons, beq_eq_false_iff_ne.mpr (read.others_name other), bound.lookup,
      read.base.lookup parameter, Option.some_or, type]
  · obtain ⟨constant, listed, sort⟩ := mem_fields field
    have type := formed.toValid.eq_intType (read.fieldTypes_listed formed of.item listed) isInt
    rw [type, formed.toValid.intType_sort] at sort
    refine ⟨sort, ?_, mem_append_right _ constant⟩
    rw [fields, of.same] at field
    have fresh := bound.fresh formal field
    have other : formal.name ≠ frame.scrutinee := by
      intro same
      rw [same, matched] at fresh
      cases fresh
    have keys : ∀ formals : List Formal,
        (environmentOf formals).map Prod.fst = formals.map Formal.name := by
      intro formals
      rw [environmentOf, map_map]
      rfl
    have here := Map.lookup_of_mem (keys _ ▸ bound.distinct)
      (mem_map_of_mem (f := Formal.entry) field)
    rw [scope, lookup_cons, beq_eq_false_iff_ne.mpr other, bound.lookup, fresh, Option.none_or,
      ← type]
    exact here

/-- The synthesis of an arm is in order. -/
theorem armLaunch (info : NodeInfo) (hole : Identifier) :
    (frame.armLaunch armFrame info hole).Of runtime := by
  refine ⟨⟨read.armSpecification_plain _, read.armSpecification_about _,
    read.armParameters_nodup _, ?_, ?_⟩, ?_, ?_, read.base.result⟩
  · intro member
    rcases mem_append.mp member with other | field
    · obtain ⟨formal, inside, same⟩ := mem_map.mp other
      have parameter := mem_map_of_mem (f := Formal.term) (MatchFrame.Of.others_subset inside)
      rw [same] at parameter
      exact read.base.apart parameter
    · exact (read.fields_apart field).2 rfl
  · intro symbol member
    change symbol ∈ if armFrame.grammarInputs.isEmpty then _ else armFrame.grammarInputs at member
    split at member
    · exact member
    · obtain ⟨entry, inside, rfl⟩ := mem_map.mp member
      exact (of.mem_named read formed inside).2.2
  · intro parameter member
    rcases mem_append.mp member with other | field
    · obtain ⟨formal, inside, rfl⟩ := mem_map.mp other
      obtain ⟨refusal, formals⟩ := read.base.formals
      have known := MatchFrame.Of.others_subset inside
      exact ⟨formal.type, formals.listed formal known, formals.term_sort known⟩
    · obtain ⟨place, type, at_, rfl⟩ := MatchFrame.Of.mem_fields.mp field
      exact ⟨type, read.fieldTypes_listed formed of.item (mem_of_getElem? at_), rfl⟩
  · intro entry member
    obtain ⟨sort, lookup, -⟩ := of.mem_named read formed member
    exact ⟨sort, lookup⟩

end ArmFrame.Of

theorem Reached.advances (reached : Reached runtime) (advances : Advances runtime later) :
    Reached later := Reached.proved reached advances

namespace Launches

variable {launch : Launch}

theorem reached (launches : Launches runtime launch) : Reached runtime := by
  cases launches with
  | body reached read =>
    exact reached.advances (openSynthesis_ok reached.inOrder.formed.toValid read).1
  | arm reached read advances =>
    have opened := (openMatch_ok reached.inOrder.formed.toValid read).1
    exact reached.advances (opened.trans advances)

theorem of (launches : Launches runtime launch) : launch.Of runtime := by
  have formed := launches.reached.inOrder.formed
  cases launches with
  | body reached read =>
    have frame := (openSynthesis_ok reached.inOrder.formed.toValid read).2
    exact frame.launch formed.toValid
  | arm reached read advances _ pattern =>
    have frame := (openMatch_ok reached.inOrder.formed.toValid read).2
    exact (MatchFrame.armFrame_ok pattern).armLaunch (frame.advances advances) formed _ _

theorem inhabited (launches : Launches runtime launch) {interp : Interp}
    (free : runtime.Free interp) : launch.synthesizer.Inhabited interp := by
  intro parameter member
  obtain ⟨type, listed, sort⟩ := launches.of.listed parameter member
  rw [sort]
  exact launches.reached.element free listed

end Launches

end Fine.RuntimeDetail
