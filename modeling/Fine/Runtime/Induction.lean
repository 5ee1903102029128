import Fine.Runtime.Check
import Fine.Runtime.Inhabited

/-!
# Induction on a datatype is exact

A falsified branch falsifies the theorem at the same parameters. Conversely a valid step makes the
theorem true of every value, by induction on values.
-/

namespace Fine.RuntimeDetail

open Fine.Syntax Fine.Semantics Fine.Fallible List

variable {runtime later : Runtime} {interp : Interp}

/-- The frame of an induction, as it is found. -/
structure FrameOf (runtime : Runtime) (named : Identifier) (listed : List Formal) (claimed : Term)
    (frame : InductionFrame) : Prop where
  name : frame.name = named
  formals : frame.formals = listed
  theorem_ : frame.theorem_ = claimed
  place : frame.formals[frame.position]? = some frame.found
  datatype : ∃ address, frame.found.type = .datatype address frame.datatype.name ∧
    runtime.datatypes.lookup frame.datatype.name = some frame.datatype

/-- What a check is translated to. -/
structure CheckTranslated (declaration : CheckDecl) (runtime later : Runtime)
    (translation : CheckTranslation) : Prop where
  advances : Advances runtime later
  formals : ∃ start, FormalsOf (checkRules start declaration.name) later 0 []
    declaration.parameters translation.formals
  assumptions : Forall₂ (fun condition term => Translates runtime.signature
    (environmentOf translation.formals) condition .bool term) declaration.assumes
    translation.assumptions
  guarantees : Forall₂ (fun condition term => Translates runtime.signature
    (environmentOf translation.formals) condition .bool term) declaration.ensures
    translation.guarantees
  induction_ : ∀ parameter, declaration.inductionParameter = some parameter →
    ∃ frame, translation.induction_ = some frame ∧
      FrameOf later declaration.name translation.formals translation.theorem_ frame

variable {formals : List Formal} {values : List Value} {type : RuntimeType}

variable {name parameter : Identifier} {rules : ParameterRules} {index field : Nat}
  {seen : List Identifier} {formal : Formal} {shapes : Shapes} {value : Value} {constant : Const}
  {terms : List Term}

theorem inductionFrame_ok (formed : runtime.WellFormed) {span : SourceSpan} {theorem_ : Term}
    {frame : InductionFrame}
    (run : (inductionFrame name parameter span formals theorem_).run runtime = .ok (frame, later)) :
    runtime = later ∧ FrameOf runtime name formals theorem_ frame := by
  simp only [inductionFrame, run_get_bind] at run
  split at run
  · cases run
  rename_i found position is
  split at run
  · rename_i address declared type
    split at run
    · cases run
    rename_i datatype known
    split at run
    · cases run
    cases run
    have member : (found, position) ∈ formals.zipIdx := mem_of_find?_eq_some is
    obtain ⟨named, -, -⟩ := formed.tables.constructors declared datatype known
    exact ⟨rfl, rfl, rfl, rfl, mem_zipIdx_iff_getElem?.mp member, address, by rw [named, type],
      by rw [named, known]⟩
  · cases run

/-- A check is translated. -/
theorem translateCheck_ok (formed : runtime.WellFormed) {declaration : CheckDecl}
    {translation : CheckTranslation}
    (run : (translateCheck declaration).run runtime = .ok (translation, later)) :
    CheckTranslated declaration runtime later translation := by
  unfold translateCheck at run
  obtain ⟨_, start, reserved, run⟩ := run_bind_ok run
  obtain ⟨first, -, -⟩ := reserveValueName_ok formed.toValid reserved
  split at run
  · cases run
  simp only [run_get_bind] at run
  obtain ⟨formals, between, ran, run⟩ := run_bind_ok run
  obtain ⟨second, of⟩ := declareParameters_ok first.valid ran
  obtain ⟨assumptions, middle, ran, run⟩ := run_bind_ok run
  obtain ⟨third, assumed⟩ := elaborateConditions_ok (fun _ => fails_reject _ _) second.valid
    of.valid ran
  obtain ⟨guarantees, last, ran, run⟩ := run_bind_ok run
  obtain ⟨fourth, ensured⟩ := elaborateConditions_ok (fun _ => fails_reject _ _) third.valid
    (of.valid.extends_ third.extends_) ran
  have before := first.trans second
  have advances := (before.trans third).trans fourth
  rw [before.extends_.signature_eq] at assumed
  rw [(before.trans third).extends_.signature_eq] at ensured
  have kept : FormalsOf (checkRules start declaration.name) last 0 [] declaration.parameters
      formals :=
    ⟨of.names, of.types, fun formal member => (third.trans fourth).extends_.objects
      (of.listed formal member), of.admitted, of.terms, of.distinct, of.unseen⟩
  split at run
  · rename_i none
    cases run
    exact ⟨advances, ⟨start, kept⟩, assumed, ensured, by simp [none]⟩
  · rename_i parameter some_
    obtain ⟨frame, _, ran, run⟩ := run_bind_ok run
    obtain ⟨rfl, of'⟩ := inductionFrame_ok (advances.wellFormed formed) ran
    cases run
    refine ⟨advances, ⟨start, kept⟩, assumed, ensured, fun other is => ?_⟩
    rw [some_] at is
    cases is
    exact ⟨frame, rfl, of'⟩

theorem FormalsOf.term_sort {parameters : List Parameter}
    (of : FormalsOf rules runtime index seen parameters formals) (member : formal ∈ formals) :
    formal.term.sort = formal.type.sort := by
  obtain ⟨place, at_⟩ := mem_iff_getElem?.mp member
  rw [of.terms place formal at_]

theorem caseField_injective {item : DatatypeCaseInfo} {left right : Nat} {one two : RuntimeType}
    (same : caseField name item left one = caseField name item right two) : left = right := by
  have texts : toString left = toString right := by
    simpa [caseField] using congrArg Const.name same
  exact Scan.toString_injective texts

theorem field_typed {types : List RuntimeType}
    (typed : Forall₂ (Inhabits shapes) values (types.map RuntimeType.meaning))
    (typeAt : types[field]? = some type) (valueAt : values[field]? = some value) :
    Inhabits shapes value type.meaning := by
  refine forall₂_zip typed (mem_iff_getElem?.mpr ⟨field, ?_⟩)
  rw [List.getElem?_zip_eq_some, List.getElem?_map, typeAt]
  exact ⟨valueAt, rfl⟩

namespace InductionFrame

variable {frame : InductionFrame} {start : Runtime} {parameters : List Parameter}
  {item : DatatypeCaseInfo} {assignment : Assignment}

theorem fields_nodup (frame : InductionFrame) (item : DatatypeCaseInfo) :
    (frame.fields item).Nodup := by
  rw [fields, nodup_iff_pairwise_ne, pairwise_map, pairwise_iff_getElem]
  intro first second inFirst inSecond below same
  rw [getElem_zipIdx, getElem_zipIdx] at same
  have places := caseField_injective same
  omega

theorem fields_getElem? (at_ : (frame.fields item)[field]? = some constant) :
    ∃ type, item.fieldTypes[field]? = some type ∧
      constant = caseField frame.name item field type := by
  simp only [fields, List.getElem?_map, List.getElem?_zipIdx, Option.map_eq_some_iff] at at_
  obtain ⟨_, ⟨type, typeAt, rfl⟩, rfl⟩ := at_
  exact ⟨type, typeAt, by simp⟩

theorem caseField_parameter
    (of : FormalsOf (checkRules start frame.name) runtime 0 [] parameters frame.formals)
    (item : DatatypeCaseInfo) (field : Nat) (type : RuntimeType) :
    caseField frame.name item field type ∉ frame.formals.map Formal.term := by
  intro member
  obtain ⟨formal, inside, same⟩ := mem_map.mp member
  obtain ⟨place, at_⟩ := mem_iff_getElem?.mp inside
  rw [of.terms place formal at_] at same
  have texts := congrArg (fun constant : Const => constant.name.toList) same
  simp [checkRules, caseField] at texts

theorem caseField_bound (frame : InductionFrame) (item : DatatypeCaseInfo) (field other : Nat)
    (type : RuntimeType) : caseField frame.name item field type ∉ frame.bound item other := by
  intro member
  obtain ⟨entry, -, same⟩ := mem_map.mp member
  have texts := congrArg (fun constant : Const => constant.name.toList) same
  simp [generalized, caseField] at texts

/-- A field or a generalized constant, of the same sort. -/
theorem replace_formal (interp : Interp) (assignment : Assignment)
    (of : FormalsOf (checkRules start frame.name) runtime 0 [] parameters frame.formals)
    (place : frame.formals[frame.position]? = some frame.found) (item : DatatypeCaseInfo)
    (field : Nat) (recursive : type.sort = frame.found.type.sort)
    (member : formal ∈ frame.formals) :
    ∃ constant, assignment.replace interp (frame.replacements item field type) formal.term =
        assignment constant ∧ constant.sort = formal.term.sort ∧
      (constant = caseField frame.name item field type ∨ constant ∈ frame.bound item field) := by
  have key : formal.term ∈ (frame.replacements item field type).map Prod.fst := by
    obtain ⟨index, at_⟩ := mem_iff_getElem?.mp member
    by_cases same : index = frame.position
    · rw [same, place] at at_
      cases at_
      simp [replacements]
    · have other : (formal, index) ∈ frame.others :=
        mem_filter.mpr ⟨mem_zipIdx_iff_getElem?.mpr at_, by simpa using same⟩
      refine mem_cons_of_mem _ ?_
      rw [map_map]
      exact mem_map.mpr ⟨(formal, index), other, rfl⟩
  have foundIn : frame.found ∈ frame.formals := mem_of_getElem? place
  cases lookup : (frame.replacements item field type).lookup formal.term with
  | none =>
    obtain ⟨entry, inside, same⟩ := mem_map.mp key
    have differ := lookup_eq_none_iff.mp lookup entry inside
    simp [same] at differ
  | some term =>
    rw [Assignment.replace, lookup]
    rcases mem_cons.mp (Map.mem_of_lookup lookup) with same | rest
    · rw [Prod.mk.injEq] at same
      refine ⟨caseField frame.name item field type, by rw [same.2]; rfl, ?_, .inl rfl⟩
      rw [same.1, of.term_sort foundIn]
      exact recursive
    · obtain ⟨entry, inside, same⟩ := mem_map.mp rest
      rw [Prod.mk.injEq] at same
      have listed : entry.1 ∈ frame.formals :=
        (mem_zipIdx (mem_of_mem_filter inside)).2.2 ▸ getElem_mem _
      refine ⟨generalized frame.name item field entry.2 entry.1, by rw [← same.2]; rfl, ?_,
        .inr (mem_map.mpr ⟨entry, inside, rfl⟩)⟩
      rw [← same.1, of.term_sort listed]
      rfl

theorem replace_found (frame : InductionFrame) (item : DatatypeCaseInfo) (field : Nat)
    (type : RuntimeType) :
    assignment.replace interp (frame.replacements item field type) frame.found.term =
      assignment (caseField frame.name item field type) := by
  simp [Assignment.replace, replacements, eval]

/-- A hypothesis is true if the theorem is true of the field. -/
theorem hypothesis_models
    (of : FormalsOf (checkRules start frame.name) runtime 0 [] parameters frame.formals)
    (place : frame.formals[frame.position]? = some frame.found)
    (plain : frame.theorem_.quantifierFree = true) (recursive : type.sort = frame.found.type.sort)
    (typed : (assignment (caseField frame.name item field type)).Inhabits interp.shapes
      type.sort.meaning)
    (smaller : ∀ other : Assignment, other.Sorted interp.shapes (frame.formals.map Formal.term) →
      other frame.found.term = assignment (caseField frame.name item field type) →
      Models interp frame.theorem_ other) :
    Models interp (frame.hypothesis item field type) assignment := by
  -- what the bound constants are does not change the field
  have instance_ : ∀ other, Varies interp.shapes (frame.bound item field) assignment other →
      Models interp (frame.theorem_.substitute (frame.replacements item field type)) other := by
    intro other varies
    have same := varies.same _ (frame.caseField_bound item field field type)
    rw [Models, eval_substitute _ _ plain]
    refine smaller _ ?_ ((frame.replace_found item field type).trans same)
    intro constant member
    obtain ⟨formal, inside, rfl⟩ := mem_map.mp member
    obtain ⟨replaced, is, sort, which⟩ := replace_formal interp other of place item field
      recursive inside
    rw [is, ← sort]
    rcases which with rfl | bound
    · rw [same]
      exact typed
    · exact varies.sorted _ bound
  unfold hypothesis
  dsimp only
  split
  · rename_i empty
    refine instance_ assignment ⟨fun _ _ => rfl, fun constant member => ?_⟩
    rw [List.isEmpty_iff.mp empty] at member
    cases member
  · rw [models_forall]
    exact instance_

def constants (frame : InductionFrame) : List Const :=
  frame.formals.map Formal.term ++ frame.datatype.cases.flatMap frame.fields

/-- The assignment with values for the fields of one constructor. -/
noncomputable def extend (frame : InductionFrame) (interp : Interp) (assignment : Assignment)
    (item : DatatypeCaseInfo) (values : List Value) : Assignment := fun constant =>
  open Classical in
  if constant ∈ frame.formals.map Formal.term then assignment constant
  else match ((frame.fields item).zip values).lookup constant with
    | some value => .plain value
    | none => if typed : ∃ element : Element, element.Inhabits interp.shapes constant.sort.meaning
        then Classical.choose typed else default

theorem extend_parameter (frame : InductionFrame) (interp : Interp) (assignment : Assignment)
    (item : DatatypeCaseInfo) (values : List Value)
    (member : constant ∈ frame.formals.map Formal.term) :
    frame.extend interp assignment item values constant = assignment constant := by
  rw [extend, if_pos member]

theorem extend_field (interp : Interp) (assignment : Assignment)
    (of : FormalsOf (checkRules start frame.name) runtime 0 [] parameters frame.formals)
    (length : values.length = item.fieldTypes.length) (typeAt : item.fieldTypes[field]? = some type)
    (valueAt : values[field]? = some value) :
    frame.extend interp assignment item values (caseField frame.name item field type) =
      .plain value := by
  have atKey : (frame.fields item)[field]? = some (caseField frame.name item field type) := by
    simp [fields, typeAt]
  have lookup := lookup_zip_of_getElem? (frame.fields_nodup item)
    (by simp [fields, length]) atKey valueAt
  rw [extend, if_neg (caseField_parameter of item field type), lookup]

theorem extend_sorted (peopled : ∀ other ∈ frame.datatype.cases, ∀ type ∈ other.fieldTypes,
      ∃ element : Element, element.Inhabits interp.shapes type.meaning)
    (sorted : assignment.Sorted interp.shapes (frame.formals.map Formal.term))
    (typed : Forall₂ (Inhabits interp.shapes) values (item.fieldTypes.map RuntimeType.meaning)) :
    (frame.extend interp assignment item values).Sorted interp.shapes frame.constants := by
  intro constant member
  by_cases parameter : constant ∈ frame.formals.map Formal.term
  · rw [frame.extend_parameter interp assignment item values parameter]
    exact sorted constant parameter
  · rw [extend, if_neg parameter]
    cases lookup : ((frame.fields item).zip values).lookup constant with
    | some value =>
      obtain ⟨place, at_⟩ := mem_iff_getElem?.mp (Map.mem_of_lookup lookup)
      rw [List.getElem?_zip_eq_some] at at_
      obtain ⟨type, typeAt, rfl⟩ := fields_getElem? at_.1
      exact field_typed typed typeAt at_.2
    | none =>
      have field := (mem_append.mp member).resolve_left parameter
      obtain ⟨other, inside, is⟩ := mem_flatMap.mp field
      obtain ⟨place, at_⟩ := mem_iff_getElem?.mp is
      obtain ⟨type, typeAt, rfl⟩ := fields_getElem? at_
      have known : ∃ element : Element, element.Inhabits interp.shapes
          (caseField frame.name other place type).sort.meaning :=
        peopled other inside type (mem_of_getElem? typeAt)
      dsimp only
      rw [dif_pos known]
      exact Classical.choose_spec known

/-- What an induction needs of its frame. -/
structure Good (frame : InductionFrame) (runtime : Runtime) (interp : Interp) : Prop where
  formals : ∃ start parameters, FormalsOf (checkRules start frame.name) runtime 0 [] parameters
    frame.formals
  place : frame.formals[frame.position]? = some frame.found
  type : frame.found.type.meaning = .named frame.datatype.name
  shapes : interp.shapes frame.datatype.name = some (frame.datatype.cases.map fun item =>
    (item.name, item.fieldTypes.map RuntimeType.meaning))
  peopled : ∀ item ∈ frame.datatype.cases, ∀ type ∈ item.fieldTypes,
    ∃ element : Element, element.Inhabits interp.shapes type.meaning
  /-- A recursive field is of the parameter's type. -/
  recursive : ∀ item ∈ frame.datatype.cases, ∀ type ∈ item.fieldTypes,
    type.same frame.found.type = true → type = frame.found.type
  plain : frame.theorem_.quantifierFree = true
  constants : ∀ constant ∈ frame.theorem_.constants, constant ∈ frame.formals.map Formal.term

/-- The value of a constructor at its fields' constants. -/
theorem eval_constructor
    (of : FormalsOf (checkRules start frame.name) runtime 0 [] parameters frame.formals)
    (length : values.length = item.fieldTypes.length) :
    eval interp (.app item.constructor ((frame.fields item).map Term.constant))
      (frame.extend interp assignment item values) = .plain (.con item.name values) := by
  have arguments : ((frame.fields item).map Term.constant).map (fun term =>
      (eval interp term (frame.extend interp assignment item values)).toValue) = values := by
    apply ext_getElem?
    intro field
    rw [map_map, List.getElem?_map]
    cases at_ : (frame.fields item)[field]? with
    | none =>
      have short : (frame.fields item).length ≤ field := List.getElem?_eq_none_iff.mp at_
      rw [Option.map_none, eq_comm, List.getElem?_eq_none_iff]
      simpa [fields, length] using short
    | some constant =>
      obtain ⟨type, typeAt, rfl⟩ := fields_getElem? at_
      have inside : field < values.length := by
        rw [length]
        exact (List.getElem?_eq_some_iff.mp typeAt).1
      have valueAt : values[field]? = some (values.get ⟨field, inside⟩) :=
        List.getElem?_eq_getElem inside
      rw [Option.map_some, Function.comp_apply, eval, extend_field interp assignment of length typeAt
        valueAt, valueAt]
      rfl
  rw [eval_app]
  simp only [DatatypeCaseInfo.constructor, FuncDecl.apply, map_map] at arguments ⊢
  exact congrArg (fun values => Element.plain (.con item.name values)) arguments

/-- A valid step makes the theorem true, by induction on values. -/
theorem theorem_of_step (good : frame.Good runtime interp)
    (valid : ∀ assignment : Assignment, assignment.Sorted interp.shapes frame.constants →
      Models interp frame.step assignment) (value : Value) :
    ∀ assignment : Assignment, assignment.Sorted interp.shapes (frame.formals.map Formal.term) →
      assignment frame.found.term = .plain value → Models interp frame.theorem_ assignment := by
  obtain ⟨start, parameters, of⟩ := good.formals
  have foundIn : frame.found ∈ frame.formals := mem_of_getElem? good.place
  have foundTerm : frame.found.term ∈ frame.formals.map Formal.term := mem_map_of_mem foundIn
  have named : ∀ {value} {assignment : Assignment},
      assignment.Sorted interp.shapes (frame.formals.map Formal.term) →
      assignment frame.found.term = .plain value →
      Inhabits interp.shapes value (.named frame.datatype.name) := by
    intro value assignment sorted is
    have typed := sorted _ foundTerm
    rw [is, of.term_sort foundIn] at typed
    rw [← good.type]
    exact typed
  induction value with
  | bool value | int value | pair first second =>
    exact fun _ sorted is => by simpa [Inhabits] using named sorted is
  | con constructor values ih =>
    intro assignment sorted is
    obtain ⟨item, inside, _, same, typed⟩ := case_of_inhabits (named sorted is) good.shapes
    cases same
    have length : values.length = item.fieldTypes.length := by
      rw [typed.length_eq, length_map]
    have branch := valid _ (extend_sorted good.peopled sorted typed)
    rw [step, Term.conditions, models_conjunction] at branch
    have here := branch.2 (frame.branch item) (mem_map_of_mem inside)
    rw [InductionFrame.branch, models_imp, models_imp] at here
    have conclusion := here ?_ ?_
    · refine (models_congr _ fun constant used => ?_).mp conclusion
      exact frame.extend_parameter interp assignment item values (good.constants constant used)
    · rw [guard, models_equals, eval_constructor of length, eval,
        frame.extend_parameter interp assignment item values foundTerm, is]
    · rw [Term.conditions, models_conjunction]
      refine ⟨by simp, fun hypothesis listed => ?_⟩
      obtain ⟨⟨type, field⟩, recursive, rfl⟩ := mem_map.mp listed
      obtain ⟨placed, pointer⟩ := mem_filter.mp recursive
      have typeAt : item.fieldTypes[field]? = some type := mem_zipIdx_iff_getElem?.mp placed
      obtain rfl := good.recursive item inside type (mem_of_getElem? typeAt) pointer
      have bounded : field < values.length := by
        rw [length]
        exact (List.getElem?_eq_some_iff.mp typeAt).1
      have valueAt : values[field]? = some (values.get ⟨field, bounded⟩) :=
        List.getElem?_eq_getElem bounded
      have fieldIs := extend_field interp assignment of length typeAt valueAt
      refine hypothesis_models of good.place good.plain rfl ?_ ?_
      · rw [fieldIs]
        exact field_typed typed typeAt valueAt
      · intro other otherSorted otherIs
        rw [fieldIs] at otherIs
        exact ih _ (get_mem _ _) other otherSorted otherIs

end InductionFrame

theorem Term.conditions_plain (each : ∀ term ∈ terms, term.quantifierFree = true) :
    (Term.conditions terms).quantifierFree = true := by
  suffices joined : ∀ first : Term, first.quantifierFree = true →
      (Term.conjunction first terms).quantifierFree = true from joined _ rfl
  induction terms with
  | nil => exact fun first plain => plain
  | cons term terms ih =>
    intro first plain
    refine ih (fun other member => each other (by simp [member])) (first.conj term) ?_
    simp [Term.conj, Term.quantifierFree, plain, each term (by simp)]

theorem Term.conjunction_constants (first : Term) (terms : List Term) :
    (Term.conjunction first terms).constants =
      first.constants ++ terms.flatMap Term.constants := by
  induction terms generalizing first with
  | nil => simp [Term.conjunction]
  | cons term terms ih =>
    have joined := ih (first.conj term)
    simp only [Term.conjunction, foldl_cons] at joined ⊢
    rw [joined]
    simp [Term.conj, Term.constants]

theorem Term.conditions_constants (terms : List Term) :
    (Term.conditions terms).constants = terms.flatMap Term.constants := by
  rw [Term.conditions, Term.conjunction_constants]
  simp [Term.boolVal, Term.constants]

theorem models_conditions {sig : Signature} {environment : Environment} {conditions : List Expr}
    (translated : Forall₂ (fun condition term =>
      Translates sig environment condition .bool term) conditions terms) (interp : Interp)
    (assignment : Assignment) :
    Models interp (.conditions terms) assignment ↔
      HoldAll sig interp (environment.meaning interp assignment) conditions := by
  rw [Term.conditions, models_conjunction]
  induction translated with
  | nil => simp [HoldAll]
  | @cons condition term conditions terms here _ ih =>
    have truth : Models interp term assignment ↔
        (denote sig interp (environment.meaning interp assignment) condition).Holds := by
      rw [Models, here.denotes]
    simp only [models_boolVal, true_and, HoldAll, forall_mem_cons, truth] at ih ⊢
    rw [ih]

namespace CheckTranslated

variable {declaration : CheckDecl} {translation : CheckTranslation}
  (translated : CheckTranslated declaration runtime later translation)

include translated

theorem models_theorem (interp : Interp) (assignment : Assignment) :
    Models interp translation.theorem_ assignment ↔
      (HoldAll runtime.signature interp (binds (declaration.parameters.map Parameter.name)
          (translation.formals.map fun formal => assignment formal.term)) declaration.assumes →
        HoldAll runtime.signature interp (binds (declaration.parameters.map Parameter.name)
          (translation.formals.map fun formal => assignment formal.term)) declaration.ensures) := by
  obtain ⟨start, of⟩ := translated.formals
  rw [CheckTranslation.theorem_, models_imp, models_conditions translated.assumptions,
    models_conditions translated.guarantees, environmentOf_meaning, of.names]

theorem theorem_plain :
    translation.theorem_.quantifierFree = true := by
  have each : ∀ {conditions : List Expr} {terms : List Term}, Forall₂ (fun condition term =>
      Translates runtime.signature (environmentOf translation.formals) condition .bool term)
      conditions terms → (Term.conditions terms).quantifierFree = true := by
    intro conditions terms all
    refine Term.conditions_plain fun term member => ?_
    obtain ⟨condition, -, here⟩ := exists_of_forall₂_right all member
    exact here.plain (environmentOf_plain _)
  simp [CheckTranslation.theorem_, Term.imp, Term.quantifierFree, each translated.assumptions,
    each translated.guarantees]

theorem theorem_constants (member : constant ∈ translation.theorem_.constants) :
    constant ∈ translation.formals.map Formal.term := by
  have each : ∀ {conditions : List Expr} {terms : List Term}, Forall₂ (fun condition term =>
      Translates runtime.signature (environmentOf translation.formals) condition .bool term)
      conditions terms → constant ∈ (Term.conditions terms).constants →
      constant ∈ translation.formals.map Formal.term := by
    intro conditions terms all inside
    rw [Term.conditions_constants] at inside
    obtain ⟨term, listed, used⟩ := mem_flatMap.mp inside
    obtain ⟨condition, -, here⟩ := exists_of_forall₂_right all listed
    obtain ⟨name, found, lookup, is⟩ := here.constants constant used
    exact environmentOf_constants _ lookup is
  have parts : constant ∈ (Term.conditions translation.assumptions).constants ∨
      constant ∈ (Term.conditions translation.guarantees).constants := by
    simpa [CheckTranslation.theorem_, Term.imp, Term.constants] using member
  rcases parts with assumed | ensured
  · exact each translated.assumptions assumed
  · exact each translated.guarantees ensured

/-- The frame of an induction is good. -/
theorem good (reached : Reached runtime) (free : runtime.Free interp) {frame : InductionFrame}
    (is : FrameOf later declaration.name translation.formals translation.theorem_ frame) :
    frame.Good later interp := by
  obtain ⟨start, of⟩ := translated.formals
  obtain ⟨address, type, known⟩ := is.datatype
  have order := reached.inOrder.formed
  have formed := translated.advances.wellFormed order
  rw [← is.formals, ← is.name] at of
  have before : runtime.datatypes.lookup frame.datatype.name = some frame.datatype := by
    rw [← (translated.advances.extends_.datatypes_eq).1]
    exact known
  have fields : ∀ item ∈ frame.datatype.cases, ∀ type ∈ item.fieldTypes,
      type ∈ runtime.objects := by
    intro item member
    have found := (order.tables.constructors _ _ before).2.2 item member
    exact (order.names.constructors _ _ _ found).2.2.2.2
  refine ⟨⟨start, declaration.parameters, of⟩, is.place, by rw [type]; rfl, free.datatypes _ _ before,
    fun item member type inside => reached.element free (fields item member type inside), ?_, ?_,
    ?_⟩
  · intro item member field inside pointer
    have one := translated.advances.extends_.objects (fields item member field inside)
    have two := of.listed frame.found (mem_of_getElem? is.place)
    exact formed.types.unique one two ((formed.types.same_iff one two).mp pointer)
  · rw [is.theorem_]
    exact translated.theorem_plain
  · intro constant member
    rw [is.theorem_] at member
    rw [is.formals]
    exact translated.theorem_constants member

end CheckTranslated

theorem InductionFrame.theorem_false {frame : InductionFrame} {assignment : Assignment}
    (falsified : ¬ Models interp frame.step assignment) :
    ¬ Models interp frame.theorem_ assignment := by
  intro holds
  apply falsified
  rw [InductionFrame.step, Term.conditions, models_conjunction]
  refine ⟨by simp, fun branch member => ?_⟩
  obtain ⟨item, -, rfl⟩ := mem_map.mp member
  rw [InductionFrame.branch, models_imp, models_imp]
  exact fun _ _ => holds

theorem FormalsOf.fits {parameters : List Parameter}
    (of : FormalsOf rules runtime index seen parameters formals) {assignment : Assignment}
    (sorted : assignment.Sorted shapes (formals.map Formal.term)) :
    Fits shapes (formals.map fun formal => assignment formal.term) parameters := by
  rw [Fits, ← of.types, forall₂_map_left_iff, forall₂_map_right_iff, forall₂_same]
  exact fun formal member => of.typed sorted member

theorem FormalsOf.assign {parameters : List Parameter}
    (of : FormalsOf rules runtime index seen parameters formals)
    (injective : Function.Injective rules.internal) {elements : List Element}
    (fits : Fits shapes elements parameters) :
    ∃ assignment : Assignment, (formals.map fun formal => assignment formal.term) = elements ∧
      assignment.Sorted shapes (formals.map Formal.term) := by
  have types := congrArg List.length of.types
  have length := fits.length_eq
  have matched : (formals.map Formal.term).length = elements.length := by
    simp only [length_map] at types ⊢
    omega
  obtain ⟨assignment, assigned⟩ := exists_assignment (of.terms_nodup injective) matched
  rw [map_map] at assigned
  refine ⟨assignment, assigned, fun constant member => ?_⟩
  rw [Fits, ← assigned, ← of.types, forall₂_map_left_iff, forall₂_map_right_iff,
    forall₂_same] at fits
  obtain ⟨formal, inside, rfl⟩ := mem_map.mp member
  rw [of.term_sort inside]
  exact fits formal inside

/-- The assumptions hold at elements, and a guarantee does not. -/
def CheckFails (sig : Signature) (interp : Interp) (declaration : CheckDecl)
    (elements : List Element) : Prop :=
  HoldAll sig interp (binds (declaration.parameters.map Parameter.name) elements)
      declaration.assumes ∧
    ∃ guarantee ∈ declaration.ensures, ¬ (denote sig interp
      (binds (declaration.parameters.map Parameter.name) elements) guarantee).Holds

/-- Correct for the asserted terms; a model's values are closed terms. -/
def Answer.Correct (interp : Interp) (constants : List Const) (asserted : List Term) :
    Answer → Prop
  | .unsat => ∀ assignment : Assignment, assignment.Sorted interp.shapes constants →
      ∃ term ∈ asserted, ¬ Models interp term assignment
  | .sat model => ∃ assignment : Assignment, assignment.Sorted interp.shapes constants ∧
      (∀ term ∈ asserted, Models interp term assignment) ∧
      ∀ constant ∈ constants, ∀ other, eval interp (model constant) other = assignment constant
  | .unknown _ => True

namespace CheckTranslated

variable {declaration : CheckDecl} {translation : CheckTranslation}
  (translated : CheckTranslated declaration runtime later translation)

include translated

theorem fails_of_theorem {assignment : Assignment}
    (falsified : ¬ Models interp translation.theorem_ assignment) :
    CheckFails runtime.signature interp declaration
      (translation.formals.map fun formal => assignment formal.term) := by
  rw [translated.models_theorem] at falsified
  simpa [CheckFails, HoldAll, Classical.not_imp] using falsified

/-- The step is valid exactly when the check holds. -/
theorem step_valid_iff (reached : Reached runtime) (free : runtime.Free interp)
    {frame : InductionFrame}
    (is : FrameOf later declaration.name translation.formals translation.theorem_ frame) :
    (∀ assignment : Assignment, assignment.Sorted interp.shapes frame.constants →
      Models interp frame.step assignment) ↔
      CheckHolds runtime.signature interp declaration := by
  obtain ⟨start, of⟩ := translated.formals
  have good := translated.good reached free is
  constructor
  · intro valid elements fits
    obtain ⟨assignment, assigned, sorted⟩ := of.assign (numbered_injective _) fits
    have sortedFrame := sorted
    rw [← is.formals] at sortedFrame
    have foundIn : frame.found ∈ frame.formals := mem_of_getElem? good.place
    rw [is.formals] at foundIn
    have typed := of.typed sorted foundIn
    rw [good.type] at typed
    have value := (typed.toValue rfl).1
    have holds := frame.theorem_of_step good valid _ assignment sortedFrame value
    rw [is.theorem_, translated.models_theorem, assigned] at holds
    exact holds
  · intro holds assignment sorted
    by_contra falsified
    have false_ := InductionFrame.theorem_false falsified
    rw [is.theorem_, translated.models_theorem] at false_
    refine false_ (holds _ (of.fits fun constant member => ?_))
    rw [← is.formals] at member
    exact sorted constant (mem_append_left _ member)

end CheckTranslated

/-- Lifting the value leaves the state. -/
def LiftsAside (term : Term) : Prop :=
  ∀ {type : RuntimeType} {runtime later : Runtime} {found : Expr},
    (liftTypedExpression term type).run runtime = .ok (found, later) → later = runtime

/-- Lifting values leaves the state, if lifting each does. -/
theorem liftAll_aside {terms : List Term} (each : ∀ term ∈ terms, LiftsAside term)
    {types : List RuntimeType} {found : List Expr}
    (run : (liftAll terms types).run runtime = .ok (found, later)) : later = runtime := by
  induction terms generalizing types found runtime with
  | nil => cases run; rfl
  | cons term terms ih =>
    cases types with
    | nil => cases run; rfl
    | cons type types =>
      rw [liftAll] at run
      obtain ⟨first, middle, ran, run⟩ := run_bind_ok run
      obtain ⟨others, last, rest, run⟩ := run_bind_ok run
      cases run
      rw [ih (fun other member => each other (mem_cons_of_mem _ member)) rest]
      exact each term mem_cons_self ran

/-- Lifting a value leaves the state. -/
theorem liftTypedExpression_aside (term : Term) : LiftsAside term := by
  induction term with
  | constant | numeral | quantified =>
    intro type runtime later found run
    cases type <;> simp only [liftTypedExpression, run_get_bind] at run <;> repeat' split at run
    all_goals cases run <;> rfl
  | app decl arguments ih =>
    intro type runtime later found run
    cases type with
    | boolean | integer | table | enumeration =>
      simp only [liftTypedExpression, run_get_bind] at run
      repeat' split at run
      all_goals cases run <;> rfl
    | datatype address declared =>
      simp only [liftTypedExpression, run_get_bind] at run
      repeat' split at run
      any_goals cases run
      all_goals
        obtain ⟨elements, middle, ran, run⟩ := run_bind_ok run
        cases run
        exact liftAll_aside ih ran
    | tuple address sequence first second =>
      simp only [liftTypedExpression] at run
      split at run
      · cases run
      obtain ⟨elements, middle, ran, run⟩ := run_bind_ok run
      cases run
      exact liftAll_aside ih ran

/-- Added types change no output and no admitted theorem. -/
theorem Advances.reported (advances : Advances runtime later) :
    later.output = runtime.output ∧ later.admittedProofs = runtime.admittedProofs := by
  obtain ⟨⟨added, names, address, sequence, rfl⟩, -⟩ := advances
  exact ⟨rfl, rfl⟩

/-- Reading a counterexample back adds types only. -/
theorem checkEntries_advances {entries : List CounterexampleEntry} {formals : List Formal}
    {values : List Term} (valid : runtime.Valid)
    (run : (checkEntries entries formals values).run runtime = .ok ((), later)) :
    Advances runtime later := by
  induction entries generalizing formals values runtime with
  | nil => cases run; exact .refl valid
  | cons entry entries ih =>
    cases formals with
    | nil => cases run; exact .refl valid
    | cons formal formals =>
      cases values with
      | nil => cases run; exact .refl valid
      | cons value values =>
        rw [checkEntries] at run
        split at run
        · cases run
        obtain ⟨parsed, start, resolved, run⟩ := run_bind_ok run
        obtain ⟨roundtrip, middle, ran, run⟩ := run_bind_ok run
        have first := (resolveType_advances valid resolved).1
        have names : Environment.Valid [] start := fun name found here => by cases here
        have second := (elaborate_ok entry.value first.valid names ran).advances
        split at run
        · cases run
        · exact (first.trans second).trans (ih second.valid run)

/-- Reading a counterexample back adds types only. -/
theorem checkCounterexample_advances {name : Identifier} {formals : List Formal}
    {values : List Term} {source : SourceText} (valid : runtime.Valid)
    (run : (checkCounterexample name formals values source).run runtime = .ok ((), later)) :
    Advances runtime later := by
  unfold checkCounterexample at run
  repeat' split at run
  any_goals cases run
  exact checkEntries_advances valid run

/-- How a check ends: verified, and admitted if it is a proof, on `unsat`; refuted by the values of
a model, which are lifted, written and read back, on `sat`. -/
inductive CheckEnded (solver : Solver) (declaration : CheckDecl) (later : Runtime)
    (translation : CheckTranslation) : Nat → Runtime → Prop where
  | verified : solver later.context translation.induction_.isSome (translation.asserted later) =
        .unsat →
      CheckEnded solver declaration later translation 0 { later with
        output := later.output ++ verifiedLines declaration
        admittedProofs := later.admittedProofs ++
          if declaration.reusable then [⟨declaration.name, translation.closed⟩] else [] }
  | refuted {model : Const → Term} {lifted : List Expr} {checked : Runtime} :
      solver later.context translation.induction_.isSome (translation.asserted later) =
        .sat model →
      (liftAll (translation.formals.map fun formal => model formal.term)
        (translation.formals.map Formal.type)).run later = .ok (lifted, later) →
      Advances later checked →
      CheckEnded solver declaration later translation (if declaration.reusable then 1 else 0)
        { checked with
          output := checked.output ++ refutedLines declaration
            (counterexampleSource declaration.name translation.formals lifted) }

/-- A check without predicates, or by induction, was translated and ended in one of these ways. -/
theorem executeCheck_ended {solver : Solver} {question : CheckDecl → Run Nat}
    {declaration : CheckDecl} (formed : runtime.WellFormed)
    (plain : runtime.predicates = [] ∨ declaration.inductionParameter.isSome) {code : Nat}
    {last : Runtime}
    (run : (executeCheck solver question declaration).run runtime = .ok (code, last)) :
    ∃ translation later, (translateCheck declaration).run runtime = .ok (translation, later) ∧
      CheckEnded solver declaration later translation code last := by
  simp only [executeCheck, run_get_bind] at run
  split at run
  · rename_i some_
    rcases plain with plain | inducts
    · simp [plain] at some_
    · simp only [executePredicateCheck, inducts, if_true] at run
      obtain ⟨_, _, -, run⟩ := run_bind_ok run
      cases run
  split at run
  · cases run
  obtain ⟨translation, later, ran, run⟩ := run_bind_ok run
  refine ⟨translation, later, ran, ?_⟩
  simp only [run_get_bind] at run
  split at run
  · cases run
  · rename_i unsat
    have ended : CheckEnded solver declaration later translation _ _ := .verified unsat
    unfold RuntimeDetail.verified at run
    split at run
    · rename_i reusable
      cases run
      rw [if_pos reusable] at ended
      exact ended
    · rename_i fresh
      cases run
      rw [if_neg fresh, append_nil] at ended
      exact ended
  · rename_i sat
    obtain ⟨lifted, same, lifts, ends⟩ := run_bind_ok run
    obtain rfl := liftAll_aside (fun term _ => liftTypedExpression_aside term) lifts
    obtain ⟨_, checked, read, written⟩ := run_bind_ok ends
    have advances := checkCounterexample_advances (translateCheck_ok formed ran).advances.valid read
    cases written
    exact .refuted sat lifts advances

/-- Induction on a datatype is exact. What falsifies the step falsifies the check at the same
parameters, and the step is valid exactly when the check holds. So with correct answers a check that
is verified, written and admitted as such holds if the admitted theorems do, and one that is
refuted, and written as such, fails at the returned values. -/
theorem executeCheck_induction (reached : Reached runtime) {solver : Solver}
    {question : CheckDecl → Run Nat} {declaration : CheckDecl} {parameter : Identifier}
    (inducts : declaration.inductionParameter = some parameter) {code : Nat} {last : Runtime}
    (run : (executeCheck solver question declaration).run runtime = .ok (code, last))
    (free : runtime.Free interp) :
    ∃ translation later frame,
      (translateCheck declaration).run runtime = .ok (translation, later) ∧
      translation.induction_ = some frame ∧
      (∀ assignment : Assignment, ¬ Models interp translation.step assignment →
        CheckFails runtime.signature interp declaration
          (translation.formals.map fun formal => assignment formal.term)) ∧
      ((∀ assignment : Assignment, assignment.Sorted interp.shapes frame.constants →
        Models interp translation.step assignment) ↔
          CheckHolds runtime.signature interp declaration) ∧
      ∀ answer, solver later.context true (translation.asserted later) = answer →
        answer.Correct interp frame.constants (translation.asserted later) →
        (∃ model lifted, answer = .sat model ∧
          (liftAll (translation.formals.map fun formal => model formal.term)
            (translation.formals.map Formal.type)).run later = .ok (lifted, later) ∧
          code = (if declaration.reusable then 1 else 0) ∧
          last.output = runtime.output ++ refutedLines declaration
            (counterexampleSource declaration.name translation.formals lifted) ∧
          last.admittedProofs = runtime.admittedProofs ∧
          CheckFails runtime.signature interp declaration
            (translation.formals.map fun formal => eval interp (model formal.term) default)) ∨
        answer = .unsat ∧ code = 0 ∧
          last.output = runtime.output ++ verifiedLines declaration ∧
          last.admittedProofs = runtime.admittedProofs ++
            (if declaration.reusable then [⟨declaration.name, translation.closed⟩] else []) ∧
          ((∀ proof ∈ runtime.admittedProofs, ∀ assignment,
            Models interp proof.theorem_ assignment) →
              CheckHolds runtime.signature interp declaration) := by
  obtain ⟨translation, later, ran, ended⟩ :=
    executeCheck_ended reached.inOrder.formed (.inr (by rw [inducts]; rfl)) run
  have translated := translateCheck_ok reached.inOrder.formed ran
  obtain ⟨frame, framed, is⟩ := translated.induction_ parameter inducts
  obtain ⟨output, proofs⟩ := translated.advances.reported
  have step : translation.step = frame.step := by simp only [CheckTranslation.step, framed]
  have fails : ∀ assignment : Assignment, ¬ Models interp translation.step assignment →
      CheckFails runtime.signature interp declaration
        (translation.formals.map fun formal => assignment formal.term) := by
    intro assignment falsified
    rw [step] at falsified
    apply translated.fails_of_theorem
    rw [← is.theorem_]
    exact InductionFrame.theorem_false falsified
  have valid := translated.step_valid_iff reached free is
  rw [← step] at valid
  refine ⟨translation, later, frame, ran, framed, fails, valid, fun answer answered correct => ?_⟩
  have query : ∀ assignment, Models interp translation.query assignment ↔
      ¬ Models interp translation.step assignment := fun assignment => by
    rw [CheckTranslation.query, models_neg]
  cases ended with
  | @refuted model lifted checked sat lifts advances =>
    rw [framed] at sat
    obtain rfl := answered.symm.trans sat
    obtain ⟨assignment, -, modelled, values⟩ := correct
    have falsified := (query assignment).mp (modelled _ (by simp [CheckTranslation.asserted]))
    obtain ⟨outputs, kept⟩ := advances.reported
    refine .inl ⟨model, lifted, rfl, lifts, rfl, by rw [outputs, output], kept.trans proofs, ?_⟩
    have agree : (translation.formals.map fun formal => eval interp (model formal.term) default) =
        translation.formals.map fun formal => assignment formal.term := by
      refine map_congr_left fun formal member => values _ ?_ _
      rw [← is.formals] at member
      exact mem_append_left _ (mem_map_of_mem member)
    rw [agree]
    exact fails assignment falsified
  | verified unsat =>
    rw [framed] at unsat
    obtain rfl := answered.symm.trans unsat
    refine .inr ⟨rfl, rfl, by rw [output], by rw [proofs],
      fun admitted => valid.mp fun assignment sorted => ?_⟩
    obtain ⟨term, member, unmodelled⟩ := correct assignment sorted
    rw [CheckTranslation.asserted, mem_append, mem_map, mem_singleton] at member
    rcases member with ⟨proof, inside, rfl⟩ | rfl
    · exact absurd (admitted proof (proofs ▸ inside) assignment) unmodelled
    · rw [query, not_not] at unmodelled
      exact unmodelled

/-- `check double(n: Nat) { inducts(n); ensures { n == n; } }`. -/
def Peano.checkDecl : CheckDecl where
  info := {}
  reusable := false
  name := double
  parameters := [⟨{}, n, .named {} nat⟩]
  inductionParameter := some n
  inductionSpan := none
  predicateInduction := none
  assumes := []
  ensures := [.binary {} .equal (.name {} n) (.name {} n)]

theorem Peano.start_free : Peano.start.Free Peano.interp where
  datatypes := Peano.start_algebras
  enums name info found := by
    have enums : Peano.start.enums = [] := rfl
    rw [enums] at found
    cases found

/-- For reflexivity `unsat` is correct: the check is verified and holds. -/
theorem executeCheck_induction_reflexive : ∃ last,
    (executeCheck (fun _ _ _ => .unsat) (fun _ => pure 0) Peano.checkDecl).run Peano.start =
      .ok (0, last) ∧
    last.output = ["verified: double", "induction: direct-subterm on n",
      "counterexample: none"] ∧ last.admittedProofs = [] ∧
    CheckHolds Peano.start.signature Peano.interp Peano.checkDecl := by
  have ran : ∃ last, (executeCheck (fun _ _ _ => .unsat) (fun _ => pure 0) Peano.checkDecl).run
      Peano.start = .ok (0, last) := ⟨_, rfl⟩
  have inducts : Peano.checkDecl.inductionParameter = some Peano.n := rfl
  obtain ⟨last, run⟩ := ran
  obtain ⟨translation, later, frame, translated, framed, fails, valid, answers⟩ :=
    executeCheck_induction Peano.start_reached inducts run Peano.start_free
  have correct : Answer.Correct Peano.interp frame.constants (translation.asserted later)
      .unsat := by
    intro assignment sorted
    refine ⟨translation.query, by simp [CheckTranslation.asserted], ?_⟩
    rw [CheckTranslation.query, models_neg, not_not]
    by_contra falsified
    obtain ⟨-, guarantee, member, broken⟩ := fails assignment falsified
    obtain rfl := mem_singleton.mp member
    exact broken (by simp [denote, operate])
  rcases answers .unsat rfl correct with ⟨model, lifted, sat, -⟩ | ⟨-, -, output, proofs, holds⟩
  · cases sat
  · refine ⟨last, run, output, proofs, holds ?_⟩
    intro proof member
    cases member

end Fine.RuntimeDetail
