import Fine.Runtime.Values

/-!
# Tables of a run

A bound table is either an array of values, which means a table of its type, or one constant that is
to be found.
-/

namespace Fine.RuntimeDetail

open Fine.Syntax Fine.Semantics Fine.Fallible List

variable {runtime later : Runtime} {interp : Interp}

/-- An array of values: a constant array under stores. -/
inductive TableTerm (runtime : Runtime) (key range : RuntimeType) : Term → Prop where
  | rest {value : Term} : GroundValue runtime value range →
      TableTerm runtime key range (.app (.constArray key.sort range.sort) [value])
  | store {table at_ stored : Term} : TableTerm runtime key range table →
      GroundValue runtime at_ key → GroundValue runtime stored range →
      TableTerm runtime key range (.app (.store key.sort range.sort) [table, at_, stored])

/-- The binding is an array of values, or a constant that is to be found. -/
structure Binding.Valid (binding : Binding) (runtime : Runtime) (name : Identifier) : Prop where
  listed : binding.type ∈ runtime.objects
  table : ∃ address key range, binding.type = .table address key range ∧
    (binding.isModel = true ∧ binding.value = .constant ⟨name.text, binding.type.sort⟩ ∨
      binding.isModel = false ∧ TableTerm runtime key range binding.value)

/-- Members belong to declared types, and bindings are valid. -/
structure Runtime.Bound (runtime : Runtime) : Prop where
  cases : ∀ name info index, runtime.cases.lookup name = some (info, index) →
    runtime.enums.lookup info.name = some info ∧ index < info.caseNames.length
  constructors : ∀ name info item, runtime.constructors.lookup name = some (info, item) →
    runtime.datatypes.lookup info.name = some info ∧ item ∈ info.cases
  bindings : ∀ name binding, runtime.bindings.lookup name = some binding →
    binding.Valid runtime name

/-- Types and objects stay. -/
structure Grows (first second : Runtime) : Prop where
  enums : ∀ name info, first.enums.lookup name = some info →
    second.enums.lookup name = some info
  datatypes : ∀ name info, first.datatypes.lookup name = some info →
    second.datatypes.lookup name = some info
  objects : ∀ type ∈ first.objects, type ∈ second.objects

variable {term : Term} {type key range : RuntimeType} {name : Identifier}

theorem GroundValue.grow (grows : Grows runtime later) (ground : GroundValue runtime term type) :
    GroundValue later term type := by
  induction ground using GroundValue.members_induction with
  | boolean => exact .boolean _ _
  | integer => exact .integer _ _
  | enumeration found inside => exact .enumeration (grows.enums _ _ found) inside
  | datatype found member _ each =>
    exact .datatype (grows.datatypes _ _ found) member (each.imp fun _ _ known => known.choose_spec)
  | tuple _ _ left right => exact .tuple left right

theorem TableTerm.grow (grows : Grows runtime later) (table : TableTerm runtime key range term) :
    TableTerm later key range term := by
  induction table with
  | rest value => exact .rest (value.grow grows)
  | store _ at_ stored ih => exact .store ih (at_.grow grows) (stored.grow grows)

variable {binding : Binding} {declaration : EnumDecl} {span : SourceSpan} {address : Nat}
  {types : List RuntimeType} {terms : List Term}

theorem Binding.Valid.grow (grows : Grows runtime later) (valid : binding.Valid runtime name) :
    binding.Valid later name := by
  obtain ⟨listed, address, key, range, is, shape⟩ := valid
  refine ⟨grows.objects _ listed, address, key, range, is, ?_⟩
  rcases shape with hole | ⟨closed, table⟩
  · exact .inl hole
  · exact .inr ⟨closed, table.grow grows⟩

theorem Extends.grows (extends_ : Extends runtime later) : Grows runtime later := by
  refine ⟨?_, ?_, fun type => extends_.objects⟩ <;> obtain ⟨_, _, _, _, rfl⟩ := extends_ <;>
    exact fun _ _ => id

theorem EnumDeclared.grows (declared : EnumDeclared declaration runtime later) :
    Grows runtime later := by
  refine ⟨?_, ?_, declared.objects⟩
  · intro name info found
    cases declared with
    | datatype => exact found
    | enumeration => exact Map.emplace_keeps found
  · intro name info found
    cases declared with
    | datatype => exact Map.emplace_keeps found
    | enumeration => exact found

/-- Members and bindings stay, types and objects may grow. -/
structure Stays (first second : Runtime) : Prop extends Grows first second where
  cases : second.cases = first.cases
  constructors : second.constructors = first.constructors
  bindings : second.bindings = first.bindings

theorem Extends.stays (extends_ : Extends runtime later) : Stays runtime later := by
  have grows := extends_.grows
  obtain ⟨_, _, _, _, rfl⟩ := extends_
  exact ⟨grows, rfl, rfl, rfl⟩

theorem Runtime.Bound.stays (bound : runtime.Bound) (stays : Stays runtime later) :
    later.Bound := by
  constructor
  · intro name info index found
    rw [stays.cases] at found
    obtain ⟨known, inside⟩ := bound.cases name info index found
    exact ⟨stays.enums _ _ known, inside⟩
  · intro name info item found
    rw [stays.constructors] at found
    obtain ⟨known, member⟩ := bound.constructors name info item found
    exact ⟨stays.datatypes _ _ known, member⟩
  · intro name binding found
    rw [stays.bindings] at found
    exact (bound.bindings name binding found).grow stays.toGrows

theorem declare_stays (order : runtime.InOrder) {declaration : Declaration}
    (noEnum : ∀ item, declaration ≠ .enum item) (noLet : ∀ item, declaration ≠ .letBinding item)
    (noModel : ∀ item, declaration ≠ .model item)
    (run : (declare declaration).run runtime = .ok ((), later)) : Stays runtime later := by
  obtain ⟨objects, kept, -⟩ := declare_leaves order run
  obtain ⟨tables, bindings⟩ := kept noEnum
  simp only [Runtime.typeTables, Prod.mk.injEq] at tables
  obtain ⟨-, datatypes, enums, cases, constructors⟩ := tables
  exact ⟨⟨fun _ _ => by rw [enums]; exact id, fun _ _ => by rw [datatypes]; exact id, objects⟩,
    cases, constructors, bindings noLet noModel⟩

theorem expectedConstructor_found (formed : runtime.WellFormed) (bound : runtime.Bound)
    {declared : Identifier} (listed : RuntimeType.datatype address declared ∈ runtime.objects)
    {item : DatatypeCaseInfo}
    (run : (expectedConstructor span name (.datatype address declared)).run runtime =
      .ok (item, later)) :
    runtime = later ∧ (∀ type ∈ item.fieldTypes, type ∈ runtime.objects) ∧ item.name = name ∧
      ∃ info, runtime.datatypes.lookup declared = some info ∧ item ∈ info.cases := by
  simp only [expectedConstructor, run_get_bind] at run
  split at run
  · cases run
  rename_i datatype found lookup
  split at run
  · cases run
  rename_i same
  cases run
  obtain ⟨named, inside, meaning, -, fields⟩ := formed.names.constructors _ _ _ lookup
  simp only [Bool.not_eq_true', Bool.not_eq_false] at same
  rw [formed.types.same_iff inside listed, meaning] at same
  have owner : datatype.name = declared := by
    simpa [RuntimeType.meaning, RuntimeType.sort, Z3Sort.meaning] using same
  rw [← owner]
  exact ⟨rfl, fields, named, datatype, bound.constructors _ _ _ lookup⟩

theorem values_spells {elements : List Expr}
    (each : ∀ element ∈ elements, ∀ {type : RuntimeType}, type ∈ runtime.objects →
      ∀ {term : Term} {later : Runtime}, (value element type).run runtime = .ok (term, later) →
        Spells runtime element term type) (listed : ∀ type ∈ types, type ∈ runtime.objects)
    (length : elements.length = types.length)
    (run : (values elements types).run runtime = .ok (terms, later)) :
    SpellsAll runtime elements terms types := by
  induction elements generalizing types terms later with
  | nil =>
    cases types with
    | nil => cases run; exact ⟨rfl, rfl⟩
    | cons => cases length
  | cons element elements ih =>
    cases types with
    | nil => cases length
    | cons type types =>
      rw [values] at run
      obtain ⟨first, _, here, run⟩ := run_bind_ok run
      obtain rfl := value_state element here
      obtain ⟨rest, _, there, run⟩ := run_bind_ok run
      have later := ih (fun other member => each other (mem_cons_of_mem _ member))
        (fun other member => listed other (mem_cons_of_mem _ member))
        (Nat.succ.inj length) there
      cases run
      exact ⟨first, rest, type, types, rfl, rfl,
        each element mem_cons_self (listed type mem_cons_self) here, later⟩

section

variable (formed : runtime.WellFormed) (bound : runtime.Bound)

include formed bound

theorem mem_zipIdx_of_case {info : EnumInfo} {index : Nat}
    (lookup : runtime.cases.lookup name = some (info, index)) :
    (name, index) ∈ info.caseNames.zipIdx := by
  obtain ⟨named, -⟩ := formed.names.cases _ _ _ lookup
  obtain ⟨-, below⟩ := bound.cases _ _ _ lookup
  rw [mem_zipIdx_iff_getElem?, ← named]
  simp [below]

/-- A name in a table cell spells a value. -/
theorem nameValue_spells {info : NodeInfo} (listed : type ∈ runtime.objects)
    (run : (nameValue span name type).run runtime = .ok (term, later)) :
    Spells runtime (.name info name) term type := by
  unfold nameValue at run
  split at run
  · obtain ⟨item, _, found, run⟩ := run_bind_ok run
    obtain ⟨rfl, -, named, info, known, member⟩ :=
      expectedConstructor_found formed bound listed found
    split at run
    · cases run
    rename_i flat
    cases run
    exact .inr ⟨_, _, info, item, rfl, known, member, named, by simpa using flat, rfl⟩
  · simp only [run_get_bind] at run
    split at run
    · cases run
    rename_i enumeration index lookup
    split at run
    · cases run
    rename_i same
    cases run
    obtain ⟨-, inside, meaning⟩ := formed.names.cases _ _ _ lookup
    obtain ⟨known, -⟩ := bound.cases _ _ _ lookup
    simp only [Bool.not_eq_true', Bool.not_eq_false] at same
    rw [formed.types.same_iff inside listed, meaning] at same
    simp only [RuntimeType.meaning, RuntimeType.sort, Z3Sort.meaning, FineType.named.injEq] at same
    rw [same] at known
    exact .inl ⟨_, _, enumeration, index, rfl, known, mem_zipIdx_of_case formed bound lookup, rfl⟩
  · cases run

/-- A table cell spells the value it is read as. -/
theorem value_spells (expression : Expr) (listed : type ∈ runtime.objects) {later : Runtime}
    (run : (value expression type).run runtime = .ok (term, later)) :
    Spells runtime expression term type := by
  induction expression generalizing type term later with
  | name info name => exact nameValue_spells formed bound listed (by rwa [value] at run)
  | boolean info literal | integer info literal =>
    simp only [value] at run
    split at run
    · cases run; exact ⟨⟨_, rfl⟩, rfl⟩
    · cases run
  | tuple info elements ih =>
    simp only [value] at run
    split at run
    · rename_i address sequence first second
      split at run
      · cases run
      rename_i length
      obtain ⟨terms, _, found, run⟩ := run_bind_ok run
      obtain ⟨-, one, two, -, -⟩ := formed.types.compound_lookup listed (.inl ⟨_, _, rfl⟩)
      have inner : SpellsAll runtime elements terms [first, second] :=
        values_spells (fun element member _ listed => ih element member listed) (by simp [one, two])
          (by simpa using length) found
      cases run
      exact ⟨_, _, first, second, terms, rfl, rfl, inner⟩
    · cases run
  | call info name elements ih =>
    simp only [value] at run
    split at run
    · obtain ⟨item, _, found, run⟩ := run_bind_ok run
      obtain ⟨rfl, fields, named, info, known, member⟩ :=
        expectedConstructor_found formed bound listed found
      split at run
      · cases run
      rename_i length
      obtain ⟨terms, _, found', run⟩ := run_bind_ok run
      have inner := values_spells (fun element member _ listed => ih element member listed) fields
        (by simpa using length) found'
      cases run
      exact ⟨_, _, info, item, terms, rfl, known, member, named, rfl, inner⟩
    · cases run
  | binary | conditional | hole => cases run

theorem value_ground (expression : Expr) (listed : type ∈ runtime.objects)
    (run : (value expression type).run runtime = .ok (term, later)) :
    GroundValue runtime term type := (value_spells formed bound expression listed run).ground

variable {result : Term}

theorem tableEntries_ground (keys : key ∈ runtime.objects) (ranges : range ∈ runtime.objects)
    {entries : List TableEntry} {seen : List Term} {table : Term}
    (start : TableTerm runtime key range table)
    (run : (tableEntries key range seen table entries).run runtime = .ok (result, later)) :
    TableTerm runtime key range result := by
  induction entries generalizing seen table with
  | nil => cases run; exact start
  | cons entry entries ih =>
    rw [tableEntries] at run
    obtain ⟨at_, _, first, run⟩ := run_bind_ok run
    obtain rfl := value_state entry.key first
    split at run
    · cases run
    obtain ⟨stored, _, second, run⟩ := run_bind_ok run
    obtain rfl := value_state entry.value second
    exact ih (.store start (value_ground formed bound _ keys first)
      (value_ground formed bound _ ranges second)) run

theorem tableValue_ground (listed : RuntimeType.table address key range ∈ runtime.objects)
    {literal : TableLiteral}
    (run : (tableValue key range literal).run runtime = .ok (result, later)) :
    TableTerm runtime key range result := by
  obtain ⟨-, keys, ranges, -, -⟩ := formed.types.compound_lookup listed (.inr ⟨_, rfl⟩)
  unfold tableValue at run
  obtain ⟨rest, _, first, run⟩ := run_bind_ok run
  obtain rfl := value_state literal.defaultValue first
  exact tableEntries_ground formed bound keys ranges
    (.rest (value_ground formed bound _ ranges first)) run

end

theorem Runtime.Bound.bind (bound : runtime.Bound) (valid : binding.Valid runtime name) :
    (runtime.bind name binding).Bound := by
  have grows : Grows runtime (runtime.bind name binding) :=
    ⟨fun _ _ => id, fun _ _ => id, fun _ => id⟩
  refine ⟨bound.cases, bound.constructors, fun other found lookup => ?_⟩
  rcases Map.emplace_cases lookup with old | ⟨rfl, rfl⟩
  · exact (bound.bindings other found old).grow grows
  · exact valid.grow grows

/-- A declared type has its members. -/
theorem EnumDeclared.bound (declared : EnumDeclared declaration runtime later)
    (formed : runtime.WellFormed) (bound : runtime.Bound) : later.Bound := by
  have grows := declared.grows
  cases declared with
  | @datatype info _ new named of founded =>
    have found : (runtime.addDatatype info).datatypes.lookup info.name = some info := by
      have lookup := Runtime.lookup_declaration
        (fun name found old => (formed.tables.constructors name found old).2.1) new.fresh info
        info.name
      rwa [if_pos rfl] at lookup
    refine ⟨bound.cases, fun name other item lookup => ?_, fun name binding lookup =>
      (bound.bindings name binding lookup).grow grows⟩
    rw [Runtime.addDatatype, Map.lookup_emplaceAll, Option.or_eq_some_iff] at lookup
    rcases lookup with old | ⟨-, added⟩
    · obtain ⟨known, member⟩ := bound.constructors name other item old
      exact ⟨grows.datatypes _ _ known, member⟩
    · obtain ⟨entry, inside, same⟩ := mem_map.mp (Map.mem_of_lookup added)
      cases same
      exact ⟨found, inside⟩
  | @enumeration info _ new named cases nonempty =>
    have found : (runtime.addEnum info).enums.lookup info.name = some info := by
      have lookup := Runtime.lookup_declaration
        (fun name found old => (formed.tables.cases name found old).2.1) new.fresh info info.name
      rwa [if_pos rfl] at lookup
    refine ⟨fun name other index lookup => ?_, bound.constructors, fun name binding lookup =>
      (bound.bindings name binding lookup).grow grows⟩
    rw [Runtime.addEnum, Map.lookup_emplaceAll, Option.or_eq_some_iff] at lookup
    rcases lookup with old | ⟨-, added⟩
    · obtain ⟨known, below⟩ := bound.cases name other index old
      exact ⟨grows.enums _ _ known, below⟩
    · obtain ⟨entry, inside, same⟩ := mem_map.mp (Map.mem_of_lookup added)
      cases same
      exact ⟨found, snd_lt_of_mem_zipIdx inside⟩

/-- Members belong to their types and bindings are valid. -/
theorem Reached.bound (reached : Reached runtime) : runtime.Bound := by
  induction reached with
  | initial => constructor <;> simp [Runtime.initial]
  | @declared runtime later declaration reached run ih =>
    have order := reached.inOrder
    cases declaration with
    | enum declaration =>
      obtain ⟨middle, advances, declared⟩ := declareEnum_ok order.formed run
      exact declared.bound (advances.wellFormed order.formed) (ih.stays advances.extends_.stays)
    | letBinding declaration =>
      obtain ⟨middle, address, key, range, table, advances, listed, ran, rfl⟩ :=
        declareLet_binds order.formed.toValid run
      have before := ih.stays advances.extends_.stays
      have ground := tableValue_ground (advances.wellFormed order.formed) before listed ran
      exact before.bind ⟨listed, _, _, _, rfl, .inr ⟨rfl, ground⟩⟩
    | model declaration =>
      obtain ⟨middle, address, key, range, table, hole, advances, listed, shape, rfl⟩ :=
        declareModel_binds order.formed.toValid run
      have before := ih.stays advances.extends_.stays
      refine before.bind ⟨listed, _, _, _, rfl, ?_⟩
      rcases shape with is | ⟨closed, literal, ran⟩
      · exact .inl is
      · exact .inr ⟨closed, tableValue_ground (advances.wellFormed order.formed) before listed ran⟩
    | function | view | predicate | solve | synth | check | counterexample =>
      exact ih.stays (declare_stays order (by simp) (by simp) (by simp) run)
  | @proved runtime middle output proofs reached advances ih =>
    have stays := advances.extends_.stays
    exact ih.stays ⟨⟨stays.enums, stays.datatypes, stays.objects⟩, stays.cases,
      stays.constructors, stays.bindings⟩

theorem values_mean
    (each : Forall₂ (fun term type => ∃ value, (∀ assignment,
      eval interp term assignment = .plain value) ∧
        Inhabits interp.shapes value (RuntimeType.meaning type)) terms types) :
    ∃ values, (∀ assignment, (terms.map fun term => eval interp term assignment) =
      values.map Element.plain) ∧
        InhabitsAll interp.shapes values (types.map RuntimeType.meaning) := by
  induction each with
  | nil => exact ⟨[], fun _ => rfl, rfl⟩
  | @cons term type terms types head tail ih =>
    obtain ⟨value, means, typed⟩ := head
    obtain ⟨values, meansAll, typedAll⟩ := ih
    refine ⟨value :: values, fun assignment => ?_, type.meaning, _, rfl, typed, typedAll⟩
    rw [map_cons, map_cons, means, meansAll]

theorem GroundValue.means (free : runtime.Free interp) (ground : GroundValue runtime term type) :
    ∃ value, (∀ assignment,
      eval interp term assignment = .plain value) ∧ Inhabits interp.shapes value type.meaning := by
  induction ground using GroundValue.members_induction with
  | boolean value =>
    refine ⟨.bool value, fun assignment => ?_, rfl⟩
    cases value <;> simp [Term.boolVal, eval_app, FuncDecl.apply, Element.truth]
  | integer value => exact ⟨.int value, fun _ => rfl, rfl⟩
  | @enumeration address declared info index found inside =>
    refine ⟨.con (info.caseNames.getD index default) [], fun assignment => ?_, ?_⟩
    · simp [EnumInfo.value, eval_app, FuncDecl.apply]
    · refine ⟨declared, _, [], rfl, free.enums _ _ found, ?_, rfl⟩
      rw [getD_eq_getElem?_getD, List.getElem?_eq_getElem inside]
      exact mem_map.mpr ⟨_, getElem_mem inside, rfl⟩
  | @datatype address declared info item arguments found member _ each =>
    obtain ⟨values, means, typed⟩ := values_mean (each.imp fun _ _ known => known.choose_spec)
    refine ⟨.con item.name values, fun assignment => ?_, declared, _, _, rfl,
      free.datatypes _ _ found, mem_map_of_mem member, typed⟩
    rw [eval_app, means]
    simp [DatatypeCaseInfo.constructor, FuncDecl.apply, Function.comp_def, Element.toValue]
  | tuple _ _ left right =>
    obtain ⟨first, means, typed⟩ := left
    obtain ⟨second, means', typed'⟩ := right
    refine ⟨.pair first second, fun assignment => ?_, _, _, rfl, typed, typed'⟩
    simp [eval_app, FuncDecl.apply, means, means', Element.toValue]

/-- An array of values means a table of its type. -/
theorem TableTerm.means (free : runtime.Free interp) (table : TableTerm runtime key range term) :
    ∃ entry, (∀ assignment,
      eval interp term assignment = .table entry) ∧
      (Element.table entry).Inhabits interp.shapes (.table key.meaning range.meaning) := by
  induction table with
  | rest value =>
    obtain ⟨rest, means, typed⟩ := value.means free
    refine ⟨open Classical in fun other =>
      if Inhabits interp.shapes other key.meaning then rest else default,
      fun assignment => ?_, key.meaning, range.meaning, rfl, ?_, ?_⟩
    · rw [eval_app, map_singleton, means]
      rfl
    · intro other inside
      simpa only [if_pos inside] using typed
    · intro other outside
      simp only [if_neg outside]
  | store _ at_ stored ih =>
    obtain ⟨entry, means, _, _, same, inside, outside⟩ := ih
    cases same
    obtain ⟨place, meansPlace, typedPlace⟩ := at_.means free
    obtain ⟨value, meansValue, typedValue⟩ := stored.means free
    refine ⟨open Classical in fun other => if other = place then value else entry other,
      fun assignment => ?_, key.meaning, range.meaning, rfl, ?_, ?_⟩
    · simp only [eval_app, map_cons, map_nil, means, meansPlace, meansValue]
      rfl
    · intro other within
      by_cases here : other = place
      · simpa only [if_pos here] using typedValue
      · simpa only [if_neg here] using inside other within
    · intro other without
      have elsewhere : other ≠ place := by
        rintro rfl
        exact without typedPlace
      simpa only [if_neg elsewhere] using outside other without

theorem GroundValue.constants (ground : GroundValue runtime term type) : term.constants = [] := by
  induction ground using GroundValue.members_induction with
  | boolean value => simp [Term.boolVal, Term.constants]
  | integer => rfl
  | enumeration => simp [EnumInfo.value, Term.constants]
  | datatype _ _ _ each =>
    rw [Term.constants, Term.constantsAll_eq, flatMap_eq_nil_iff]
    intro argument member
    obtain ⟨type, -, -, none⟩ := exists_of_forall₂_right each.flip member
    exact none
  | tuple _ _ left right => simp [Term.constants, left, right]

theorem GroundValue.quantifierFree (ground : GroundValue runtime term type) :
    term.quantifierFree = true := by
  induction ground using GroundValue.members_induction with
  | boolean value => cases value <;> rfl
  | integer => rfl
  | enumeration => rfl
  | datatype _ _ _ each =>
    rw [Term.quantifierFree, Term.quantifierFreeAll_iff]
    intro argument member
    obtain ⟨type, -, -, plain⟩ := exists_of_forall₂_right each.flip member
    exact plain
  | tuple _ _ left right => simp [Term.quantifierFree, left, right]

theorem TableTerm.constants (table : TableTerm runtime key range term) : term.constants = [] := by
  induction table with
  | rest value => simp [Term.constants, value.constants]
  | store _ at_ stored ih => simp [Term.constants, ih, at_.constants, stored.constants]

end Fine.RuntimeDetail
