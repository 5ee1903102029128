import Fine.Runtime.Check
import Fine.Runtime.Inhabited

/-!
# Values and their source

A ground value is built by constructors alone. It is lifted to an expression that is elaborated, and
read in a cell, as that value.
-/

namespace Fine.RuntimeDetail

open Fine.Syntax Fine.Semantics Fine.Fallible List

variable {runtime : Runtime}

/-- The term is a value of the type. -/
inductive GroundValue (runtime : Runtime) : Term → RuntimeType → Prop where
  | boolean (value : Bool) (address : Nat) :
      GroundValue runtime (.boolVal value) (.boolean address)
  | integer (value : Int) (address : Nat) : GroundValue runtime (.numeral value) (.integer address)
  | enumeration {address : Nat} {declared : Identifier} {info : EnumInfo} {index : Nat} :
      runtime.enums.lookup declared = some info → index < info.caseNames.length →
      GroundValue runtime (info.value index) (.enumeration address declared)
  | datatype {address : Nat} {declared : Identifier} {info : DatatypeInfo}
      {item : DatatypeCaseInfo} {arguments : List Term} :
      runtime.datatypes.lookup declared = some info → item ∈ info.cases →
      Forall₂ (GroundValue runtime) arguments item.fieldTypes →
      GroundValue runtime (.app item.constructor arguments) (.datatype address declared)
  | tuple {address sequence : Nat} {first second : RuntimeType} {left right : Term} :
      GroundValue runtime left first → GroundValue runtime right second →
      GroundValue runtime (.app (.tuple sequence first.sort second.sort) [left, right])
        (.tuple address sequence first second)

variable {term : Term} {type : RuntimeType} {elements : List Expr} {terms : List Term}
  {types : List RuntimeType} {declared : Identifier}

theorem GroundValue.members_induction {motive : ∀ term type, GroundValue runtime term type → Prop}
    (boolean : ∀ value address, motive _ _ (.boolean value address))
    (integer : ∀ value address, motive _ _ (.integer value address))
    (enumeration : ∀ {address declared info index}
      (found : runtime.enums.lookup declared = some info) (inside : index < info.caseNames.length),
      motive _ (.enumeration address declared) (.enumeration found inside))
    (datatype : ∀ {address declared info item arguments}
      (found : runtime.datatypes.lookup declared = some info) (member : item ∈ info.cases)
      (inner : Forall₂ (GroundValue runtime) arguments item.fieldTypes),
      Forall₂ (fun term type => ∃ ground, motive term type ground) arguments item.fieldTypes →
      motive _ (.datatype address declared) (.datatype found member inner))
    (tuple : ∀ {address sequence first second left right} (one : GroundValue runtime left first)
      (two : GroundValue runtime right second), motive _ _ one → motive _ _ two →
      motive _ (.tuple address sequence first second) (.tuple one two))
    (ground : GroundValue runtime term type) : motive term type ground :=
  @GroundValue.rec runtime motive
    (fun arguments types _ => Forall₂ (fun term type => ∃ ground, motive term type ground)
      arguments types) boolean integer enumeration datatype tuple .nil
    (fun ground _ head tail => .cons ⟨ground, head⟩ tail) _ _ ground

mutual

/-- The expression spells the value of the type. -/
def Spells (runtime : Runtime) : Expr → Term → RuntimeType → Prop
  | .boolean _ value, term, type => (∃ address, type = .boolean address) ∧ term = .boolVal value
  | .integer _ literal, term, type =>
    (∃ address, type = .integer address) ∧ term = .numeral literal.value
  | .name _ name, term, type =>
    (∃ address declared info index, type = .enumeration address declared ∧
      runtime.enums.lookup declared = some info ∧ (name, index) ∈ info.caseNames.zipIdx ∧
      term = info.value index) ∨
    ∃ address declared info item, type = .datatype address declared ∧
      runtime.datatypes.lookup declared = some info ∧ item ∈ info.cases ∧ item.name = name ∧
      item.fieldTypes = [] ∧ term = .app item.constructor []
  | .call _ name elements, term, type => ∃ address declared info item arguments,
    type = .datatype address declared ∧ runtime.datatypes.lookup declared = some info ∧
    item ∈ info.cases ∧ item.name = name ∧ term = .app item.constructor arguments ∧
    SpellsAll runtime elements arguments item.fieldTypes
  | .tuple _ elements, term, type => ∃ address sequence first second arguments,
    type = .tuple address sequence first second ∧
    term = .app (.tuple sequence first.sort second.sort) arguments ∧
    SpellsAll runtime elements arguments [first, second]
  | .binary _ _ _ _, _, _ => False
  | .conditional _ _ _ _, _, _ => False
  | .hole _ _, _, _ => False

/-- Expressions spell values of the types, one by one. -/
def SpellsAll (runtime : Runtime) : List Expr → List Term → List RuntimeType → Prop
  | [], terms, types => terms = [] ∧ types = []
  | element :: elements, terms, types => ∃ term later type more, terms = term :: later ∧
    types = type :: more ∧ Spells runtime element term type ∧ SpellsAll runtime elements later more

end

theorem SpellsAll.length (spells : SpellsAll runtime elements terms types) :
    elements.length = terms.length ∧ elements.length = types.length := by
  induction elements generalizing terms types with
  | nil => simp [spells.1, spells.2]
  | cons element elements ih =>
    obtain ⟨term, later, type, more, rfl, rfl, -, rest⟩ := spells
    have lengths := ih rest
    simp [← lengths.1, ← lengths.2]

theorem spells_strip (expression : Expr) :
    Spells runtime expression.strip term type ↔ Spells runtime expression term type := by
  have all : ∀ {elements : List Expr}, (∀ element ∈ elements, ∀ {term : Term}
      {type : RuntimeType}, Spells runtime element.strip term type ↔
        Spells runtime element term type) → ∀ {terms : List Term} {types : List RuntimeType},
      SpellsAll runtime (elements.map Expr.strip) terms types ↔
        SpellsAll runtime elements terms types := by
    intro elements each
    induction elements with
    | nil => simp
    | cons element elements ih =>
      intro terms types
      simp only [map_cons, SpellsAll, each element mem_cons_self,
        ih fun other member => each other (mem_cons_of_mem _ member)]
  induction expression generalizing term type with
  | name | boolean | integer | hole => rfl
  | tuple info elements ih | call info name elements ih => simp [Expr.strip, Spells, all ih]
  | binary | conditional => rfl

theorem Spells.readable {expression : Expr} (spells : Spells runtime expression term type) :
    expression.readable = true := by
  have all : ∀ {elements : List Expr}, (∀ element ∈ elements, ∀ {term : Term}
      {type : RuntimeType}, Spells runtime element term type → element.readable = true) →
      ∀ {terms : List Term} {types : List RuntimeType}, SpellsAll runtime elements terms types →
        readableAll elements = true := by
    intro elements each
    induction elements with
    | nil => intros; rfl
    | cons element elements ih =>
      rintro terms types ⟨term, later, type, more, rfl, rfl, head, tail⟩
      rw [readableAll, each element mem_cons_self head,
        ih (fun other member => each other (mem_cons_of_mem _ member)) tail]
      rfl
  induction expression generalizing term type with
  | name | boolean | integer | hole => rfl
  | tuple info elements ih =>
    obtain ⟨_, _, first, second, arguments, -, -, inner⟩ := spells
    have pair : elements.length = 2 := inner.length.2
    rw [Expr.readable, pair, all ih inner]
    rfl
  | call info name elements ih =>
    obtain ⟨_, _, _, _, arguments, -, -, -, -, -, inner⟩ := spells
    exact all ih inner
  | binary | conditional => exact spells.elim

/-- What an expression spells is a value. -/
theorem Spells.ground {expression : Expr} (spells : Spells runtime expression term type) :
    GroundValue runtime term type := by
  have all : ∀ {elements : List Expr}, (∀ element ∈ elements, ∀ {term : Term}
      {type : RuntimeType}, Spells runtime element term type → GroundValue runtime term type) →
      ∀ {terms : List Term} {types : List RuntimeType}, SpellsAll runtime elements terms types →
        Forall₂ (GroundValue runtime) terms types := by
    intro elements each
    induction elements with
    | nil =>
      rintro terms types ⟨rfl, rfl⟩
      exact .nil
    | cons element elements ih =>
      rintro terms types ⟨term, later, type, more, rfl, rfl, head, tail⟩
      exact .cons (each element mem_cons_self head)
        (ih (fun other member => each other (mem_cons_of_mem _ member)) tail)
  induction expression generalizing term type with
  | boolean | integer =>
    obtain ⟨⟨_, rfl⟩, rfl⟩ := spells
    constructor
  | name info name =>
    rcases spells with ⟨_, _, entry, index, rfl, found, member, rfl⟩ |
      ⟨_, _, entry, item, rfl, found, member, -, flat, rfl⟩
    · exact .enumeration found (snd_lt_of_mem_zipIdx member)
    · exact .datatype found member (by rw [flat]; exact .nil)
  | call info name elements ih =>
    obtain ⟨_, _, entry, item, arguments, rfl, found, member, -, rfl, inner⟩ := spells
    exact .datatype found member (all ih inner)
  | tuple info elements ih =>
    obtain ⟨_, _, first, second, arguments, rfl, rfl, inner⟩ := spells
    obtain ⟨left, _, one, rest, rfl⟩ := forall₂_cons_right_iff.mp (all ih inner)
    obtain ⟨right, _, two, none, rfl⟩ := forall₂_cons_right_iff.mp rest
    rw [forall₂_nil_right_iff.mp none]
    exact .tuple one two
  | binary | conditional | hole => exact spells.elim

theorem SpellsAll.readable (spells : SpellsAll runtime elements terms types) :
    ∀ element ∈ elements, element.readable = true := by
  induction elements generalizing terms types with
  | nil => simp
  | cons element elements ih =>
    obtain ⟨term, later, type, more, rfl, rfl, head, tail⟩ := spells
    exact forall_mem_cons.mpr ⟨head.readable, ih tail⟩

variable {address : Nat} {info : DatatypeInfo} {first second : RuntimeType}

theorem Runtime.TypesValid.declared_lookup (valid : runtime.TypesValid)
    (listed : type ∈ runtime.objects)
    (is : type = .enumeration address declared ∨ type = .datatype address declared) :
    runtime.types.lookup declared = some type := by
  rcases valid.object_cases listed with
    ⟨name, member⟩ | ⟨_, _, -, -, -, -, ⟨_, _, shape⟩ | ⟨_, shape⟩⟩
  · apply Map.lookup_of_mem valid.namedKeys
    rcases valid.named name type member with ⟨-, _, shape⟩ | ⟨-, _, shape⟩ |
      ⟨-, -, ⟨_, shape⟩ | ⟨_, shape⟩⟩
    all_goals
      rw [shape] at is
      simp only [reduceCtorEq, or_self, RuntimeType.enumeration.injEq,
        RuntimeType.datatype.injEq, or_false, false_or] at is
    · rwa [← is.2]
    · rwa [← is.2]
  · rw [shape] at is
    simp at is
  · rw [shape] at is
    simp at is

theorem Runtime.WellFormed.enum_type (formed : runtime.WellFormed)
    (listed : RuntimeType.enumeration address declared ∈ runtime.objects) {info : EnumInfo}
    (found : runtime.enums.lookup declared = some info) :
    info.type = .enumeration address declared := by
  have known := (formed.tables.cases declared info found).2.1
  rw [formed.types.declared_lookup listed (.inl rfl)] at known
  exact (Option.some.inj known).symm

theorem Runtime.WellFormed.datatype_type (formed : runtime.WellFormed)
    (listed : RuntimeType.datatype address declared ∈ runtime.objects)
    (found : runtime.datatypes.lookup declared = some info) :
    info.type = .datatype address declared := by
  have known := (formed.tables.constructors declared info found).2.1
  rw [formed.types.declared_lookup listed (.inr rfl)] at known
  exact (Option.some.inj known).symm

@[simp] theorem RuntimeType.same_self (type : RuntimeType) : type.same type = true := by
  simp [RuntimeType.same]

/-- A compound object is kept under its text, and its parts are objects. -/
theorem Runtime.TypesValid.compound_lookup (valid : runtime.TypesValid)
    (listed : type ∈ runtime.objects)
    (is : (∃ address sequence, type = .tuple address sequence first second) ∨
      ∃ address, type = .table address first second) :
    runtime.compoundTypes.lookup type.display = some type ∧ first ∈ runtime.objects ∧
      second ∈ runtime.objects ∧ first.isTable = false ∧ second.isTable = false := by
  have member : ∃ key, (key, type) ∈ runtime.compoundTypes := by
    rcases mem_append.mp listed with named | compound
    · obtain ⟨⟨name, other⟩, member, same⟩ := mem_map.mp named
      cases same
      rcases valid.named name _ member with ⟨-, _, rfl⟩ | ⟨-, _, rfl⟩ | ⟨-, -, ⟨_, rfl⟩ | ⟨_, rfl⟩⟩ <;>
        simp at is
    · obtain ⟨⟨key, other⟩, member, same⟩ := mem_map.mp compound
      cases same
      exact ⟨key, member⟩
  obtain ⟨key, member⟩ := member
  obtain ⟨rfl, left, right, one, two, flat, flat', shape⟩ := valid.compound key type member
  refine ⟨Map.lookup_of_mem valid.compoundKeys member, ?_⟩
  have parts : left = first ∧ right = second := by
    rcases is with ⟨_, _, rfl⟩ | ⟨_, rfl⟩ <;> rcases shape with ⟨_, _, other⟩ | ⟨_, other⟩ <;>
      cases other <;> exact ⟨rfl, rfl⟩
  rw [← parts.1, ← parts.2]
  exact ⟨one, two, flat, flat'⟩

theorem resolveType_named {name : Identifier} (found : runtime.types.lookup name = some type)
    {written : TypeSyntax} (is : written.strip = .named {} name) :
    (resolveType written).run runtime = .ok (type, runtime) := by
  cases written with
  | named span other =>
    rw [TypeSyntax.strip, TypeSyntax.named.injEq] at is
    rw [resolveType, namedType, run_get_bind, is.2, found]
    rfl
  | tuple | table => cases is

theorem tupleType_found (valid : runtime.TypesValid) (listed : type ∈ runtime.objects)
    (is : ∃ address sequence, type = .tuple address sequence first second) (span : SourceSpan) :
    (tupleType first second span).run runtime = .ok (type, runtime) := by
  obtain ⟨found, -, -, flat, flat'⟩ := valid.compound_lookup listed (.inl is)
  obtain ⟨address, sequence, rfl⟩ := is
  rw [RuntimeType.display] at found
  simp only [tupleType, flat, flat', Bool.or_self, Bool.false_eq_true, if_false, run_get_bind, found]
  rfl

theorem tableType_found (valid : runtime.TypesValid) (listed : type ∈ runtime.objects)
    (is : ∃ address, type = .table address first second) (span : SourceSpan) :
    (tableType first second span).run runtime = .ok (type, runtime) := by
  obtain ⟨found, -, -, flat, flat'⟩ := valid.compound_lookup listed (.inr is)
  obtain ⟨address, rfl⟩ := is
  rw [RuntimeType.display] at found
  simp only [tableType, flat, flat', Bool.or_self, Bool.false_eq_true, if_false, run_get_bind, found]
  rfl

/-- A written type of an object gives the object. -/
theorem resolveType_written (valid : runtime.TypesValid) (written : TypeSyntax)
    (listed : type ∈ runtime.objects) (is : written.strip = type.meaning.written) :
    (resolveType written).run runtime = .ok (type, runtime) := by
  induction type generalizing written with
  | boolean address =>
    have same : runtime.boolType = .boolean address := by
      obtain ⟨other, shape⟩ := valid.bool_eq
      exact valid.unique valid.bool_mem listed (by rw [shape]; rfl)
    exact resolveType_named (same ▸ valid.bool) is
  | integer address =>
    have same : runtime.intType = .integer address := by
      obtain ⟨other, shape⟩ := valid.int_eq
      exact valid.unique valid.int_mem listed (by rw [shape]; rfl)
    exact resolveType_named (same ▸ valid.int) is
  | enumeration address name =>
    exact resolveType_named (valid.declared_lookup listed (.inl rfl)) is
  | datatype address name =>
    exact resolveType_named (valid.declared_lookup listed (.inr rfl)) is
  | tuple address sequence first second firstIh secondIh =>
    obtain ⟨-, one, two, -, -⟩ := valid.compound_lookup listed (.inl ⟨_, _, rfl⟩)
    cases written with
    | named | table => cases is
    | tuple span arguments =>
      match arguments with
      | [left, right] =>
        simp only [RuntimeType.meaning, RuntimeType.sort, Z3Sort.meaning, FineType.written,
          TypeSyntax.strip, TypeSyntax.stripAll, TypeSyntax.tuple.injEq, List.cons.injEq,
          and_true, true_and] at is
        rw [resolveType, run_bind_of_ok (firstIh left one is.1),
          run_bind_of_ok (secondIh right two is.2)]
        exact tupleType_found valid listed ⟨_, _, rfl⟩ span
      | [] | [_] | _ :: _ :: _ :: _ =>
        simp [RuntimeType.meaning, RuntimeType.sort, Z3Sort.meaning, FineType.written,
          TypeSyntax.strip, TypeSyntax.stripAll] at is
  | table address key value keyIh valueIh =>
    obtain ⟨-, one, two, -, -⟩ := valid.compound_lookup listed (.inr ⟨_, rfl⟩)
    cases written with
    | named | tuple => cases is
    | table span left right =>
      simp only [RuntimeType.meaning, RuntimeType.sort, Z3Sort.meaning, FineType.written,
        TypeSyntax.strip, TypeSyntax.table.injEq, true_and] at is
      rw [resolveType, run_bind_of_ok (keyIh left one is.1),
        run_bind_of_ok (valueIh right two is.2)]
      exact tableType_found valid listed ⟨_, rfl⟩ span

/-- Arguments are elaborated as the values they spell, if each is. -/
theorem elaborateArguments_spelled
    (each : ∀ element ∈ elements, ∀ {term : Term} {type : RuntimeType}, type ∈ runtime.objects →
      Spells runtime element term type →
      (elaborate [] element).run runtime = .ok (⟨type, term⟩, runtime))
    (mismatch : Nat → RuntimeType → String) (index : Nat)
    (listed : ∀ type ∈ types, type ∈ runtime.objects)
    (spells : SpellsAll runtime elements terms types) :
    (elaborateArguments [] mismatch index elements types).run runtime = .ok (terms, runtime) := by
  induction elements generalizing index terms types with
  | nil =>
    obtain ⟨rfl, rfl⟩ := spells
    rfl
  | cons element elements ih =>
    obtain ⟨term, later, type, more, rfl, rfl, head, tail⟩ := spells
    have first := each element mem_cons_self (listed type mem_cons_self) head
    have rest := ih (fun other member => each other (mem_cons_of_mem _ member)) (index + 1)
      (fun other member => listed other (mem_cons_of_mem _ member)) tail
    rw [elaborateArguments, run_bind_of_ok first, if_neg (by simp), run_bind_of_ok rest]
    rfl

/-- An expression is elaborated as the value it spells. -/
theorem elaborate_spelled (formed : runtime.WellFormed) (expression : Expr)
    (listed : type ∈ runtime.objects) (spells : Spells runtime expression term type) :
    (elaborate [] expression).run runtime = .ok (⟨type, term⟩, runtime) := by
  induction expression generalizing term type with
  | boolean info value =>
    obtain ⟨⟨address, rfl⟩, rfl⟩ := spells
    obtain ⟨other, shape⟩ := formed.types.bool_eq
    have same := formed.types.unique formed.types.bool_mem listed (by rw [shape]; rfl)
    rw [elaborate, run_get_bind, same]
    rfl
  | integer info literal =>
    obtain ⟨⟨address, rfl⟩, rfl⟩ := spells
    obtain ⟨other, shape⟩ := formed.types.int_eq
    have same := formed.types.unique formed.types.int_mem listed (by rw [shape]; rfl)
    rw [elaborate, run_get_bind, same]
    rfl
  | name info name =>
    rcases spells with ⟨address, declared, entry, index, rfl, found, member, rfl⟩ |
      ⟨address, declared, entry, item, rfl, found, member, rfl, flat, rfl⟩
    · have known := (formed.tables.cases declared entry found).2.2 _ member
      rw [← formed.enum_type listed found]
      simp only [elaborate, elaborateName, lookup_nil, run_get_bind, known]
      rfl
    · have known := (formed.tables.constructors declared entry found).2.2 item member
      have other := formed.tables.apart item.name (by rw [known]; rfl)
      rw [← formed.datatype_type listed found]
      simp only [elaborate, elaborateName, lookup_nil, run_get_bind, other, known, flat,
        isEmpty_nil, if_true]
      rfl
  | call info name elements ih =>
    obtain ⟨address, declared, entry, item, arguments, rfl, found, member, rfl, rfl, inner⟩ := spells
    have known := (formed.tables.constructors declared entry found).2.2 item member
    have callee : runtime.callee? item.name = some (constructorCallee item.name entry item) := by
      rw [Runtime.callee?, known]
    have fields := (formed.names.constructors item.name entry item known).2.2.2.2
    have terms := elaborateArguments_spelled ih (constructorCallee item.name entry item).mismatch 0
      fields inner
    have length : elements.length = item.fieldTypes.length := inner.length.2
    rw [← formed.datatype_type listed found, elaborate, run_get_bind, callee]
    show StateT.run (if elements.length != item.fieldTypes.length then _ else _) runtime = _
    rw [if_neg (by simp [length])]
    exact run_bind_of_ok terms
  | tuple info elements ih =>
    obtain ⟨address, sequence, first, second, arguments, rfl, rfl, inner⟩ := spells
    obtain ⟨-, one, two, -, -⟩ := formed.types.compound_lookup listed (.inl ⟨_, _, rfl⟩)
    rcases elements with _ | ⟨left, _ | ⟨right, _ | _⟩⟩
    case cons.cons.nil =>
      obtain ⟨term, later, _, _, rfl, same, head, tail⟩ := inner
      cases same
      obtain ⟨term', later, _, _, rfl, same, next, last⟩ := tail
      cases same
      obtain ⟨rfl, -⟩ := last
      have firstRun := ih left (by simp) one head
      have secondRun := ih right (by simp) two next
      rw [elaborate, run_bind_of_ok firstRun, run_bind_of_ok secondRun, elaboratePair,
        run_bind_of_ok (tupleType_found formed.types listed ⟨_, _, rfl⟩ _)]
      rfl
    all_goals exact absurd inner.length.2 (by simp)
  | binary | conditional | hole => exact spells.elim

theorem values_spelled
    (each : ∀ element ∈ elements, ∀ {term : Term} {type : RuntimeType}, type ∈ runtime.objects →
      Spells runtime element term type → (value element type).run runtime = .ok (term, runtime))
    (listed : ∀ type ∈ types, type ∈ runtime.objects)
    (spells : SpellsAll runtime elements terms types) :
    (values elements types).run runtime = .ok (terms, runtime) := by
  induction elements generalizing terms types with
  | nil =>
    obtain ⟨rfl, rfl⟩ := spells
    rfl
  | cons element elements ih =>
    obtain ⟨term, later, type, more, rfl, rfl, head, tail⟩ := spells
    have first := each element mem_cons_self (listed type mem_cons_self) head
    have rest := ih (fun other member => each other (mem_cons_of_mem _ member))
      (fun other member => listed other (mem_cons_of_mem _ member)) tail
    rw [values, run_bind_of_ok first, run_bind_of_ok rest]
    rfl

theorem expectedConstructor_known (formed : runtime.WellFormed)
    (listed : RuntimeType.datatype address declared ∈ runtime.objects)
    (found : runtime.datatypes.lookup declared = some info) {item : DatatypeCaseInfo}
    (member : item ∈ info.cases) (span : SourceSpan) :
    (expectedConstructor span item.name (.datatype address declared)).run runtime =
      .ok (item, runtime) := by
  have known := (formed.tables.constructors declared info found).2.2 item member
  simp only [expectedConstructor, run_get_bind, known, formed.datatype_type listed found,
    RuntimeType.same_self, Bool.not_true, Bool.false_eq_true, if_false]
  rfl

/-- An expression is read in a cell as the value it spells. -/
theorem value_spelled (formed : runtime.WellFormed) (expression : Expr)
    (listed : type ∈ runtime.objects) (spells : Spells runtime expression term type) :
    (value expression type).run runtime = .ok (term, runtime) := by
  induction expression generalizing term type with
  | boolean info literal | integer info literal =>
    obtain ⟨⟨address, rfl⟩, rfl⟩ := spells
    rfl
  | name info name =>
    rcases spells with ⟨address, declared, entry, index, rfl, found, member, rfl⟩ |
      ⟨address, declared, entry, item, rfl, found, member, rfl, flat, rfl⟩
    · have known := (formed.tables.cases declared entry found).2.2 _ member
      simp only [value, nameValue, run_get_bind, known, formed.enum_type listed found,
        RuntimeType.same_self, Bool.not_true, Bool.false_eq_true, if_false]
      rfl
    · simp only [value, nameValue]
      rw [run_bind_of_ok (expectedConstructor_known formed listed found member info.span), flat]
      rfl
  | call info name elements ih =>
    obtain ⟨address, declared, entry, item, arguments, rfl, found, member, rfl, rfl, inner⟩ := spells
    have known := (formed.tables.constructors declared entry found).2.2 item member
    have fields := (formed.names.constructors item.name entry item known).2.2.2.2
    have terms := values_spelled ih fields inner
    have length : elements.length = item.fieldTypes.length := inner.length.2
    rw [value, run_bind_of_ok (expectedConstructor_known formed listed found member info.span)]
    simp only [length, bne_self_eq_false, Bool.false_eq_true, if_false]
    rw [run_bind_of_ok terms]
    rfl
  | tuple info elements ih =>
    obtain ⟨address, sequence, first, second, arguments, rfl, rfl, inner⟩ := spells
    obtain ⟨-, one, two, -, -⟩ := formed.types.compound_lookup listed (.inl ⟨_, _, rfl⟩)
    have terms := values_spelled ih (by simp [one, two]) inner
    have length : elements.length = 2 := inner.length.2
    simp only [value, length, bne_self_eq_false, Bool.false_eq_true, if_false]
    rw [run_bind_of_ok terms]
    rfl
  | binary | conditional | hole => exact spells.elim

theorem liftAll_ground {arguments : List Term}
    (each : Forall₂ (fun term type => ∃ expression,
      (liftTypedExpression term type).run runtime = .ok (expression, runtime) ∧
        Spells runtime expression term type) arguments types) :
    ∃ elements, (liftAll arguments types).run runtime = .ok (elements, runtime) ∧
      SpellsAll runtime elements arguments types := by
  induction each with
  | nil => exact ⟨[], rfl, rfl, rfl⟩
  | @cons term type arguments types head tail ih =>
    obtain ⟨expression, ran, spells⟩ := head
    obtain ⟨elements, ran', spells'⟩ := ih
    refine ⟨expression :: elements, ?_, term, arguments, type, types, rfl, rfl, spells, spells'⟩
    rw [liftAll, run_bind_of_ok ran, run_bind_of_ok ran']
    rfl

/-- A value is lifted to an expression that spells it. -/
theorem liftTypedExpression_ground (formed : runtime.WellFormed)
    (ground : GroundValue runtime term type) :
    ∃ expression, (liftTypedExpression term type).run runtime = .ok (expression, runtime) ∧
      Spells runtime expression term type := by
  induction ground using GroundValue.members_induction with
  | boolean value address =>
    refine ⟨.boolean {} value, ?_, ⟨_, rfl⟩, rfl⟩
    cases value <;> rfl
  | integer value address =>
    refine ⟨.integer {} (.ofInt value), rfl, ⟨_, rfl⟩, ?_⟩
    rw [IntegerText.value_ofInt]
  | @enumeration address declared info index found inside =>
    have entry : (info.caseNames.get ⟨index, inside⟩, index) ∈ info.caseNames.zipIdx := by
      rw [mem_zipIdx_iff_getElem?]
      exact List.getElem?_eq_getElem inside
    cases first : info.caseNames.zipIdx.find? fun entry => info.value index = info.value entry.2 with
    | none =>
      have missed := find?_eq_none.mp first _ entry
      simp at missed
    | some chosen =>
      have same : info.value index = info.value chosen.2 := by
        simpa using find?_some first
      refine ⟨.name {} chosen.1, ?_, .inl ⟨_, _, info, chosen.2, rfl, found,
        mem_of_find?_eq_some first, same⟩⟩
      simp only [liftTypedExpression, run_get_bind, found, first]
      rfl
  | @datatype address declared info item arguments found member inner each =>
    replace each := each.imp fun _ _ known => known.choose_spec
    obtain ⟨elements, ran, inner⟩ := liftAll_ground each
    have known := (formed.tables.constructors declared info found).2.2
    -- a constructor's declaration carries its name, which has one entry
    have first : (info.cases.find? fun other => item.constructor = other.constructor) =
        some item := by
      cases chosen : info.cases.find? fun other => item.constructor = other.constructor with
      | none =>
        have missed := find?_eq_none.mp chosen _ member
        simp at missed
      | some other =>
        have same : item.constructor = other.constructor := by
          simpa using find?_some chosen
        have one := known item member
        have two := known other (mem_of_find?_eq_some chosen)
        have name : item.name = other.name := by
          simp only [DatatypeCaseInfo.constructor, FuncDecl.constructor.injEq] at same
          exact same.1
        rw [name, two] at one
        rw [(Prod.mk.inj (Option.some.inj one)).2]
    have length : arguments.length = item.fieldTypes.length := each.length_eq
    simp only [liftTypedExpression, run_get_bind, found, first, length, bne_self_eq_false,
      Bool.false_eq_true, if_false]
    rw [run_bind_of_ok ran]
    by_cases flat : item.fieldTypes = []
    · have none : arguments = [] := by
        rw [flat] at length
        exact eq_nil_of_length_eq_zero length
      refine ⟨.name {} item.name, by simp only [flat]; rfl,
        .inr ⟨_, _, info, item, rfl, found, member, rfl, flat, by rw [none]⟩⟩
    · refine ⟨.call {} item.name elements, ?_, _, _, info, item, arguments, rfl, found, member, rfl,
        rfl, inner⟩
      rw [if_neg (by simpa using flat)]
      rfl
  | @tuple address sequence first second left right one two leftIh rightIh =>
    obtain ⟨elements, ran, inner⟩ := liftAll_ground (Forall₂.cons leftIh (.cons rightIh .nil))
    refine ⟨.tuple {} elements, ?_, _, _, first, second, _, rfl, rfl, inner⟩
    simp only [liftTypedExpression, RuntimeType.tupleConstructor, length_cons, length_nil,
      bne_self_eq_false, Bool.or_self, Bool.false_eq_true, if_false]
    rw [run_bind_of_ok ran]
    rfl

end Fine.RuntimeDetail
