import Fine.Runtime.Total

/-!
# Every type has an element

The solver refuses a datatype without a base constructor, so every type that is known has an
element.
-/

namespace Fine.RuntimeDetail

open Fine.Syntax Fine.Semantics Fine.Fallible List

variable {runtime later : Runtime} {interp : Interp}

/-- Every declared type is the free algebra of its cases. -/
structure Runtime.Free (runtime : Runtime) (interp : Interp) : Prop where
  datatypes : runtime.Algebras interp
  enums : ∀ name info, runtime.enums.lookup name = some info →
    interp.shapes name = some (info.caseNames.map fun item => (item, []))

def Runtime.Peopled (runtime : Runtime) (interp : Interp) : Prop :=
  ∀ name type, (name, type) ∈ runtime.types → ∃ value, Inhabits interp.shapes value type.meaning

variable {type : RuntimeType} {declaration : EnumDecl}

theorem Runtime.TypesValid.object_cases (valid : runtime.TypesValid)
    (known : type ∈ runtime.objects) :
    (∃ name, (name, type) ∈ runtime.types) ∨ CompoundObject runtime.objects type := by
  rcases mem_append.mp known with named | compound
  · obtain ⟨⟨name, _⟩, member, rfl⟩ := mem_map.mp named
    exact .inl ⟨name, member⟩
  · obtain ⟨⟨key, _⟩, member, rfl⟩ := mem_map.mp compound
    exact .inr (valid.compound key _ member).2

/-- With values of named types, all types have elements. -/
theorem Runtime.Peopled.element (peopled : runtime.Peopled interp) (valid : runtime.TypesValid)
    (type : RuntimeType) (known : type ∈ runtime.objects) :
    ∃ element : Element, element.Inhabits interp.shapes type.meaning := by
  have named : ∀ {type}, (∃ name, (name, type) ∈ runtime.types) →
      ∃ element : Element, element.Inhabits interp.shapes type.meaning := by
    rintro type ⟨name, member⟩
    obtain ⟨value, inside⟩ := peopled name type member
    exact ⟨.plain value, inside⟩
  induction type with
  | boolean => exact ⟨.plain (.bool true), rfl⟩
  | integer => exact ⟨.plain (.int 0), rfl⟩
  | enumeration address name | datatype address name =>
    rcases valid.object_cases known with is | ⟨_, _, -, -, -, -, ⟨_, _, shape⟩ | ⟨_, shape⟩⟩
    · exact named is
    · cases shape
    · cases shape
  | tuple address sequence first second firstIh secondIh =>
    rcases valid.object_cases known with
      is | ⟨_, _, one, two, flat, flat', ⟨_, _, shape⟩ | ⟨_, shape⟩⟩
    · exact named is
    · cases shape
      obtain ⟨left, inLeft⟩ := firstIh one
      obtain ⟨right, inRight⟩ := secondIh two
      have here := (inLeft.toValue ((RuntimeType.isTable_meaning _).trans flat)).2
      have there := (inRight.toValue ((RuntimeType.isTable_meaning _).trans flat')).2
      exact ⟨.plain (.pair left.toValue right.toValue), _, _, rfl, here, there⟩
    · cases shape
  | table address key value keyIh valueIh =>
    rcases valid.object_cases known with
      is | ⟨_, _, -, two, -, flat, ⟨_, _, shape⟩ | ⟨_, shape⟩⟩
    · exact named is
    · cases shape
    · cases shape
      obtain ⟨entry, inside⟩ := valueIh two
      have there := (inside.toValue ((RuntimeType.isTable_meaning _).trans flat)).2
      classical
      refine ⟨.table fun other => if Inhabits interp.shapes other key.sort.meaning then
        entry.toValue else default, _, _, rfl, fun other is => ?_, fun other is => if_neg is⟩
      show Inhabits _ (if Inhabits interp.shapes other key.sort.meaning then _ else _) _
      rw [if_pos is]
      exact there

theorem exists_fields {types : List RuntimeType} (flat : ∀ type ∈ types, type.isTable = false)
    (each : ∀ type ∈ types, ∃ element : Element, element.Inhabits interp.shapes type.meaning) :
    ∃ values, Forall₂ (Inhabits interp.shapes) values (types.map RuntimeType.meaning) := by
  induction types with
  | nil => exact ⟨[], .nil⟩
  | cons type types ih =>
    obtain ⟨element, inside⟩ := each type (by simp)
    obtain ⟨values, rest⟩ := ih (fun other member => flat other (by simp [member]))
      fun other member => each other (by simp [member])
    have value := (inside.toValue ((RuntimeType.isTable_meaning _).trans (flat type (by simp)))).2
    exact ⟨element.toValue :: values, .cons value rest⟩

theorem Runtime.Free.before (free : later.Free interp)
    (datatypes : ∀ name info, runtime.datatypes.lookup name = some info →
      later.datatypes.lookup name = some info)
    (enums : ∀ name info, runtime.enums.lookup name = some info →
      later.enums.lookup name = some info) : runtime.Free interp where
  datatypes name info found := free.datatypes name info (datatypes name info found)
  enums name info found := free.enums name info (enums name info found)

theorem EnumDeclared.free (declared : EnumDeclared declaration runtime later)
    (free : later.Free interp) : runtime.Free interp := by
  cases declared with
  | datatype =>
    exact free.before (fun name info found => Map.emplace_keeps found) fun _ _ => id
  | enumeration =>
    exact free.before (fun _ _ => id) fun name info found => Map.emplace_keeps found

/-- A new type has a value. -/
theorem EnumDeclared.peopled (declared : EnumDeclared declaration runtime later)
    (formed : runtime.WellFormed) (free : later.Free interp) (peopled : runtime.Peopled interp) :
    later.Peopled interp := by
  cases declared with
  | @datatype info _ new named of founded =>
    have types : (runtime.addDatatype info).types = (info.name, info.type) :: runtime.types :=
      Map.emplace_of_lookup new.fresh
    have found : (runtime.addDatatype info).datatypes.lookup info.name = some info := by
      have lookup := Runtime.lookup_declaration
        (fun name found old => (formed.tables.constructors name found old).2.1) new.fresh info
        info.name
      rwa [if_pos rfl] at lookup
    intro name type member
    rw [types] at member
    rcases mem_cons.mp member with same | old
    · cases same
      obtain ⟨item, inside, fields⟩ := founded
      obtain ⟨values, typed⟩ := exists_fields
        (fun type member => (new.fields item inside type member).1)
        fun type member => peopled.element formed.types type (fields type member)
      refine ⟨.con item.name values, ?_⟩
      rw [new.type]
      exact ⟨_, _, _, rfl, free.datatypes _ _ found, mem_map_of_mem inside,
        inhabitsAll_iff.mpr typed⟩
    · exact peopled name type old
  | @enumeration info _ new named cases nonempty =>
    have types : (runtime.addEnum info).types = (info.name, info.type) :: runtime.types :=
      Map.emplace_of_lookup new.fresh
    have found : (runtime.addEnum info).enums.lookup info.name = some info := by
      have lookup := Runtime.lookup_declaration
        (fun name found old => (formed.tables.cases name found old).2.1) new.fresh info info.name
      rwa [if_pos rfl] at lookup
    intro name type member
    rw [types] at member
    rcases mem_cons.mp member with same | old
    · cases same
      obtain ⟨item, items, written⟩ := exists_cons_of_ne_nil nonempty
      have inside : item.name ∈ info.caseNames := by
        rw [cases, written]
        simp
      refine ⟨.con item.name [], ?_⟩
      rw [new.type]
      exact ⟨_, _, _, rfl, free.enums _ _ found, mem_map_of_mem inside, rfl⟩
    · exact peopled name type old

/-- States with the same types have the same values. -/
structure SameTypes (first second : Runtime) : Prop where
  types : second.types = first.types
  datatypes : second.datatypes = first.datatypes
  enums : second.enums = first.enums

theorem SameTypes.free (same : SameTypes runtime later) (free : later.Free interp) :
    runtime.Free interp := by
  refine free.before (fun name info found => ?_) fun name info found => ?_
  · rw [same.datatypes, found]
  · rw [same.enums, found]

theorem SameTypes.peopled (same : SameTypes runtime later) (peopled : runtime.Peopled interp) :
    later.Peopled interp := by
  intro name type member
  rw [same.types] at member
  exact peopled name type member

theorem Extends.sameTypes (extends_ : Extends runtime later) : SameTypes runtime later := by
  obtain ⟨_, _, _, _, rfl⟩ := extends_
  exact ⟨rfl, rfl, rfl⟩

theorem Reached.peopled (reached : Reached runtime) (free : runtime.Free interp) :
    runtime.Peopled interp := by
  induction reached with
  | initial =>
    intro name type member
    simp only [Runtime.initial, mem_cons, Prod.mk.injEq, not_mem_nil, or_false] at member
    rcases member with ⟨-, rfl⟩ | ⟨-, rfl⟩
    · exact ⟨.int 0, rfl⟩
    · exact ⟨.bool true, rfl⟩
  | @declared runtime later declaration reached run ih =>
    have order := reached.inOrder
    by_cases enum : ∃ item, declaration = .enum item
    · obtain ⟨item, rfl⟩ := enum
      obtain ⟨middle, advances, declared⟩ := declareEnum_ok order.formed run
      have before := declared.free free
      have same := advances.extends_.sameTypes
      exact declared.peopled (advances.wellFormed order.formed) free
        (same.peopled (ih (same.free before)))
    · have tables := ((declare_leaves order run).2.1 fun item is => enum ⟨item, is⟩).1
      simp only [Runtime.typeTables, Prod.mk.injEq] at tables
      have same : SameTypes runtime later := ⟨tables.1, tables.2.1, tables.2.2.1⟩
      exact same.peopled (ih (same.free free))
  | @proved runtime middle output proofs reached advances ih =>
    have same := advances.extends_.sameTypes
    have after : SameTypes runtime { middle with output := output, admittedProofs := proofs } :=
      ⟨same.types, same.datatypes, same.enums⟩
    exact after.peopled (ih (after.free free))

theorem Reached.element (reached : Reached runtime) (free : runtime.Free interp)
    (known : type ∈ runtime.objects) :
    ∃ element : Element, element.Inhabits interp.shapes type.meaning :=
  (reached.peopled free).element reached.inOrder.formed.types type known

end Fine.RuntimeDetail
