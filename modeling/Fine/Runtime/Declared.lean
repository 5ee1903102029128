import Fine.Runtime.Predicate
import Fine.Runtime.Typed
import Fine.Semantics.Standard

/-!
# What declarations do

Declarations reserve names and resolve types, then fill tables under new names, which stay in order.
-/

namespace Fine.RuntimeDetail

open Fine.Syntax Fine.Semantics Fine.Fallible List

namespace Map

variable {κ α : Type} [DecidableEq κ]

theorem lookup_emplace (map : Map κ α) (key other : κ) (entry : α) :
    (map.emplace key entry).lookup other =
      (map.lookup other).or (if other = key then some entry else none) := by
  unfold emplace contains
  cases found : map.lookup key with
  | some old =>
    by_cases same : other = key
    · simp [same, found]
    · simp [same]
  | none =>
    by_cases same : other = key
    · simp [same, found]
    · rw [if_neg (by simp), lookup_cons, beq_eq_false_iff_ne.mpr same]
      simp [same]

variable {map : Map κ α} {key : κ}

theorem emplace_keeps {other : κ} {old : α} (found : map.lookup other = some old) {entry : α} :
    (map.emplace key entry).lookup other = some old := by
  rw [lookup_emplace, found, Option.some_or]

theorem emplace_cases {other : κ} {entry found : α}
    (lookup : (map.emplace key entry).lookup other = some found) :
    map.lookup other = some found ∨ other = key ∧ entry = found := by
  rw [lookup_emplace, Option.or_eq_some_iff] at lookup
  simpa using lookup.imp_right And.right

theorem lookup_emplaceAll (map : Map κ α) (entries : List (κ × α)) (key : κ) :
    (map.emplaceAll entries).lookup key = (map.lookup key).or (entries.lookup key) := by
  unfold emplaceAll
  induction entries generalizing map with
  | nil => simp
  | cons entry entries ih =>
    obtain ⟨other, found⟩ := entry
    rw [foldl_cons, ih, lookup_emplace, Option.or_assoc, lookup_cons]
    congr 1
    by_cases same : key = other
    · simp [same]
    · rw [if_neg same, beq_eq_false_iff_ne.mpr same, Option.none_or]

theorem lookup_of_not_contains (absent : ¬ map.contains key = true) : map.lookup key = none := by
  rwa [contains, Bool.not_eq_true, Option.isSome_eq_false_iff, Option.isNone_iff_eq_none] at absent

end Map

def Runtime.Declares (runtime : Runtime) (name : Identifier) : Prop :=
  (runtime.cases.lookup name).isSome = true ∨ (runtime.constructors.lookup name).isSome = true ∨
    (runtime.functions.lookup name).isSome = true ∨ (runtime.predicates.lookup name).isSome = true

/-- The second state extends the first and is in order. -/
structure Advances (first second : Runtime) : Prop where
  extends_ : Extends first second
  valid : second.Valid

namespace Advances

variable {first second third : Runtime}

theorem refl (valid : first.Valid) : Advances first first := ⟨.refl _, valid⟩

theorem trans (left : Advances first second) (right : Advances second third) :
    Advances first third := ⟨left.extends_.trans right.extends_, right.valid⟩

end Advances

variable {runtime later : Runtime}

variable {name declared : Identifier} {span : SourceSpan} {result : Unit} {seen : List Identifier}
  {fields : List EnumField} {items : List EnumCase} {type : RuntimeType}
  {resolved : List (Option RuntimeType)} {rules : ParameterRules}

theorem reserveValueName_ok (valid : runtime.Valid)
    (run : (reserveValueName name span).run runtime = .ok (result, later)) :
    Advances runtime later ∧ name ∉ runtime.valueNames ∧
      later.valueNames = name :: runtime.valueNames := by
  simp only [reserveValueName, run_get_bind] at run
  split at run
  · cases run
  rename_i fresh
  cases run
  refine ⟨⟨⟨[], [name], _, _, rfl⟩, ⟨?_, ?_⟩⟩, fresh, rfl⟩
  · exact ⟨valid.types.bool, valid.types.int, valid.types.named, valid.types.namedKeys,
      valid.types.compound, valid.types.compoundKeys, valid.types.proper, valid.types.allocated,
      valid.types.identity⟩
  · exact ⟨valid.names.cases, valid.names.constructors, valid.names.functions,
      valid.names.predicates⟩

theorem reserveTypeName_ok (run : (reserveTypeName name span).run runtime = .ok (result, later)) :
    runtime = later ∧ runtime.types.lookup name = none := by
  simp only [reserveTypeName, run_get_bind] at run
  split at run
  · cases run
  rename_i fresh
  cases run
  exact ⟨rfl, Map.lookup_of_not_contains fresh⟩

theorem distinctFields_ok {constructor : Identifier}
    (run : (distinctFields constructor seen fields).run runtime = .ok (result, later)) :
    later = runtime := by
  induction fields generalizing seen with
  | nil => cases run; rfl
  | cons field fields ih =>
    rw [distinctFields] at run
    split at run
    · cases run
    · exact ih run

theorem reserveCases_ok (valid : runtime.Valid)
    (run : (reserveCases seen items).run runtime = .ok (result, later)) :
    Advances runtime later ∧ (items.map EnumCase.name).Nodup ∧
      (∀ name ∈ items.map EnumCase.name, name ∉ runtime.valueNames ∧ name ∈ later.valueNames) ∧
      ∀ name ∈ runtime.valueNames, name ∈ later.valueNames := by
  induction items generalizing runtime seen with
  | nil => cases run; exact ⟨.refl valid, by simp, by simp, by simp⟩
  | cons item items ih =>
    rw [reserveCases] at run
    split at run
    · cases run
    obtain ⟨_, between, reserved, run⟩ := run_bind_ok run
    obtain ⟨_, behind, checked, run⟩ := run_bind_ok run
    obtain ⟨first, fresh, names⟩ := reserveValueName_ok valid reserved
    cases distinctFields_ok checked
    obtain ⟨rest, distinct, new, kept⟩ := ih first.valid run
    rw [names] at new kept
    refine ⟨first.trans rest, ?_, ?_, fun name member => kept name (by simp [member])⟩
    · rw [map_cons, nodup_cons]
      exact ⟨fun member => (new _ member).1 (by simp), distinct⟩
    · rw [map_cons, forall_mem_cons]
      refine ⟨⟨fresh, kept _ (by simp)⟩, fun name member => ?_⟩
      exact ⟨fun old => (new name member).1 (by simp [old]), (new name member).2⟩

theorem resolveType_advances (valid : runtime.Valid) {written : TypeSyntax}
    (run : (resolveType written).run runtime = .ok (type, later)) :
    Advances runtime later ∧ type ∈ later.objects ∧
      type.meaning = FineType.ofSyntax written := by
  obtain ⟨compounded, meaning⟩ := resolveType_ok written valid.types run
  exact ⟨⟨compounded.extends_, compounded.stateValid valid⟩, compounded.listed, meaning⟩

theorem Elaborated.advances {environment : Environment} {expression : Expr}
    {result : TypedExpression}
    (elaborated : Elaborated environment runtime later expression result) :
    Advances runtime later := ⟨elaborated.extends_, elaborated.valid⟩

/-- An object of the field's type, or nothing if that is being declared. -/
def FieldResolved (declared : Identifier) (runtime : Runtime) (field : EnumField) :
    Option RuntimeType → Prop
  | none => ∃ span, field.type = .named span declared
  | some type => type ∈ runtime.objects ∧ type.isTable = false ∧
      type.meaning = FineType.ofSyntax field.type

variable {field : EnumField} {info : DatatypeInfo} {declaration : EnumDecl} {parameter : Parameter}
  {index : Nat} {parameters : List Parameter} {formals : List Formal} {expected range : RuntimeType}
  {term : Term}

theorem FieldResolved.advances {resolved : Option RuntimeType}
    (is : FieldResolved declared runtime field resolved) (advances : Advances runtime later) :
    FieldResolved declared later field resolved := by
  cases resolved with
  | none => exact is
  | some type => exact ⟨advances.extends_.objects is.1, is.2⟩

theorem EnumField.isSelf_eq (self : EnumField.isSelf field declared = true) :
    ∃ span, field.type = .named span declared := by
  unfold EnumField.isSelf at self
  split at self
  · rename_i span name written
    rw [beq_iff_eq] at self
    exact ⟨span, by rw [written, self]⟩
  · cases self

theorem resolveFields_ok (valid : runtime.Valid)
    (run : (resolveFields declared fields).run runtime = .ok (resolved, later)) :
    Advances runtime later ∧ Forall₂ (FieldResolved declared later) fields resolved := by
  induction fields generalizing runtime resolved with
  | nil => cases run; exact ⟨.refl valid, .nil⟩
  | cons field fields ih =>
    rw [resolveFields] at run
    split at run
    · rename_i self
      obtain ⟨rest, behind, ran, run⟩ := run_bind_ok run
      cases run
      obtain ⟨advances, all⟩ := ih valid ran
      exact ⟨advances, .cons (EnumField.isSelf_eq self) all⟩
    · obtain ⟨type, between, found, run⟩ := run_bind_ok run
      obtain ⟨first, listed, meaning⟩ := resolveType_advances valid found
      split at run
      · cases run
      rename_i flat
      obtain ⟨rest, behind, ran, run⟩ := run_bind_ok run
      cases run
      obtain ⟨advances, all⟩ := ih first.valid ran
      have here : FieldResolved declared between field (some type) :=
        ⟨listed, by simpa using flat, meaning⟩
      exact ⟨first.trans advances, .cons (here.advances advances) all⟩

theorem resolveCases_ok {resolved : List (List (Option RuntimeType))} (valid : runtime.Valid)
    (run : (resolveCases declared items).run runtime = .ok (resolved, later)) :
    Advances runtime later ∧ Forall₂ (fun item fields =>
      Forall₂ (FieldResolved declared later) item.fields fields) items resolved := by
  induction items generalizing runtime resolved with
  | nil => cases run; exact ⟨.refl valid, .nil⟩
  | cons item items ih =>
    rw [resolveCases] at run
    obtain ⟨fields, between, found, run⟩ := run_bind_ok run
    obtain ⟨rest, behind, ran, run⟩ := run_bind_ok run
    cases run
    obtain ⟨first, here⟩ := resolveFields_ok valid found
    obtain ⟨advances, all⟩ := ih first.valid ran
    exact ⟨first.trans advances, .cons (here.imp fun _ _ is => is.advances advances) all⟩

theorem Runtime.TypesValid.congr {first second : Runtime} (valid : first.TypesValid)
    (bool : second.boolType = first.boolType) (int : second.intType = first.intType)
    (types : second.types = first.types) (compound : second.compoundTypes = first.compoundTypes)
    (next : second.nextAddress = first.nextAddress) : second.TypesValid := by
  have objects : second.objects = first.objects := by
    rw [Runtime.objects, Runtime.objects, types, compound]
  constructor
  · rw [types, bool]; exact valid.bool
  · rw [types, int]; exact valid.int
  · rw [types]; exact valid.named
  · rw [types]; exact valid.namedKeys
  · rw [compound, objects]; exact valid.compound
  · rw [compound]; exact valid.compoundKeys
  · rw [objects]; exact valid.proper
  · rw [objects, next]; exact valid.allocated
  · rw [objects]; exact valid.identity

theorem Runtime.TypesValid.fresh_ne (valid : runtime.TypesValid)
    (fresh : runtime.types.lookup name = none) : name ≠ boolName ∧ name ≠ intName := by
  constructor
  · rintro rfl
    rw [valid.bool] at fresh
    cases fresh
  · rintro rfl
    rw [valid.int] at fresh
    cases fresh

theorem Runtime.TypesValid.lookup_meaning (valid : runtime.TypesValid)
    (found : runtime.types.lookup name = some type) (new : name ≠ boolName ∧ name ≠ intName) :
    type.meaning = .named name := by
  rcases valid.named _ _ (Map.mem_of_lookup found) with
    ⟨is, -⟩ | ⟨is, -⟩ | ⟨-, -, ⟨_, rfl⟩ | ⟨_, rfl⟩⟩
  · exact absurd is new.1
  · exact absurd is new.2
  · rfl
  · rfl

/-- Types stay in order with a new named one. -/
theorem Runtime.TypesValid.addType {first second : Runtime} (valid : first.TypesValid)
    (fresh : first.types.lookup name = none) (object : NamedObject name type)
    (address : type.address = first.nextAddress) (bool : second.boolType = first.boolType)
    (int : second.intType = first.intType) (types : second.types = (name, type) :: first.types)
    (compound : second.compoundTypes = first.compoundTypes)
    (next : second.nextAddress = first.nextAddress + 1) : second.TypesValid := by
  have objects : second.objects = type :: first.objects := by
    rw [Runtime.objects, Runtime.objects, types, compound]
    rfl
  obtain ⟨notBool, notInt⟩ := valid.fresh_ne fresh
  have proper : type.meaning.proper = true := by
    rcases object with ⟨rfl, -⟩ | ⟨rfl, -⟩ | ⟨-, -, ⟨_, rfl⟩ | ⟨_, rfl⟩⟩
    · exact absurd rfl notBool
    · exact absurd rfl notInt
    · simp [RuntimeType.meaning, RuntimeType.sort, Z3Sort.meaning, FineType.proper, notBool, notInt]
    · simp [RuntimeType.meaning, RuntimeType.sort, Z3Sort.meaning, FineType.proper, notBool, notInt]
  constructor
  · rw [types, bool, lookup_cons, beq_eq_false_iff_ne.mpr notBool.symm]
    exact valid.bool
  · rw [types, int, lookup_cons, beq_eq_false_iff_ne.mpr notInt.symm]
    exact valid.int
  · rw [types]
    intro other found member
    rcases mem_cons.mp member with same | old
    · cases same
      exact object
    · exact valid.named other found old
  · rw [types, map_cons, nodup_cons]
    refine ⟨fun member => ?_, valid.namedKeys⟩
    obtain ⟨⟨other, found⟩, inside, same⟩ := mem_map.mp member
    cases same
    rw [Map.lookup_of_mem valid.namedKeys inside] at fresh
    cases fresh
  · rw [compound, objects]
    intro key found member
    obtain ⟨text, left, right, one, two, rest⟩ := valid.compound key found member
    exact ⟨text, left, right, by simp [one], by simp [two], rest⟩
  · rw [compound]; exact valid.compoundKeys
  · rw [objects, forall_mem_cons]
    exact ⟨proper, valid.proper⟩
  · rw [objects, next, forall_mem_cons]
    exact ⟨by omega, fun other member => Nat.lt_succ_of_lt (valid.allocated other member)⟩
  · rw [objects]
    intro left leftMember right rightMember same
    rcases mem_cons.mp leftMember with rfl | leftOld
    · rcases mem_cons.mp rightMember with rfl | rightOld
      · rfl
      · have below := valid.allocated right rightOld
        omega
    · rcases mem_cons.mp rightMember with rfl | rightOld
      · have below := valid.allocated left leftOld
        omega
      · exact valid.identity left leftOld right rightOld same

/-- Declared names are reserved, types declared, and members found by name. -/
structure Runtime.TablesValid (runtime : Runtime) : Prop where
  reserved : ∀ name, runtime.Declares name → name ∈ runtime.valueNames
  enumeration : ∀ key address name, (key, RuntimeType.enumeration address name) ∈ runtime.types →
    ∃ info, runtime.enums.lookup name = some info ∧ info.type = .enumeration address name
  datatype : ∀ key address name, (key, RuntimeType.datatype address name) ∈ runtime.types →
    ∃ info, runtime.datatypes.lookup name = some info ∧ info.type = .datatype address name
  cases : ∀ name info, runtime.enums.lookup name = some info →
    info.name = name ∧ runtime.types.lookup name = some info.type ∧
      ∀ entry ∈ info.caseNames.zipIdx, runtime.cases.lookup entry.1 = some (info, entry.2)
  constructors : ∀ name info, runtime.datatypes.lookup name = some info →
    info.name = name ∧ runtime.types.lookup name = some info.type ∧
      ∀ item ∈ info.cases, runtime.constructors.lookup item.name = some (info, item)
  apart : ∀ name, (runtime.constructors.lookup name).isSome = true →
    runtime.cases.lookup name = none
  /-- The solver knows the constructors of a datatype. -/
  shapes : ∀ name info, runtime.datatypes.lookup name = some info →
    (name, info.cases.map fun item => (item.name, item.fieldTypes.map RuntimeType.sort)) ∈
      runtime.context.datatypes

/-- All tables are in order. -/
structure Runtime.WellFormed (runtime : Runtime) : Prop extends runtime.Valid where
  tables : runtime.TablesValid

theorem Extends.declares_iff {first second : Runtime} (extends_ : Extends first second)
    (name : Identifier) : second.Declares name ↔ first.Declares name := by
  obtain ⟨_, _, _, _, rfl⟩ := extends_
  rfl

/-- More compound types and names leave the tables in order. -/
theorem Extends.tablesValid {first second : Runtime} (extends_ : Extends first second)
    (tables : first.TablesValid) : second.TablesValid := by
  have declares := extends_.declares_iff
  obtain ⟨_, _, _, _, rfl⟩ := extends_
  refine ⟨fun name declared => ?_, tables.enumeration, tables.datatype, tables.cases,
    tables.constructors, tables.apart, tables.shapes⟩
  exact mem_append_right _ (tables.reserved name ((declares name).mp declared))

theorem Advances.wellFormed (advances : Advances runtime later) (formed : runtime.WellFormed) :
    later.WellFormed := ⟨advances.valid, advances.extends_.tablesValid formed.tables⟩

theorem Runtime.WellFormed.undeclared (formed : runtime.WellFormed)
    (fresh : name ∉ runtime.valueNames) : ¬ runtime.Declares name :=
  fun declared => fresh (formed.tables.reserved name declared)

/-- What a datatype that is about to be declared is like. -/
structure DatatypeInfo.New (info : DatatypeInfo) (runtime : Runtime) : Prop where
  fresh : runtime.types.lookup info.name = none
  type : info.type = .datatype runtime.nextAddress info.name
  range : ∀ item ∈ info.cases, item.range = info.type.sort
  fields : ∀ item ∈ info.cases, ∀ type ∈ item.fieldTypes,
    type.isTable = false ∧ (type ∈ runtime.objects ∨ type = info.type)
  distinct : (info.cases.map DatatypeCaseInfo.name).Nodup
  names : ∀ item ∈ info.cases, item.name ∈ runtime.valueNames ∧ ¬ runtime.Declares item.name

/-- An enumeration that is about to be declared. -/
structure EnumInfo.New (info : EnumInfo) (runtime : Runtime) : Prop where
  fresh : runtime.types.lookup info.name = none
  type : info.type = .enumeration runtime.nextAddress info.name
  distinct : info.caseNames.Nodup
  names : ∀ name ∈ info.caseNames, name ∈ runtime.valueNames ∧ ¬ runtime.Declares name

theorem lookup_map_of_mem {α β κ : Type} [DecidableEq κ] {items : List α} {key : α → κ}
    {entry : α → β} (distinct : (items.map key).Nodup) {item : α} (member : item ∈ items) :
    (items.map fun item => (key item, entry item)).lookup (key item) = some (entry item) := by
  apply Map.lookup_of_mem
  · simpa [Function.comp_def] using distinct
  · exact mem_map.mpr ⟨item, member, rfl⟩

theorem mem_of_lookup_map {α β κ : Type} [DecidableEq κ] {items : List α} {key : α → κ}
    {entry : α → β} {name : κ} {found : β}
    (lookup : (items.map fun item => (key item, entry item)).lookup name = some found) :
    ∃ item ∈ items, key item = name ∧ entry item = found := by
  have member := Map.mem_of_lookup lookup
  obtain ⟨item, inside, same⟩ := mem_map.mp member
  rw [Prod.mk.injEq] at same
  exact ⟨item, inside, same.1, same.2⟩

/-- Names stay in order when what is added is. -/
theorem Runtime.NamesValid.grow {first second : Runtime} (valid : first.NamesValid)
    (objects : ∀ type ∈ first.objects, type ∈ second.objects)
    (cases : ∀ name info index, second.cases.lookup name = some (info, index) →
      first.cases.lookup name = some (info, index) ∨
      info.caseNames.getD index default = name ∧ info.type ∈ second.objects ∧
        info.type.meaning = .named info.name)
    (constructors : ∀ name datatype item,
      second.constructors.lookup name = some (datatype, item) →
      first.constructors.lookup name = some (datatype, item) ∨
      item.name = name ∧ datatype.type ∈ second.objects ∧
        datatype.type.meaning = .named datatype.name ∧ item.range = datatype.type.sort ∧
        ∀ type ∈ item.fieldTypes, type ∈ second.objects)
    (functions : ∀ name info, second.functions.lookup name = some info →
      first.functions.lookup name = some info ∨
      info.name = name ∧ (∀ type ∈ info.parameterTypes, type ∈ second.objects) ∧
        info.resultType ∈ second.objects)
    (predicates : ∀ name info, second.predicates.lookup name = some info →
      (∃ old, first.predicates.lookup name = some old ∧ info.name = old.name ∧
        info.indexTypes = old.indexTypes) ∨
      info.name = name ∧ ∀ type ∈ info.indexTypes, type ∈ second.objects) :
    second.NamesValid := by
  constructor
  · intro name info index found
    rcases cases name info index found with old | new
    · obtain ⟨one, two, three⟩ := valid.cases name info index old
      exact ⟨one, objects _ two, three⟩
    · exact new
  · intro name datatype item found
    rcases constructors name datatype item found with old | new
    · obtain ⟨one, two, three, four, five⟩ := valid.constructors name datatype item old
      exact ⟨one, objects _ two, three, four, fun type member => objects _ (five type member)⟩
    · exact new
  · intro name info found
    rcases functions name info found with old | new
    · obtain ⟨one, two, three⟩ := valid.functions name info old
      exact ⟨one, fun type member => objects _ (two type member), objects _ three⟩
    · exact new
  · intro name info found
    rcases predicates name info found with ⟨old, known, sameName, sameTypes⟩ | new
    · obtain ⟨one, two⟩ := valid.predicates name old known
      rw [sameName, sameTypes]
      exact ⟨one, fun type member => objects _ (two type member)⟩
    · exact new

theorem Runtime.undeclared_lookup (undeclared : ¬ runtime.Declares name) :
    runtime.cases.lookup name = none ∧ runtime.constructors.lookup name = none ∧
      runtime.functions.lookup name = none ∧ runtime.predicates.lookup name = none := by
  simpa only [Runtime.Declares, not_or, Bool.not_eq_true, Option.isSome_eq_false_iff,
    Option.isNone_iff_eq_none] using undeclared

theorem Runtime.mem_objects_cons {first second : Runtime} {new : RuntimeType}
    (types : second.types = (name, new) :: first.types)
    (compound : second.compoundTypes = first.compoundTypes) (type : RuntimeType) :
    type ∈ second.objects ↔ type = new ∨ type ∈ first.objects := by
  rw [Runtime.objects, Runtime.objects, types, compound]
  simp

theorem Runtime.lookup_declaration {first : Runtime} {α : Type} {table : Map Identifier α}
    {typeOf : α → RuntimeType}
    (known : ∀ name info, table.lookup name = some info →
      first.types.lookup name = some (typeOf info)) (fresh : first.types.lookup name = none)
    (info : α) (other : Identifier) :
    (table.emplace name info).lookup other =
      if other = name then some info else table.lookup other := by
  rw [Map.lookup_emplace]
  split
  · rename_i same
    cases found : table.lookup other with
    | none => rfl
    | some old =>
      have declared := known other old found
      rw [same, fresh] at declared
      cases declared
  · rw [Option.or_none]

theorem addDatatype_valid (formed : runtime.WellFormed) (new : info.New runtime) :
    (runtime.addDatatype info).Valid := by
  obtain ⟨notBool, notInt⟩ := formed.types.fresh_ne new.fresh
  have types : (runtime.addDatatype info).types = (info.name, info.type) :: runtime.types :=
    Map.emplace_of_lookup new.fresh
  have objects := Runtime.mem_objects_cons types rfl
  refine ⟨?_, formed.names.grow (fun type member => (objects type).mpr (.inr member))
    (fun _ _ _ => .inl) ?_ (fun _ _ => .inl) fun _ found old => .inl ⟨found, old, rfl, rfl⟩⟩
  · refine formed.types.addType new.fresh ?_ (by rw [new.type]; rfl) rfl rfl types rfl rfl
    exact .inr (.inr ⟨notBool, notInt, .inr ⟨_, new.type⟩⟩)
  · intro name datatype item lookup
    rw [show (runtime.addDatatype info).constructors = runtime.constructors.emplaceAll
      (info.cases.map fun item => (item.name, info, item)) from rfl, Map.lookup_emplaceAll,
      Option.or_eq_some_iff] at lookup
    rcases lookup with old | ⟨-, added⟩
    · exact .inl old
    · obtain ⟨_, inside, same, entry⟩ := mem_of_lookup_map added
      cases entry
      refine .inr ⟨same, (objects _).mpr (.inl rfl), by rw [new.type]; rfl, new.range item inside,
        fun type member => (objects _).mpr (new.fields item inside type member).2.symm⟩

/-- All tables are in order with a new datatype. -/
theorem addDatatype_wellFormed (formed : runtime.WellFormed) (new : info.New runtime) :
    (runtime.addDatatype info).WellFormed := by
  have types : (runtime.addDatatype info).types = (info.name, info.type) :: runtime.types :=
    Map.emplace_of_lookup new.fresh
  have datatypes : ∀ other, (runtime.addDatatype info).datatypes.lookup other =
      if other = info.name then some info else runtime.datatypes.lookup other :=
    Runtime.lookup_declaration (fun name found old => (formed.tables.constructors name found old).2.1)
      new.fresh info
  have constructors : ∀ name, (runtime.addDatatype info).constructors.lookup name =
      (runtime.constructors.lookup name).or
        ((info.cases.map fun item => (item.name, info, item)).lookup name) :=
    Map.lookup_emplaceAll _ _
  have kept : ∀ {name type}, runtime.types.lookup name = some type →
      (runtime.addDatatype info).types.lookup name = some type :=
    fun found => Map.emplace_keeps found
  refine ⟨addDatatype_valid formed new, ?_, ?_, ?_, ?_, ?_, ?_, ?_⟩
  · intro name declared
    cases added : (info.cases.map fun item => (item.name, info, item)).lookup name with
    | none =>
      refine formed.tables.reserved name (declared.imp_right (.imp_left fun found => ?_))
      rwa [constructors, added, Option.or_none] at found
    | some entry =>
      obtain ⟨item, inside, rfl, -⟩ := mem_of_lookup_map added
      exact (new.names item inside).1
  · rw [types]
    intro key address name member
    rcases mem_cons.mp member with same | old
    · rw [new.type] at same
      cases same
    · exact formed.tables.enumeration key address name old
  · rw [types]
    intro key address name member
    rcases mem_cons.mp member with same | old
    · rw [new.type] at same
      cases same
      exact ⟨info, by rw [datatypes, if_pos rfl], new.type⟩
    · obtain ⟨found, lookup, is⟩ := formed.tables.datatype key address name old
      exact ⟨found, Map.emplace_keeps lookup, is⟩
  · intro name found lookup
    obtain ⟨named, one, two⟩ := formed.tables.cases name found lookup
    exact ⟨named, kept one, two⟩
  · intro name found lookup
    rw [datatypes] at lookup
    split at lookup
    · rename_i same
      cases lookup
      subst same
      refine ⟨rfl, by rw [types, lookup_cons_self], fun item member => ?_⟩
      rw [constructors, (Runtime.undeclared_lookup (new.names item member).2).2.1, Option.none_or,
        lookup_map_of_mem new.distinct member]
    · obtain ⟨named, one, two⟩ := formed.tables.constructors name found lookup
      exact ⟨named, kept one, fun item member => by rw [constructors, two item member, Option.some_or]⟩
  · intro name found
    rw [constructors] at found
    cases old : runtime.constructors.lookup name with
    | some entry => exact formed.tables.apart name (by simp [old])
    | none =>
      rw [old, Option.none_or] at found
      obtain ⟨entry, lookup⟩ := Option.isSome_iff_exists.mp found
      obtain ⟨item, inside, rfl, -⟩ := mem_of_lookup_map lookup
      exact (Runtime.undeclared_lookup (new.names item inside).2).1
  · intro name found lookup
    rw [datatypes] at lookup
    split at lookup
    · rename_i same
      cases lookup
      subst same
      exact mem_cons_self
    · exact mem_cons_of_mem _ (formed.tables.shapes name found lookup)

theorem addEnum_valid (formed : runtime.WellFormed) {info : EnumInfo}
    (new : info.New runtime) : (runtime.addEnum info).Valid := by
  obtain ⟨notBool, notInt⟩ := formed.types.fresh_ne new.fresh
  have types : (runtime.addEnum info).types = (info.name, info.type) :: runtime.types :=
    Map.emplace_of_lookup new.fresh
  have objects := Runtime.mem_objects_cons types rfl
  refine ⟨?_, formed.names.grow (fun type member => (objects type).mpr (.inr member)) ?_
    (fun _ _ _ => .inl) (fun _ _ => .inl) fun _ found old => .inl ⟨found, old, rfl, rfl⟩⟩
  · refine formed.types.addType new.fresh ?_ (by rw [new.type]; rfl) rfl rfl types rfl rfl
    exact .inr (.inr ⟨notBool, notInt, .inl ⟨_, new.type⟩⟩)
  · intro name found index lookup
    rw [show (runtime.addEnum info).cases = runtime.cases.emplaceAll
      (info.caseNames.zipIdx.map fun item => (item.1, info, item.2)) from rfl,
      Map.lookup_emplaceAll, Option.or_eq_some_iff] at lookup
    rcases lookup with old | ⟨-, added⟩
    · exact .inl old
    · obtain ⟨⟨other, place⟩, inside, same, entry⟩ := mem_of_lookup_map added
      cases entry
      have at_ : info.caseNames[place]? = some other := mem_zipIdx_iff_getElem?.mp inside
      refine .inr ⟨?_, (objects _).mpr (.inl rfl), by rw [new.type]; rfl⟩
      rw [getD_eq_getElem?_getD, at_, Option.getD_some]
      exact same

/-- All tables are in order with a new enumeration. -/
theorem addEnum_wellFormed (formed : runtime.WellFormed) {info : EnumInfo}
    (new : info.New runtime) : (runtime.addEnum info).WellFormed := by
  have types : (runtime.addEnum info).types = (info.name, info.type) :: runtime.types :=
    Map.emplace_of_lookup new.fresh
  have enums : ∀ other, (runtime.addEnum info).enums.lookup other =
      if other = info.name then some info else runtime.enums.lookup other :=
    Runtime.lookup_declaration (fun name found old => (formed.tables.cases name found old).2.1)
      new.fresh info
  have cases : ∀ name, (runtime.addEnum info).cases.lookup name = (runtime.cases.lookup name).or
        ((info.caseNames.zipIdx.map fun item => (item.1, info, item.2)).lookup name) :=
    Map.lookup_emplaceAll _ _
  have listed : ∀ {name entry},
      (info.caseNames.zipIdx.map fun item => (item.1, info, item.2)).lookup name = some entry →
      name ∈ info.caseNames := by
    intro name entry lookup
    obtain ⟨item, inside, rfl, -⟩ := mem_of_lookup_map lookup
    exact fst_mem_of_mem_zipIdx inside
  have kept : ∀ {name type}, runtime.types.lookup name = some type →
      (runtime.addEnum info).types.lookup name = some type :=
    fun found => Map.emplace_keeps found
  refine ⟨addEnum_valid formed new, ?_, ?_, ?_, ?_, ?_, ?_, fun name found lookup =>
    mem_cons_of_mem _ (formed.tables.shapes name found lookup)⟩
  · intro name declared
    cases added : (info.caseNames.zipIdx.map fun item => (item.1, info, item.2)).lookup name with
    | none =>
      refine formed.tables.reserved name (declared.imp_left fun found => ?_)
      rwa [cases, added, Option.or_none] at found
    | some entry => exact (new.names name (listed added)).1
  · rw [types]
    intro key address name member
    rcases mem_cons.mp member with same | old
    · rw [new.type] at same
      cases same
      exact ⟨info, by rw [enums, if_pos rfl], new.type⟩
    · obtain ⟨found, lookup, is⟩ := formed.tables.enumeration key address name old
      exact ⟨found, Map.emplace_keeps lookup, is⟩
  · rw [types]
    intro key address name member
    rcases mem_cons.mp member with same | old
    · rw [new.type] at same
      cases same
    · exact formed.tables.datatype key address name old
  · intro name found lookup
    rw [enums] at lookup
    split at lookup
    · rename_i same
      cases lookup
      subst same
      refine ⟨rfl, by rw [types, lookup_cons_self], fun entry member => ?_⟩
      have absent := (Runtime.undeclared_lookup
        (new.names entry.1 (fst_mem_of_mem_zipIdx member)).2).1
      have distinct : (info.caseNames.zipIdx.map Prod.fst).Nodup := by
        rw [zipIdx_map_fst]
        exact new.distinct
      rw [cases, absent, Option.none_or, lookup_map_of_mem distinct member]
    · obtain ⟨named, one, two⟩ := formed.tables.cases name found lookup
      exact ⟨named, kept one, fun entry member => by rw [cases, two entry member, Option.some_or]⟩
  · intro name found lookup
    obtain ⟨named, one, two⟩ := formed.tables.constructors name found lookup
    exact ⟨named, kept one, two⟩
  · intro name found
    have old := formed.tables.apart name found
    rw [cases, old, Option.none_or]
    cases lookup : (info.caseNames.zipIdx.map fun item => (item.1, info, item.2)).lookup name with
    | none => rfl
    | some entry =>
      have absent := (Runtime.undeclared_lookup (new.names name (listed lookup)).2).2.1
      rw [show (runtime.addEnum info).constructors = runtime.constructors from rfl, absent] at found
      cases found

theorem caseInfo_types (meaning : type.meaning = .named declared)
    (new : declared ≠ boolName ∧ declared ≠ intName)
    (all : Forall₂ (FieldResolved declared runtime) fields resolved) :
    (resolved.map fun field => (field.getD type).meaning) =
      fields.map fun field => FineType.ofSyntax field.type := by
  induction all with
  | nil => rfl
  | cons here _ ih =>
    rename_i field found _ _ _
    rw [map_cons, map_cons, ih]
    cases found with
    | none =>
      obtain ⟨span, written⟩ := here
      simp [written, FineType.ofSyntax, meaning, new.1, new.2]
    | some known => rw [Option.getD_some, here.2.2]

theorem caseInfo_fields (flat : type.isTable = false)
    (all : Forall₂ (FieldResolved declared runtime) fields resolved) :
    ∀ found ∈ resolved.map fun field => field.getD type,
      found.isTable = false ∧ (found ∈ runtime.objects ∨ found = type) := by
  induction all with
  | nil => simp
  | cons here _ ih =>
    rename_i field found _ _ _
    rw [map_cons, forall_mem_cons]
    refine ⟨?_, ih⟩
    cases found with
    | none => exact ⟨flat, .inr rfl⟩
    | some known => exact ⟨here.2.1, .inl here.1⟩

/-- The cases of a datatype are those of its declaration. -/
structure CasesOf (runtime : Runtime) (type : RuntimeType) (items : List EnumCase)
    (cases : List DatatypeCaseInfo) : Prop where
  names : cases.map DatatypeCaseInfo.name = items.map EnumCase.name
  range : ∀ item ∈ cases, item.range = type.sort
  fields : ∀ item ∈ cases, ∀ found ∈ item.fieldTypes,
    found.isTable = false ∧ (found ∈ runtime.objects ∨ found = type)
  shape : (cases.map fun item => (item.name, item.fieldTypes.map RuntimeType.meaning)) =
    items.map fun item => (item.name, item.fields.map fun field => FineType.ofSyntax field.type)

theorem caseInfo_ok (meaning : type.meaning = .named declared)
    (new : declared ≠ boolName ∧ declared ≠ intName) (flat : type.isTable = false)
    {resolved : List (List (Option RuntimeType))}
    (all : Forall₂ (fun item fields =>
      Forall₂ (FieldResolved declared runtime) item.fields fields) items resolved) :
    CasesOf runtime type items (List.zipWith (caseInfo type) items resolved) := by
  induction all with
  | nil => exact ⟨rfl, by simp, by simp, rfl⟩
  | cons here _ ih =>
    rw [zipWith_cons_cons]
    refine ⟨?_, ?_, ?_, ?_⟩
    · rw [map_cons, map_cons, ih.names]
      rfl
    · exact forall_mem_cons.mpr ⟨rfl, ih.range⟩
    · exact forall_mem_cons.mpr ⟨caseInfo_fields flat here, ih.fields⟩
    · rw [map_cons, map_cons, ih.shape, ← caseInfo_types meaning new here]
      simp [caseInfo, Function.comp_def]

/-- Some case has only fields of known types. -/
theorem wellFounded_case {resolved : List (List (Option RuntimeType))}
    (all : Forall₂ (fun item fields =>
      Forall₂ (FieldResolved declared runtime) item.fields fields) items resolved)
    (founded : wellFounded resolved = true) :
    ∃ item ∈ List.zipWith (caseInfo type) items resolved,
      ∀ found ∈ item.fieldTypes, found ∈ runtime.objects := by
  have known : ∀ {fields : List EnumField} {found : List (Option RuntimeType)},
      Forall₂ (FieldResolved declared runtime) fields found →
      found.all Option.isSome = true →
      ∀ object ∈ found.map fun field => field.getD type, object ∈ runtime.objects := by
    intro fields found resolved
    induction resolved with
    | nil => simp
    | cons here _ ih =>
      rename_i field found _ _ _
      intro every
      rw [all_cons, Bool.and_eq_true] at every
      rw [map_cons, forall_mem_cons]
      refine ⟨?_, ih every.2⟩
      cases found with
      | none => cases every.1
      | some object => exact here.1
  unfold wellFounded at founded
  induction all with
  | nil => cases founded
  | cons here _ ih =>
    rw [any_cons, Bool.or_eq_true] at founded
    rw [zipWith_cons_cons]
    rcases founded with now | further
    · exact ⟨_, mem_cons_self, known here now⟩
    · obtain ⟨item, member, objects⟩ := ih further
      exact ⟨item, mem_cons_of_mem _ member, objects⟩

theorem Extends.types_eq {first second : Runtime} (extends_ : Extends first second) :
    second.types = first.types := by
  obtain ⟨_, _, _, _, rfl⟩ := extends_
  rfl

theorem Extends.valueNames {first second : Runtime} (extends_ : Extends first second)
    (member : name ∈ first.valueNames) : name ∈ second.valueNames := by
  obtain ⟨_, _, _, _, rfl⟩ := extends_
  exact mem_append_right _ member

/-- What the declaration of a type does, in the end. -/
inductive EnumDeclared (declaration : EnumDecl) (middle : Runtime) : Runtime → Prop where
  | datatype {info : DatatypeInfo} : hasFields declaration = true → info.New middle →
      info.name = declaration.name → CasesOf middle info.type declaration.cases info.cases →
      (∃ item ∈ info.cases, ∀ type ∈ item.fieldTypes, type ∈ middle.objects) →
      EnumDeclared declaration middle (middle.addDatatype info)
  | enumeration {info : EnumInfo} : hasFields declaration = false → info.New middle →
      info.name = declaration.name → info.caseNames = declaration.cases.map EnumCase.name →
      declaration.cases ≠ [] → EnumDeclared declaration middle (middle.addEnum info)

/-- Declaring a type advances the state and adds the type. -/
theorem declareEnum_ok (formed : runtime.WellFormed)
    (run : (declareEnum declaration).run runtime = .ok (result, later)) :
    ∃ middle, Advances runtime middle ∧ EnumDeclared declaration middle later := by
  unfold declareEnum at run
  obtain ⟨_, start, reserved, run⟩ := run_bind_ok run
  obtain ⟨rfl, fresh⟩ := reserveTypeName_ok reserved
  obtain ⟨_, between, cases, run⟩ := run_bind_ok run
  obtain ⟨first, distinct, new, -⟩ := reserveCases_ok formed.toValid cases
  have names : ∀ {after : Runtime}, Extends between after →
      ∀ name ∈ declaration.cases.map EnumCase.name,
        name ∈ after.valueNames ∧ ¬ after.Declares name := by
    intro after more name member
    refine ⟨more.valueNames (new name member).2, ?_⟩
    rw [more.declares_iff, first.extends_.declares_iff]
    exact formed.undeclared (new name member).1
  split at run
  · rename_i fields
    unfold declareDatatype at run
    obtain ⟨resolved, middle, ran, run⟩ := run_bind_ok run
    obtain ⟨second, all⟩ := resolveCases_ok first.valid ran
    split at run
    · cases run
    rename_i founded
    cases run
    have advances := first.trans second
    have absent : middle.types.lookup declaration.name = none := by
      rw [advances.extends_.types_eq, fresh]
    have known := caseInfo_ok (show (RuntimeType.datatype middle.nextAddress
      declaration.name).meaning = .named declaration.name from rfl)
      (advances.valid.types.fresh_ne absent) rfl all
    refine ⟨middle, advances, .datatype fields ⟨absent, rfl, known.range, known.fields, ?_, ?_⟩
      rfl known (wellFounded_case all (by simpa using founded))⟩
    · rw [known.names]
      exact distinct
    · intro item member
      refine names second.extends_ item.name ?_
      rw [← known.names]
      exact mem_map_of_mem member
  · rename_i fields
    unfold declareEnumeration at run
    split at run
    · cases run
    rename_i nonempty
    cases run
    refine ⟨between, first, .enumeration (eq_false_of_ne_true fields)
      ⟨by rw [first.extends_.types_eq, fresh], rfl, distinct, names (.refl _)⟩ rfl rfl ?_⟩
    simpa using nonempty

theorem EnumDeclared.wellFormed {middle : Runtime}
    (declared : EnumDeclared declaration middle later) (formed : middle.WellFormed) :
    later.WellFormed := by
  cases declared with
  | datatype _ new => exact addDatatype_wellFormed formed new
  | enumeration _ new => exact addEnum_wellFormed formed new

/-- Named and typed as written, each with its own constant. -/
structure FormalsOf (rules : ParameterRules) (runtime : Runtime) (index : Nat)
    (seen : List Identifier) (parameters : List Parameter) (formals : List Formal) : Prop where
  names : formals.map Formal.name = parameters.map Parameter.name
  types : (formals.map fun formal => formal.type.meaning) = parameterTypes parameters
  listed : ∀ formal ∈ formals, formal.type ∈ runtime.objects
  admitted : ∀ formal ∈ formals, rules.admits formal.type = true
  terms : ∀ (place : Nat) (formal : Formal), formals[place]? = some formal →
    formal.term = ⟨rules.internal (index + place), formal.type.sort⟩
  distinct : (formals.map Formal.name).Nodup
  unseen : ∀ formal ∈ formals, formal.name ∉ seen

theorem ParameterRules.notReserved_ok
    (run : (rules.notReserved parameter).run runtime = .ok (result, later)) :
    runtime = later := by
  unfold ParameterRules.notReserved at run
  split at run
  · split at run
    · cases run
    · cases run
      rfl
  · cases run
    rfl

theorem ParameterRules.distinct_ok {early : Bool}
    (run : (rules.distinct early seen parameter).run runtime = .ok (result, later)) :
    runtime = later ∧ (rules.early = early → parameter.name ∉ seen) := by
  unfold ParameterRules.distinct at run
  split at run
  · cases run
  · rename_i new
    cases run
    exact ⟨rfl, fun same member => new ⟨same, member⟩⟩

/-- Parameters are declared as written. -/
theorem declareParameters_ok (valid : runtime.Valid)
    (run : (declareParameters rules index seen parameters).run runtime = .ok (formals, later)) :
    Advances runtime later ∧ FormalsOf rules later index seen parameters formals := by
  induction parameters generalizing runtime index seen formals with
  | nil =>
    cases run
    exact ⟨.refl valid, rfl, rfl, by simp, by simp, by simp, by simp, by simp⟩
  | cons parameter parameters ih =>
    rw [declareParameters] at run
    obtain ⟨_, _, allowed, run⟩ := run_bind_ok run
    cases ParameterRules.notReserved_ok allowed
    obtain ⟨_, _, checked, run⟩ := run_bind_ok run
    obtain ⟨rfl, early⟩ := ParameterRules.distinct_ok checked
    obtain ⟨type, between, resolved, run⟩ := run_bind_ok run
    obtain ⟨first, listed, meaning⟩ := resolveType_advances valid resolved
    split at run
    · cases run
    rename_i admits
    obtain ⟨_, _, checked', run⟩ := run_bind_ok run
    obtain ⟨rfl, late⟩ := ParameterRules.distinct_ok checked'
    obtain ⟨rest, behind, ran, run⟩ := run_bind_ok run
    cases run
    obtain ⟨second, of⟩ := ih first.valid ran
    have new : parameter.name ∉ seen := by
      cases now : rules.early with
      | true => exact early now
      | false => exact late now
    refine ⟨first.trans second, ?_, ?_, ?_, ?_, ?_, ?_, ?_⟩
    · rw [map_cons, map_cons, of.names]
    · rw [map_cons, of.types, meaning]
      rfl
    · exact forall_mem_cons.mpr ⟨second.extends_.objects listed, of.listed⟩
    · exact forall_mem_cons.mpr ⟨by simpa using admits, of.admitted⟩
    · intro place formal found
      cases place with
      | zero => cases found; rfl
      | succ place =>
        rw [List.getElem?_cons_succ] at found
        rw [of.terms place formal found, Nat.add_assoc, Nat.add_comm 1]
    · rw [map_cons, nodup_cons]
      refine ⟨fun member => ?_, of.distinct⟩
      obtain ⟨formal, inside, same⟩ := mem_map.mp member
      exact of.unseen formal inside (by simp [same])
    · refine forall_mem_cons.mpr ⟨new, fun formal member => ?_⟩
      exact fun old => of.unseen formal member (by simp [old])

theorem FormalsOf.valid (of : FormalsOf rules runtime index seen parameters formals) :
    (environmentOf formals).Valid runtime := by
  intro name found lookup
  have member := Map.mem_of_lookup lookup
  obtain ⟨formal, inside, entry⟩ := mem_map.mp member
  cases entry
  obtain ⟨place, at_⟩ := mem_iff_getElem?.mp inside
  exact ⟨of.listed formal inside, by simp [Term.sort?, of.terms place formal at_]⟩

theorem environmentOf_meaning (formals : List Formal) (interp : Interp) (assignment : Assignment) :
    (environmentOf formals).meaning interp assignment =
      binds (formals.map Formal.name) (formals.map fun formal => assignment formal.term) := by
  funext name
  unfold environmentOf Environment.meaning binds
  induction formals with
  | nil => rfl
  | cons formal formals ih =>
    simp only [map_cons, Formal.entry, lookup_cons, zip_cons_cons] at ih ⊢
    cases name == formal.name with
    | true => rfl
    | false => exact ih

theorem environmentOf_plain (formals : List Formal) : ∀ name found,
    (environmentOf formals).lookup name = some found → found.expression.quantifierFree = true := by
  intro name found lookup
  obtain ⟨formal, -, entry⟩ := mem_map.mp (Map.mem_of_lookup lookup)
  cases entry
  rfl

theorem environmentOf_constants (formals : List Formal) {found : TypedExpression}
    (lookup : (environmentOf formals).lookup name = some found) {constant : Const}
    (member : constant ∈ found.expression.constants) : constant ∈ formals.map Formal.term := by
  obtain ⟨formal, inside, entry⟩ := mem_map.mp (Map.mem_of_lookup lookup)
  cases entry
  simp only [Term.constants, mem_singleton] at member
  exact mem_map.mpr ⟨formal, inside, member.symm⟩

theorem expectedConstructor_state {item : DatatypeCaseInfo}
    (run : (expectedConstructor span name expected).run runtime = .ok (item, later)) :
    runtime = later := by
  simp only [expectedConstructor, run_get_bind] at run
  split at run
  · cases run
  · split at run
    · cases run
    · cases run; rfl

theorem nameValue_state (run : (nameValue span name expected).run runtime = .ok (term, later)) :
    runtime = later := by
  unfold nameValue at run
  split at run
  · obtain ⟨item, _, found, run⟩ := run_bind_ok run
    obtain rfl := expectedConstructor_state found
    split at run
    · cases run
    · cases run; rfl
  · simp only [run_get_bind] at run
    split at run
    · cases run
    · split at run
      · cases run
      · cases run; rfl
  · cases run

theorem values_state {elements : List Expr} (each : ∀ element ∈ elements,
      ∀ {type runtime later term}, (value element type).run runtime = .ok (term, later) →
      runtime = later)
    {types : List RuntimeType} {terms : List Term}
    (run : (values elements types).run runtime = .ok (terms, later)) : runtime = later := by
  induction elements generalizing types runtime later terms with
  | nil => rw [values] at run; cases run; rfl; simp
  | cons element elements ih =>
    cases types with
    | nil => rw [values] at run; cases run; rfl; simp
    | cons type types =>
      rw [values] at run
      obtain ⟨first, _, here, run⟩ := run_bind_ok run
      obtain rfl := each element (by simp) here
      obtain ⟨rest, _, there, run⟩ := run_bind_ok run
      obtain rfl := ih (fun other member => each other (by simp [member])) there
      cases run
      rfl

/-- A literal in a table cell changes nothing. -/
theorem value_state (expression : Expr) {runtime later : Runtime}
    (run : (value expression type).run runtime = .ok (term, later)) : runtime = later := by
  induction expression generalizing type runtime later term with
  | name info name => exact nameValue_state (by rwa [value] at run)
  | boolean info literal | integer info literal =>
    simp only [value] at run
    split at run
    · cases run; rfl
    · cases run
  | tuple info elements ih =>
    simp only [value] at run
    split at run
    · split at run
      · cases run
      obtain ⟨terms, _, found, run⟩ := run_bind_ok run
      obtain rfl := values_state (fun element member => ih element member) found
      cases run
      rfl
    · cases run
  | call info name elements ih =>
    simp only [value] at run
    split at run
    · obtain ⟨item, _, found, run⟩ := run_bind_ok run
      obtain rfl := expectedConstructor_state found
      split at run
      · cases run
      obtain ⟨terms, _, found', run⟩ := run_bind_ok run
      obtain rfl := values_state (fun element member => ih element member) found'
      cases run
      rfl
    · cases run
  | binary | conditional | hole => cases run

theorem tableEntries_state {key : RuntimeType} {entries : List TableEntry} {seen : List Term}
    {table result : Term}
    (run : (tableEntries key range seen table entries).run runtime = .ok (result, later)) :
    runtime = later := by
  induction entries generalizing seen table with
  | nil => cases run; rfl
  | cons entry entries ih =>
    rw [tableEntries] at run
    obtain ⟨at_, _, first, run⟩ := run_bind_ok run
    obtain rfl := value_state entry.key first
    split at run
    · cases run
    obtain ⟨stored, _, second, run⟩ := run_bind_ok run
    obtain rfl := value_state entry.value second
    exact ih run

theorem tableValue_state {key : RuntimeType} {literal : TableLiteral} {result : Term}
    (run : (tableValue key range literal).run runtime = .ok (result, later)) : runtime = later := by
  unfold tableValue at run
  obtain ⟨rest, _, first, run⟩ := run_bind_ok run
  obtain rfl := value_state literal.defaultValue first
  exact tableEntries_state run

/-- Only what no table of types or values depends on differs. -/
def Keeps (first second : Runtime) : Prop :=
  ∃ definitions output fixedpoint views bindings proofs, second = { first with
    context := { first.context with definitions := definitions }
    output := output
    fixedpoint := fixedpoint
    views := views
    bindings := bindings
    admittedProofs := proofs }

theorem Keeps.wellFormed (keeps : Keeps runtime later) (formed : runtime.WellFormed) :
    later.WellFormed := by
  obtain ⟨_, _, _, _, _, _, rfl⟩ := keeps
  exact ⟨⟨formed.types.congr rfl rfl rfl rfl rfl, ⟨formed.names.cases, formed.names.constructors,
    formed.names.functions, formed.names.predicates⟩⟩, ⟨formed.tables.reserved,
    formed.tables.enumeration, formed.tables.datatype, formed.tables.cases,
    formed.tables.constructors, formed.tables.apart, formed.tables.shapes⟩⟩

def Runtime.bind (runtime : Runtime) (name : Identifier) (binding : Binding) : Runtime :=
  { runtime with bindings := runtime.bindings.emplace name binding }

theorem declareLet_binds (valid : runtime.Valid) {declaration : LetDecl}
    (run : (declareLet declaration).run runtime = .ok (result, later)) :
    ∃ middle address key range table, Advances runtime middle ∧
      RuntimeType.table address key range ∈ middle.objects ∧
      (tableValue key range declaration.value).run middle = .ok (table, middle) ∧
      later = middle.bind declaration.name
        ⟨.table address key range, table, false, declaration.info.span⟩ := by
  unfold declareLet at run
  obtain ⟨_, start, reserved, run⟩ := run_bind_ok run
  obtain ⟨first, -⟩ := reserveValueName_ok valid reserved
  obtain ⟨type, middle, resolved, run⟩ := run_bind_ok run
  obtain ⟨second, listed, -⟩ := resolveType_advances first.valid resolved
  split at run
  · obtain ⟨table, _, found, run⟩ := run_bind_ok run
    obtain rfl := tableValue_state found
    cases run
    exact ⟨middle, _, _, _, table, first.trans second, listed, found, rfl⟩
  · cases run

theorem declareModel_binds (valid : runtime.Valid) {declaration : ModelDecl}
    (run : (declareModel declaration).run runtime = .ok (result, later)) :
    ∃ middle address key range table open_, Advances runtime middle ∧
      RuntimeType.table address key range ∈ middle.objects ∧
      (open_ = true ∧ table = .constant ⟨declaration.name.text,
          (RuntimeType.table address key range).sort⟩ ∨
        open_ = false ∧ ∃ literal, (tableValue key range literal).run middle =
          .ok (table, middle)) ∧
      later = middle.bind declaration.name
        ⟨.table address key range, table, open_, declaration.info.span⟩ := by
  unfold declareModel at run
  obtain ⟨_, start, reserved, run⟩ := run_bind_ok run
  obtain ⟨first, -⟩ := reserveValueName_ok valid reserved
  obtain ⟨type, middle, resolved, run⟩ := run_bind_ok run
  obtain ⟨second, listed, -⟩ := resolveType_advances first.valid resolved
  split at run
  · split at run
    · obtain ⟨table, _, found, run⟩ := run_bind_ok run
      obtain rfl := tableValue_state found
      cases run
      exact ⟨middle, _, _, _, table, _, first.trans second, listed, .inr ⟨rfl, _, found⟩, rfl⟩
    · cases run
      exact ⟨middle, _, _, _, _, _, first.trans second, listed, .inl ⟨rfl, rfl⟩, rfl⟩
  · cases run

theorem declareLet_ok (valid : runtime.Valid) {declaration : LetDecl}
    (run : (declareLet declaration).run runtime = .ok (result, later)) :
    ∃ middle bindings, Advances runtime middle ∧
      later = { middle with bindings := bindings } := by
  obtain ⟨middle, _, _, _, _, advances, -, -, is⟩ := declareLet_binds valid run
  exact ⟨middle, _, advances, is⟩

theorem declareModel_ok (valid : runtime.Valid) {declaration : ModelDecl}
    (run : (declareModel declaration).run runtime = .ok (result, later)) :
    ∃ middle bindings, Advances runtime middle ∧
      later = { middle with bindings := bindings } := by
  obtain ⟨middle, _, _, _, _, _, advances, -, -, is⟩ := declareModel_binds valid run
  exact ⟨middle, _, advances, is⟩

end Fine.RuntimeDetail
