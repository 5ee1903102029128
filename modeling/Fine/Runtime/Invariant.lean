import Fine.Runtime.Elaborate

/-!
# Type objects are types

Every type has at most one object, so comparing pointers is comparing types.
-/

namespace Fine.RuntimeDetail

open Fine.Syntax Fine.Semantics Fine.Fallible List

namespace Map

variable {κ α : Type} [DecidableEq κ] {map : Map κ α} {key : κ} {entry : α}

theorem mem_of_lookup (found : map.lookup key = some entry) : (key, entry) ∈ map := by
  obtain ⟨front, back, shape, -⟩ := lookup_eq_some_iff.mp found
  rw [shape]
  simp

theorem lookup_of_mem (distinct : (map.map Prod.fst).Nodup) (member : (key, entry) ∈ map) :
    map.lookup key = some entry := by
  induction map with
  | nil => cases member
  | cons first rest ih =>
    obtain ⟨other, found⟩ := first
    rw [map_cons, nodup_cons] at distinct
    rcases mem_cons.mp member with same | later
    · cases same
      simp
    · have ne : key ≠ other := by
        rintro rfl
        exact distinct.1 (mem_map.mpr ⟨_, later, rfl⟩)
      rw [lookup_cons, beq_eq_false_iff_ne.mpr ne]
      exact ih distinct.2 later

theorem emplace_of_lookup (absent : map.lookup key = none) :
    map.emplace key entry = (key, entry) :: map := by
  simp [emplace, contains, absent]

end Map

namespace RuntimeType

theorem display_meaning (type : RuntimeType) : type.display = type.meaning.display := by
  induction type with
  | boolean | integer | enumeration | datatype => rfl
  | tuple address sequence first second one two | table address key value one two =>
    simp only [display, meaning, sort, Z3Sort.meaning, FineType.display] at *
    rw [one, two]

@[simp] theorem isTable_meaning (type : RuntimeType) : type.meaning.isTable = type.isTable := by
  cases type <;> rfl

end RuntimeType

def Runtime.objects (runtime : Runtime) : List RuntimeType :=
  runtime.types.map Prod.snd ++ runtime.compoundTypes.map Prod.snd

def NamedObject (name : Identifier) (type : RuntimeType) : Prop :=
  (name = boolName ∧ ∃ address, type = .boolean address) ∨
    (name = intName ∧ ∃ address, type = .integer address) ∨
    (name ≠ boolName ∧ name ≠ intName ∧
      ((∃ address, type = .enumeration address name) ∨ ∃ address, type = .datatype address name))

/-- The object of a compound type of other objects. -/
def CompoundObject (objects : List RuntimeType) (type : RuntimeType) : Prop :=
  ∃ first second, first ∈ objects ∧ second ∈ objects ∧ first.isTable = false ∧
    second.isTable = false ∧
    ((∃ address sequence, type = .tuple address sequence first second) ∨
      ∃ address, type = .table address first second)

variable {type : RuntimeType}

theorem CompoundObject.proper {objects : List RuntimeType} (compound : CompoundObject objects type)
    (parts : ∀ part ∈ objects, part.meaning.proper = true) : type.meaning.proper = true := by
  obtain ⟨first, second, one, two, -, -, shape⟩ := compound
  have left := parts first one
  have right := parts second two
  simp only [RuntimeType.meaning] at left right
  rcases shape with ⟨_, _, rfl⟩ | ⟨_, rfl⟩ <;>
    simp [RuntimeType.meaning, RuntimeType.sort, Z3Sort.meaning, FineType.proper, left, right]

/-- Every object is what its key says, and every address was allocated once. -/
structure Runtime.TypesValid (runtime : Runtime) : Prop where
  bool : runtime.types.lookup boolName = some runtime.boolType
  int : runtime.types.lookup intName = some runtime.intType
  named : ∀ name type, (name, type) ∈ runtime.types → NamedObject name type
  namedKeys : (runtime.types.map Prod.fst).Nodup
  compound : ∀ key type, (key, type) ∈ runtime.compoundTypes →
    type.display = key ∧ CompoundObject runtime.objects type
  compoundKeys : (runtime.compoundTypes.map Prod.fst).Nodup
  proper : ∀ type ∈ runtime.objects, type.meaning.proper = true
  allocated : ∀ type ∈ runtime.objects, type.address < runtime.nextAddress
  identity : ∀ left ∈ runtime.objects, ∀ right ∈ runtime.objects,
    left.address = right.address → left = right

variable {name : Identifier} {later : Runtime} {span : SourceSpan}

namespace Runtime.TypesValid

variable {runtime : Runtime} (valid : runtime.TypesValid)
include valid

theorem bool_mem : runtime.boolType ∈ runtime.objects :=
  mem_append_left _ (mem_map.mpr ⟨_, Map.mem_of_lookup valid.bool, rfl⟩)

theorem int_mem : runtime.intType ∈ runtime.objects :=
  mem_append_left _ (mem_map.mpr ⟨_, Map.mem_of_lookup valid.int, rfl⟩)

theorem bool_eq : ∃ address, runtime.boolType = .boolean address := by
  rcases valid.named _ _ (Map.mem_of_lookup valid.bool) with ⟨-, is⟩ | ⟨other, -⟩ | ⟨other, -⟩
  · exact is
  · exact absurd other (by decide)
  · exact absurd rfl other

theorem int_eq : ∃ address, runtime.intType = .integer address := by
  rcases valid.named _ _ (Map.mem_of_lookup valid.int) with ⟨other, -⟩ | ⟨-, is⟩ | ⟨-, other, -⟩
  · exact absurd other (by decide)
  · exact is
  · exact absurd rfl other

theorem named_unique {other : Identifier} {another : RuntimeType}
    (first : (name, type) ∈ runtime.types) (second : (other, another) ∈ runtime.types)
    (same : type.meaning = another.meaning) : type = another := by
  have names : name = other := by
    rcases valid.named _ _ first with ⟨rfl, _, rfl⟩ | ⟨rfl, _, rfl⟩ | ⟨_, _, ⟨_, rfl⟩ | ⟨_, rfl⟩⟩ <;>
    rcases valid.named _ _ second with
      ⟨rfl, _, rfl⟩ | ⟨rfl, _, rfl⟩ | ⟨_, _, ⟨_, rfl⟩ | ⟨_, rfl⟩⟩ <;>
    simp_all [RuntimeType.meaning, RuntimeType.sort, Z3Sort.meaning]
  subst names
  have one := Map.lookup_of_mem valid.namedKeys first
  rw [Map.lookup_of_mem valid.namedKeys second] at one
  exact (Option.some.inj one).symm

variable {left right : RuntimeType}

/-- A type has one object. -/
theorem unique (first : left ∈ runtime.objects) (second : right ∈ runtime.objects)
    (same : left.meaning = right.meaning) : left = right := by
  -- a named object is no compound one
  have apart : ∀ {name key type other}, (name, type) ∈ runtime.types →
      (key, other) ∈ runtime.compoundTypes → type.meaning ≠ other.meaning := by
    intro name key type other one two
    obtain ⟨-, f, g, -, -, -, -, shape⟩ := valid.compound _ _ two
    rcases valid.named _ _ one with ⟨-, _, rfl⟩ | ⟨-, _, rfl⟩ | ⟨-, -, ⟨_, rfl⟩ | ⟨_, rfl⟩⟩ <;>
    rcases shape with ⟨_, _, rfl⟩ | ⟨_, rfl⟩ <;>
    simp [RuntimeType.meaning, RuntimeType.sort, Z3Sort.meaning]
  unfold Runtime.objects at first second
  rcases mem_append.mp first with named | compound
  · obtain ⟨⟨name, type⟩, member, rfl⟩ := mem_map.mp named
    rcases mem_append.mp second with named' | compound'
    · obtain ⟨⟨name', type'⟩, member', rfl⟩ := mem_map.mp named'
      exact valid.named_unique member member' same
    · obtain ⟨⟨key, type'⟩, member', rfl⟩ := mem_map.mp compound'
      exact absurd same (apart member member')
  · obtain ⟨⟨key, type⟩, member, rfl⟩ := mem_map.mp compound
    rcases mem_append.mp second with named' | compound'
    · obtain ⟨⟨name', type'⟩, member', rfl⟩ := mem_map.mp named'
      exact absurd same.symm (apart member' member)
    · obtain ⟨⟨key', type'⟩, member', rfl⟩ := mem_map.mp compound'
      have keys : key = key' := by
        rw [← (valid.compound _ _ member).1, ← (valid.compound _ _ member').1,
          RuntimeType.display_meaning, RuntimeType.display_meaning]
        exact congrArg _ same
      subst keys
      have one := Map.lookup_of_mem valid.compoundKeys member
      rw [Map.lookup_of_mem valid.compoundKeys member'] at one
      exact (Option.some.inj one).symm

theorem same_iff (first : left ∈ runtime.objects) (second : right ∈ runtime.objects) :
    left.same right = true ↔ left.meaning = right.meaning := by
  rw [RuntimeType.same, beq_iff_eq]
  constructor
  · intro address
    rw [valid.identity _ first _ second address]
  · intro meaning
    rw [valid.unique first second meaning]

end Runtime.TypesValid

/-- More compound types and reserved names. -/
def Extends (first second : Runtime) : Prop :=
  ∃ added names address sequence, second = { first with
    nextAddress := address
    tupleSequence := sequence
    compoundTypes := added ++ first.compoundTypes
    valueNames := names ++ first.valueNames }

namespace Extends

variable {first second third : Runtime}

theorem refl (runtime : Runtime) : Extends runtime runtime := ⟨[], [], _, _, rfl⟩

theorem trans (left : Extends first second) (right : Extends second third) :
    Extends first third := by
  obtain ⟨added, names, address, sequence, rfl⟩ := left
  obtain ⟨added', names', address', sequence', rfl⟩ := right
  exact ⟨added' ++ added, names' ++ names, address', sequence', by simp⟩

theorem objects (extends_ : Extends first second) (member : type ∈ first.objects) :
    type ∈ second.objects := by
  obtain ⟨added, names, address, sequence, rfl⟩ := extends_
  simp only [Runtime.objects, map_append, mem_append] at member ⊢
  tauto

end Extends

/-- A compound object without a predecessor is allocated. -/
theorem Runtime.TypesValid.allocate {runtime : Runtime} (valid : runtime.TypesValid)
    (fresh : runtime.compoundTypes.lookup type.display = none)
    (address : type.address = runtime.nextAddress) (compound : CompoundObject runtime.objects type)
    (sequence : Nat) :
    ({ runtime with
      nextAddress := runtime.nextAddress + 1
      tupleSequence := sequence
      compoundTypes := (type.display, type) :: runtime.compoundTypes } : Runtime).TypesValid := by
  have objects : ∀ other, other ∈ ({ runtime with
      nextAddress := runtime.nextAddress + 1
      tupleSequence := sequence
      compoundTypes := (type.display, type) :: runtime.compoundTypes } : Runtime).objects ↔
      other = type ∨ other ∈ runtime.objects := by
    intro other
    simp only [Runtime.objects, map_cons, mem_append, mem_cons]
    tauto
  have grows : ∀ other, CompoundObject runtime.objects other → CompoundObject _ other :=
    fun other ⟨f, g, one, two, rest⟩ =>
      ⟨f, g, (objects f).mpr (.inr one), (objects g).mpr (.inr two), rest⟩
  constructor
  · exact valid.bool
  · exact valid.int
  · exact valid.named
  · exact valid.namedKeys
  · intro key other member
    rcases mem_cons.mp member with new | old
    · cases new
      exact ⟨rfl, grows _ compound⟩
    · exact ⟨(valid.compound _ _ old).1, grows _ (valid.compound _ _ old).2⟩
  · rw [map_cons, nodup_cons]
    refine ⟨fun member => ?_, valid.compoundKeys⟩
    obtain ⟨⟨key, other⟩, inside, same⟩ := mem_map.mp member
    cases same
    rw [Map.lookup_of_mem valid.compoundKeys inside] at fresh
    cases fresh
  · intro other member
    rcases (objects other).mp member with rfl | old
    · exact compound.proper valid.proper
    · exact valid.proper other old
  · intro other member
    rcases (objects other).mp member with rfl | old
    · exact Nat.lt_succ_of_le (Nat.le_of_eq address)
    · exact Nat.lt_succ_of_lt (valid.allocated other old)
  · intro left leftMember right rightMember same
    rcases (objects left).mp leftMember with rfl | old
    · rcases (objects right).mp rightMember with rfl | old'
      · rfl
      · have below := valid.allocated right old'
        omega
    · rcases (objects right).mp rightMember with rfl | old'
      · have below := valid.allocated left old
        omega
      · exact valid.identity _ old _ old' same

/-- An object found under the text of a type is of the type. -/
theorem Runtime.TypesValid.compound_found {runtime : Runtime} (valid : runtime.TypesValid)
    {found : RuntimeType} (compound : CompoundObject runtime.objects type)
    (lookup : runtime.compoundTypes.lookup type.display = some found) :
    found ∈ runtime.objects ∧ found.meaning = type.meaning := by
  have member := Map.mem_of_lookup lookup
  have inside : found ∈ runtime.objects := mem_append_right _ (mem_map.mpr ⟨_, member, rfl⟩)
  refine ⟨inside, FineType.display_injective (valid.proper _ inside)
    (compound.proper valid.proper) ?_⟩
  rw [← RuntimeType.display_meaning, ← RuntimeType.display_meaning, (valid.compound _ _ member).1]

/-- The object that the table has for a compound type. -/
structure Compounded (runtime later : Runtime) (type : RuntimeType) : Prop where
  extends_ : Extends runtime later
  valid : later.TypesValid
  listed : type ∈ later.objects

/-- Pairing gives the object of the tuple type. -/
theorem tupleType_ok {runtime : Runtime} (valid : runtime.TypesValid) {first second : RuntimeType}
    (one : first ∈ runtime.objects) (two : second ∈ runtime.objects)
    (run : (tupleType first second span).run runtime = .ok (type, later)) :
    Compounded runtime later type ∧ first.isTable = false ∧ second.isTable = false ∧
      ∃ address sequence, type = .tuple address sequence first second := by
  unfold tupleType at run
  split at run
  · cases run
  rename_i flat
  simp only [Bool.or_eq_true, not_or, Bool.not_eq_true] at flat
  simp only [run_get_bind] at run
  have compound : CompoundObject runtime.objects
      (.tuple runtime.nextAddress runtime.tupleSequence first second) :=
    ⟨first, second, one, two, flat.1, flat.2, .inl ⟨_, _, rfl⟩⟩
  split at run
  · rename_i found lookup
    cases run
    obtain ⟨inside, meaning⟩ := valid.compound_found compound lookup
    refine ⟨⟨.refl _, valid, inside⟩, flat.1, flat.2, ?_⟩
    -- the object found pairs the same two objects, as each type has one
    obtain ⟨-, f, g, left, right, -, -, shape⟩ := valid.compound _ _ (Map.mem_of_lookup lookup)
    rcases shape with ⟨address, sequence, rfl⟩ | ⟨address, rfl⟩
    · simp only [RuntimeType.meaning, RuntimeType.sort, Z3Sort.meaning, FineType.tuple.injEq]
        at meaning
      rw [valid.unique left one meaning.1, valid.unique right two meaning.2]
      exact ⟨_, _, rfl⟩
    · simp [RuntimeType.meaning, RuntimeType.sort, Z3Sort.meaning] at meaning
  · rename_i fresh
    cases run
    rw [Map.emplace_of_lookup fresh]
    have absent : runtime.compoundTypes.lookup (RuntimeType.tuple runtime.nextAddress
      runtime.tupleSequence first second).display = none := fresh
    have allocated := valid.allocate absent rfl compound (runtime.tupleSequence + 1)
    refine ⟨⟨⟨[_], [], _, _, rfl⟩, allocated, ?_⟩, flat.1, flat.2, _, _, rfl⟩
    simp [Runtime.objects]

theorem tupleType_total (runtime : Runtime) {first second : RuntimeType} (span : SourceSpan)
    (one : first.isTable = false) (two : second.isTable = false) :
    ∃ type later, (tupleType first second span).run runtime = .ok (type, later) := by
  unfold tupleType
  rw [if_neg (by simp [one, two])]
  simp only [run_get_bind]
  split
  · exact ⟨_, _, rfl⟩
  · exact ⟨_, _, rfl⟩

/-- A table type gives its object. -/
theorem tableType_ok {runtime : Runtime} (valid : runtime.TypesValid) {first second : RuntimeType}
    (one : first ∈ runtime.objects) (two : second ∈ runtime.objects)
    (run : (tableType first second span).run runtime = .ok (type, later)) :
    Compounded runtime later type ∧ ∃ address, type = .table address first second := by
  unfold tableType at run
  split at run
  · cases run
  rename_i flat
  simp only [Bool.or_eq_true, not_or, Bool.not_eq_true] at flat
  simp only [run_get_bind] at run
  have compound : CompoundObject runtime.objects (.table runtime.nextAddress first second) :=
    ⟨first, second, one, two, flat.1, flat.2, .inr ⟨_, rfl⟩⟩
  split at run
  · rename_i found lookup
    cases run
    obtain ⟨inside, meaning⟩ := valid.compound_found compound lookup
    refine ⟨⟨.refl _, valid, inside⟩, ?_⟩
    obtain ⟨-, f, g, left, right, -, -, shape⟩ := valid.compound _ _ (Map.mem_of_lookup lookup)
    rcases shape with ⟨address, sequence, rfl⟩ | ⟨address, rfl⟩
    · simp [RuntimeType.meaning, RuntimeType.sort, Z3Sort.meaning] at meaning
    · simp only [RuntimeType.meaning, RuntimeType.sort, Z3Sort.meaning, FineType.table.injEq]
        at meaning
      rw [valid.unique left one meaning.1, valid.unique right two meaning.2]
      exact ⟨_, rfl⟩
  · rename_i fresh
    cases run
    rw [Map.emplace_of_lookup fresh]
    have absent : runtime.compoundTypes.lookup
      (RuntimeType.table runtime.nextAddress first second).display = none := fresh
    have allocated := valid.allocate absent rfl compound runtime.tupleSequence
    refine ⟨⟨⟨[_], [], _, _, rfl⟩, allocated, ?_⟩, _, rfl⟩
    simp [Runtime.objects]

theorem namedType_ok {runtime : Runtime} (valid : runtime.TypesValid)
    (run : (namedType span name).run runtime = .ok (type, later)) :
    later = runtime ∧ (name, type) ∈ runtime.types ∧
      type.meaning = FineType.ofSyntax (.named span name) := by
  unfold namedType at run
  simp only [run_get_bind] at run
  split at run
  · rename_i found lookup
    cases run
    have member := Map.mem_of_lookup lookup
    refine ⟨rfl, member, ?_⟩
    rcases valid.named _ _ member with ⟨rfl, _, rfl⟩ | ⟨rfl, _, rfl⟩ | ⟨one, two, shape⟩
    · rfl
    · rfl
    · rcases shape with ⟨_, rfl⟩ | ⟨_, rfl⟩ <;>
        simp [RuntimeType.meaning, RuntimeType.sort, Z3Sort.meaning, FineType.ofSyntax, one, two]
  · cases run

/-- A written type gives the object of its type. -/
theorem resolveType_ok (written : TypeSyntax) {runtime : Runtime} (valid : runtime.TypesValid)
    (run : (resolveType written).run runtime = .ok (type, later)) :
    Compounded runtime later type ∧ type.meaning = FineType.ofSyntax written := by
  induction written using resolveType.induct generalizing runtime later type with
  | case1 span name =>
    rw [resolveType] at run
    obtain ⟨rfl, member, meaning⟩ := namedType_ok valid run
    exact ⟨⟨.refl _, valid, mem_append_left _ (mem_map.mpr ⟨_, member, rfl⟩)⟩, meaning⟩
  | case2 span first second firstIh secondIh =>
    rw [resolveType] at run
    obtain ⟨left, between, ran, run⟩ := run_bind_ok run
    obtain ⟨right, behind, ran', run⟩ := run_bind_ok run
    obtain ⟨one, meaning⟩ := firstIh valid ran
    obtain ⟨two, meaning'⟩ := secondIh one.valid ran'
    obtain ⟨three, -, -, address, sequence, rfl⟩ :=
      tupleType_ok two.valid (two.extends_.objects one.listed) two.listed run
    refine ⟨⟨(one.extends_.trans two.extends_).trans three.extends_, three.valid, three.listed⟩, ?_⟩
    rw [FineType.ofSyntax, ← meaning, ← meaning']
    rfl
  | case3 span arguments other =>
    rw [resolveType] at run
    · cases run
    · exact other
  | case4 span key value firstIh secondIh =>
    rw [resolveType] at run
    obtain ⟨left, between, ran, run⟩ := run_bind_ok run
    obtain ⟨right, behind, ran', run⟩ := run_bind_ok run
    obtain ⟨one, meaning⟩ := firstIh valid ran
    obtain ⟨two, meaning'⟩ := secondIh one.valid ran'
    obtain ⟨three, address, rfl⟩ :=
      tableType_ok two.valid (two.extends_.objects one.listed) two.listed run
    refine ⟨⟨(one.extends_.trans two.extends_).trans three.extends_, three.valid, three.listed⟩, ?_⟩
    rw [FineType.ofSyntax, ← meaning, ← meaning']
    rfl

end Fine.RuntimeDetail
