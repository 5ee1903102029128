import Fine.Runtime.Bindings

/-!
# Literals

Two elaborators read literals, one that is told the type and one that finds it. Both read the value
that is spelled.
-/

namespace Fine.RuntimeDetail

open Fine.Syntax Fine.Semantics Fine.Fallible List

variable {runtime later base : Runtime}

/-- Enumerations and datatypes are of their kind. -/
structure Runtime.Kinds (runtime : Runtime) : Prop where
  enums : ∀ name info, runtime.enums.lookup name = some info →
    ∃ address, info.type = .enumeration address info.name
  datatypes : ∀ name info, runtime.datatypes.lookup name = some info →
    ∃ address, info.type = .datatype address info.name

theorem Runtime.Kinds.leave (kinds : runtime.Kinds) (same : later.typeTables = runtime.typeTables) :
    later.Kinds := by
  simp only [Runtime.typeTables, Prod.mk.injEq] at same
  obtain ⟨-, datatypes, enums, -, -⟩ := same
  exact ⟨enums ▸ kinds.enums, datatypes ▸ kinds.datatypes⟩

theorem Reached.kinds (reached : Reached runtime) : runtime.Kinds := by
  induction reached with
  | initial => constructor <;> simp [Runtime.initial]
  | @declared runtime later declaration reached run ih =>
    by_cases enum : ∃ item, declaration = .enum item
    · obtain ⟨item, rfl⟩ := enum
      obtain ⟨middle, advances, declared⟩ := declareEnum_ok reached.inOrder.formed run
      have before := ih.leave advances.extends_.leaves.1
      cases declared with
      | datatype _ new =>
        refine ⟨before.enums, fun name info lookup => ?_⟩
        rcases Map.emplace_cases lookup with old | ⟨-, rfl⟩
        · exact before.datatypes name info old
        · exact ⟨_, new.type⟩
      | enumeration _ new =>
        refine ⟨fun name info lookup => ?_, before.datatypes⟩
        rcases Map.emplace_cases lookup with old | ⟨-, rfl⟩
        · exact before.enums name info old
        · exact ⟨_, new.type⟩
    · exact ih.leave ((declare_leaves reached.inOrder run).2.1 fun item is => enum ⟨item, is⟩).1
  | proved _ advances ih =>
    have middle := ih.leave advances.extends_.leaves.1
    exact ⟨middle.enums, middle.datatypes⟩

mutual

/-- Built from literals, tuples, names and constructors. -/
def Expr.constructed (constructors : Map Identifier (DatatypeInfo × DatatypeCaseInfo)) : Expr → Bool
  | .boolean _ _ | .integer _ _ | .name _ _ => true
  | .tuple _ elements => constructedAll constructors elements
  | .call _ name elements =>
    (constructors.lookup name).isSome && constructedAll constructors elements
  | .binary _ _ _ _ | .conditional _ _ _ _ | .hole _ _ => false

def constructedAll (constructors : Map Identifier (DatatypeInfo × DatatypeCaseInfo)) :
    List Expr → Bool
  | [] => true
  | element :: elements =>
    Expr.constructed constructors element && constructedAll constructors elements

end

/-- What is built of constructors has the value it spells. -/
def ElaboratesSpelled (base : Runtime) (expression : Expr) : Prop :=
  Expr.constructed base.constructors expression = true →
    ∀ {runtime later : Runtime} {result : TypedExpression}, runtime.Valid →
    runtime.typeTables = base.typeTables → (elaborate [] expression).run runtime = .ok (result, later) →
    Spells base expression result.expression result.type

theorem Environment.valid_nil : Environment.Valid [] runtime := nofun

/-- Arguments have the values they spell. -/
theorem elaborateArguments_spells {elements : List Expr} {types : List RuntimeType}
    {terms : List Term} {mismatch : Nat → RuntimeType → String} {index : Nat}
    (each : ∀ element ∈ elements, ElaboratesSpelled base element)
    (built : constructedAll base.constructors elements = true) (valid : runtime.Valid)
    (tables : runtime.typeTables = base.typeTables)
    (listed : ∀ type ∈ types, type ∈ runtime.objects) (length : elements.length = types.length)
    (run : (elaborateArguments [] mismatch index elements types).run runtime = .ok (terms, later)) :
    SpellsAll base elements terms types := by
  induction elements generalizing runtime types terms index with
  | nil =>
    obtain rfl := eq_nil_of_length_eq_zero length.symm
    cases run
    exact ⟨rfl, rfl⟩
  | cons element elements ih =>
    obtain ⟨type, types, rfl⟩ := exists_cons_of_length_eq_add_one length.symm
    rw [constructedAll, Bool.and_eq_true] at built
    obtain ⟨here, there⟩ := forall_mem_cons.mp each
    rw [elaborateArguments] at run
    obtain ⟨result, between, ran, run⟩ := run_bind_ok run
    have made := elaborate_ok element valid Environment.valid_nil ran
    have known := fun other member => made.extends_.objects (listed other member)
    split at run
    · cases run
    rename_i same
    simp only [Bool.not_eq_true', Bool.not_eq_false] at same
    rw [made.valid.types.same_iff made.listed (known type mem_cons_self)] at same
    obtain ⟨rest, _, ran', run⟩ := run_bind_ok run
    cases run
    refine ⟨_, rest, type, types, rfl, rfl, ?_, ih there built.2 made.valid
      (made.extends_.leaves.1.trans tables) (forall_mem_cons.mp known).2
      (Nat.succ.inj length) ran'⟩
    rw [← made.valid.types.unique made.listed (known type mem_cons_self) same]
    exact here built.1 valid tables ran

/-- What is built of constructors is elaborated as the value it spells. -/
theorem elaborate_spells (formed : base.WellFormed) (bound : base.Bound) (kinds : base.Kinds)
    (expression : Expr) : ElaboratesSpelled base expression := by
  induction expression with
  | boolean info value =>
    intro _ runtime later result valid _ run
    cases run
    exact ⟨valid.types.bool_eq, rfl⟩
  | integer info literal =>
    intro _ runtime later result valid _ run
    cases run
    exact ⟨valid.types.int_eq, rfl⟩
  | name info name =>
    intro _ runtime later result valid tables run
    simp only [Runtime.typeTables, Prod.mk.injEq] at tables
    simp only [elaborate, elaborateName, lookup_nil, run_get_bind, tables] at run
    split at run
    · rename_i entry index lookup
      cases run
      obtain ⟨known, -⟩ := bound.cases _ _ _ lookup
      obtain ⟨address, is⟩ := kinds.enums _ _ known
      exact .inl ⟨address, _, entry, index, is, known, mem_zipIdx_of_case formed bound lookup, rfl⟩
    · split at run
      · cases run
      rename_i entry item lookup
      split at run
      · rename_i flat
        cases run
        obtain ⟨known, member⟩ := bound.constructors _ _ _ lookup
        obtain ⟨address, is⟩ := kinds.datatypes _ _ known
        exact .inr ⟨address, _, entry, item, is, known, member,
          (formed.names.constructors _ _ _ lookup).1, by simpa using flat, rfl⟩
      · cases run
  | tuple info elements ih =>
    intro built runtime later result valid tables run
    rcases elements with _ | ⟨left, _ | ⟨right, _ | _⟩⟩
    case cons.cons.nil =>
      simp only [Expr.constructed, constructedAll, Bool.and_eq_true] at built
      rw [elaborate] at run
      obtain ⟨first, between, ran, run⟩ := run_bind_ok run
      obtain ⟨second, behind, ran', run⟩ := run_bind_ok run
      obtain ⟨type, _, paired, run⟩ := run_bind_ok run
      cases run
      have one := elaborate_ok left valid Environment.valid_nil ran
      have two := elaborate_ok right one.valid Environment.valid_nil ran'
      obtain ⟨-, -, -, address, sequence, rfl⟩ :=
        tupleType_ok two.valid.types (two.extends_.objects one.listed) two.listed paired
      have leftSpells := ih left (by simp) built.1 valid tables ran
      have rightSpells := ih right (by simp) built.2.1 one.valid
        (one.extends_.leaves.1.trans tables) ran'
      exact ⟨_, _, _, _, _, rfl, rfl, _, _, _, _, rfl, rfl, leftSpells, _, _, _, _, rfl, rfl,
        rightSpells, rfl, rfl⟩
    all_goals cases run
  | call info name elements ih =>
    intro built runtime later result valid tables run
    rw [Expr.constructed, Bool.and_eq_true] at built
    obtain ⟨⟨entry, item⟩, lookup⟩ := Option.isSome_iff_exists.mp built.1
    have same := tables
    simp only [Runtime.typeTables, Prod.mk.injEq] at same
    have callee : runtime.callee? name = some (constructorCallee name entry item) := by
      rw [Runtime.callee?, same.2.2.2.2, lookup]
    rw [elaborate, run_get_bind, callee] at run
    simp only at run
    split at run
    · cases run
    rename_i arity
    obtain ⟨terms, _, ran, run⟩ := run_bind_ok run
    cases run
    obtain ⟨known, member⟩ := bound.constructors _ _ _ lookup
    obtain ⟨address, is⟩ := kinds.datatypes _ _ known
    exact ⟨address, _, entry, item, terms, is, known, member,
      (formed.names.constructors _ _ _ lookup).1, rfl, elaborateArguments_spells ih built.2 valid
        tables (callee?_fits valid callee).parameters (by simpa [constructorCallee] using arity) ran⟩
  | binary | conditional | hole =>
    intro built
    cases built

/-- The elaborators of literals agree: what is read in a table cell is elaborated with the same type
object and the identical term, and what is elaborated from literals, tuples, cases and constructors
is read in a cell of its type as the identical term. -/
theorem value_elaborate_agree (reached : Reached runtime) (expression : Expr) :
    (∀ type ∈ runtime.objects, ∀ term later,
      (value expression type).run runtime = .ok (term, later) →
        (elaborate [] expression).run runtime = .ok (⟨type, term⟩, later)) ∧
      (Expr.constructed runtime.constructors expression = true → ∀ result later,
        (elaborate [] expression).run runtime = .ok (result, later) →
          (value expression result.type).run later = .ok (result.expression, later)) := by
  have formed := reached.inOrder.formed
  constructor
  · intro type listed term later run
    obtain rfl := value_state expression run
    exact elaborate_spelled formed expression listed
      (value_spells formed reached.bound expression listed run)
  · intro built result later run
    have made := elaborate_ok expression formed.toValid Environment.valid_nil run
    have after : Reached later := reached.proved ⟨made.extends_, made.valid⟩
    have same := made.extends_.leaves.1
    refine value_spelled after.inOrder.formed expression made.listed
      (elaborate_spells after.inOrder.formed after.bound after.kinds expression ?_ formed.toValid
        same.symm run)
    simp only [Runtime.typeTables, Prod.mk.injEq] at same
    rwa [same.2.2.2.2]

/-- A pair is read as it is elaborated. -/
theorem value_elaborate_agree_pair : ∃ result later,
    (elaborate [] (.tuple {} [.integer {} (.ofInt 1), .boolean {} true])).run .initial =
      .ok (result, later) ∧
    (value (.tuple {} [.integer {} (.ofInt 1), .boolean {} true]) result.type).run later =
      .ok (result.expression, later) :=
  ⟨_, _, rfl, (value_elaborate_agree .initial _).2 rfl _ _ rfl⟩

/-! ## Tables -/

section

variable {interp : Interp} {term : Term} {type key range : RuntimeType} {assignment : Assignment}

/-- Values of a type that mean the same are the same term. -/
theorem GroundValue.canonical (formed : runtime.WellFormed) (one : GroundValue runtime term type) :
    ∀ {other : Term}, GroundValue runtime other type →
      (eval interp term assignment).toValue = (eval interp other assignment).toValue →
        term = other := by
  have all : ∀ {terms others : List Term} {types : List RuntimeType},
      Forall₂ (fun term type => ∀ {other : Term}, GroundValue runtime other type →
        (eval interp term assignment).toValue = (eval interp other assignment).toValue →
          term = other) terms types →
      Forall₂ (GroundValue runtime) others types →
      (terms.map fun term => (eval interp term assignment).toValue) =
        (others.map fun term => (eval interp term assignment).toValue) → terms = others := by
    intro terms others types each
    induction each generalizing others with
    | nil =>
      rintro ⟨⟩ -
      rfl
    | cons head _ ih =>
      rintro (_ | ⟨here, there⟩) same
      rw [map_cons, map_cons, List.cons.injEq] at same
      rw [head here same.1, ih there same.2]
  induction one using GroundValue.members_induction with
  | boolean value =>
    rintro other ⟨⟩ same
    rename_i value'
    cases value <;> cases value' <;>
      simp_all [Term.boolVal, eval_app, FuncDecl.apply, Element.truth, Element.toValue]
  | integer =>
    rintro other ⟨⟩ same
    simpa [eval, Element.toValue] using same
  | enumeration found =>
    intro other two same
    cases two with
    | enumeration found' =>
      cases found.symm.trans found'
      simp only [EnumInfo.value, eval_app, FuncDecl.apply, Element.toValue, Value.con.injEq] at same
      rw [EnumInfo.value, EnumInfo.value, same.1]
  | datatype found member inner each =>
    intro other two same
    cases two with
    | datatype found' member' inner' =>
      cases found.symm.trans found'
      simp only [DatatypeCaseInfo.constructor, eval_app, FuncDecl.apply, Element.toValue,
        Value.con.injEq, map_map] at same
      obtain rfl := formed.case_unique found member member' same.1
      rw [all (each.imp fun _ _ known => known.choose_spec) inner' same.2]
  | tuple _ _ left right =>
    intro other two same
    cases two with
    | tuple one' two' =>
      simp only [eval_app, map_cons, map_nil, FuncDecl.apply, Element.toValue,
        Value.pair.injEq] at same
      rw [left one' same.1, right two' same.2]

noncomputable def valueOf (runtime : Runtime) (interp : Interp) (expression : Expr) : Value :=
  (denote runtime.signature interp (fun _ => none) expression).toValue

/-- Listed values at the listed keys, and what was before elsewhere. -/
structure MapsTo (runtime : Runtime) (interp : Interp) (entries : List TableEntry)
    (before after : Value → Value) : Prop where
  listed : ∀ item ∈ entries, after (valueOf runtime interp item.key) =
    valueOf runtime interp item.value
  other : ∀ value, (∀ item ∈ entries, valueOf runtime interp item.key ≠ value) →
    after value = before value
  distinct : (entries.map fun item => valueOf runtime interp item.key).Nodup

variable (formed : runtime.WellFormed) (bound : runtime.Bound) (free : runtime.Free interp)

include formed bound free

theorem value_denotes {expression : Expr} (listed : type ∈ runtime.objects)
    (run : (value expression type).run runtime = .ok (term, later)) :
    runtime = later ∧ GroundValue runtime term type ∧ ∀ assignment,
      eval interp term assignment = .plain (valueOf runtime interp expression) := by
  have spells := value_spells formed bound expression listed run
  have made := elaborate_ok expression formed.toValid Environment.valid_nil
    (elaborate_spelled formed expression listed spells)
  obtain ⟨value, means, -⟩ := spells.ground.means free
  refine ⟨value_state expression run, spells.ground, fun assignment => ?_⟩
  have same : valueOf runtime interp expression = value := by
    have denoted := made.denotes interp assignment
    rw [means] at denoted
    exact (congrArg Element.toValue denoted).symm
  rw [means, same]

/-- Entries are read when their cells are, and their keys are new. -/
theorem tableEntries_reads (keys : key ∈ runtime.objects) {entries : List TableEntry}
    {seen : List Term} {table : Term} (assignment : Assignment)
    (cells : ∀ item ∈ entries, (∃ at_, (value item.key key).run runtime = .ok (at_, runtime)) ∧
      ∃ stored, (value item.value range).run runtime = .ok (stored, runtime))
    (distinct : (entries.map fun item => valueOf runtime interp item.key).Nodup)
    (apart : ∀ item ∈ entries, ∀ term ∈ seen,
      eval interp term assignment ≠ .plain (valueOf runtime interp item.key)) :
    ∃ result, (tableEntries key range seen table entries).run runtime = .ok (result, runtime) := by
  induction entries generalizing seen table with
  | nil => exact ⟨table, rfl⟩
  | cons item entries ih =>
    obtain ⟨⟨⟨at_, first⟩, stored, second⟩, cells⟩ := forall_mem_cons.mp cells
    obtain ⟨here, apart⟩ := forall_mem_cons.mp apart
    obtain ⟨new, distinct⟩ := nodup_cons.mp distinct
    obtain ⟨-, -, means⟩ := value_denotes formed bound free keys first
    rw [tableEntries, run_bind_of_ok first, if_neg fun known => here at_ known (means assignment),
      run_bind_of_ok second]
    refine ih cells distinct fun other member => forall_mem_cons.mpr ⟨?_, apart other member⟩
    rw [means]
    exact fun same => new (mem_map.mpr ⟨other, member, (Element.plain.inj same).symm⟩)

/-- Entries are stored as a finite map, and keys are new. -/
theorem tableEntries_maps (keys : key ∈ runtime.objects) (ranges : range ∈ runtime.objects)
    {entries : List TableEntry} {seen : List Term} {table result : Term} {before : Value → Value}
    (known : ∀ term ∈ seen, GroundValue runtime term key)
    (start : ∀ assignment, eval interp table assignment = .table before)
    (run : (tableEntries key range seen table entries).run runtime = .ok (result, later)) :
    ∃ after, (∀ assignment, eval interp result assignment = .table after) ∧
      MapsTo runtime interp entries before after ∧
      (∀ item ∈ entries, (∃ at_, (value item.key key).run runtime = .ok (at_, runtime)) ∧
        ∃ stored, (value item.value range).run runtime = .ok (stored, runtime)) ∧
      ∀ item ∈ entries, ∀ term ∈ seen, ∀ assignment,
        eval interp term assignment ≠ .plain (valueOf runtime interp item.key) := by
  induction entries generalizing seen table before with
  | nil =>
    cases run
    exact ⟨before, start, ⟨by simp, fun _ _ => rfl, by simp⟩, by simp, by simp⟩
  | cons item entries ih =>
    rw [tableEntries] at run
    obtain ⟨at_, _, first, run⟩ := run_bind_ok run
    obtain ⟨rfl, ground, means⟩ := value_denotes formed bound free keys first
    split at run
    · cases run
    rename_i fresh
    obtain ⟨stored, _, second, run⟩ := run_bind_ok run
    obtain ⟨rfl, -, means'⟩ := value_denotes formed bound free ranges second
    have store : ∀ assignment, eval interp (.app (.store key.sort range.sort) [table, at_, stored])
        assignment = .table (open Classical in fun other => if other = valueOf runtime interp item.key
          then valueOf runtime interp item.value else before other) := by
      intro assignment
      simp only [eval_app, map_cons, map_nil, start, means, means']
      rfl
    obtain ⟨after, shown, maps, cells, apart⟩ := ih (forall_mem_cons.mpr ⟨ground, known⟩) store run
    have here : ∀ other ∈ entries, valueOf runtime interp other.key ≠
        valueOf runtime interp item.key := fun other member same =>
      apart other member at_ mem_cons_self (fun _ => default) (by rw [means, same])
    refine ⟨after, shown, ⟨forall_mem_cons.mpr ⟨?_, maps.listed⟩, fun value outside => ?_,
      nodup_cons.mpr ⟨fun member => ?_, maps.distinct⟩⟩,
      forall_mem_cons.mpr ⟨⟨⟨at_, first⟩, stored, second⟩, cells⟩,
      forall_mem_cons.mpr ⟨fun term member assignment same => fresh ?_, fun other member term
        inside => apart other member term (mem_cons_of_mem _ inside)⟩⟩
    · rw [maps.other _ here, if_pos rfl]
    · obtain ⟨this, those⟩ := forall_mem_cons.mp outside
      rw [maps.other _ those, if_neg this.symm]
    · obtain ⟨other, inside, same⟩ := mem_map.mp member
      exact here other inside same
    · have one : (eval interp at_ assignment).toValue = (eval interp term assignment).toValue := by
        rw [means, same]
      rwa [ground.canonical formed (known term member) one]

end

/-- An accepted table literal denotes a finite map: the listed value at every listed key and the
default elsewhere. Its keys denote different values, so a literal with two keys of one value is
rejected, and in any order its entries are accepted and give an equal table. -/
theorem tableValue_maps {interp : Interp} {key range : RuntimeType} {address : Nat}
    {literal : TableLiteral} {term : Term} (reached : Reached runtime) (free : runtime.Free interp)
    (listed : RuntimeType.table address key range ∈ runtime.objects)
    (run : (tableValue key range literal).run runtime = .ok (term, later)) :
    ∃ entry, (∀ assignment, eval interp term assignment = .table entry) ∧
      (∀ item ∈ literal.entries, entry (valueOf runtime interp item.key) =
        valueOf runtime interp item.value) ∧
      (∀ value, Inhabits interp.shapes value key.meaning →
        (∀ item ∈ literal.entries, valueOf runtime interp item.key ≠ value) →
          entry value = valueOf runtime interp literal.defaultValue) ∧
      (literal.entries.map fun item => valueOf runtime interp item.key).Nodup ∧
      ∀ entries, entries.Perm literal.entries → ∃ other entry',
        (tableValue key range { literal with entries := entries }).run runtime =
          .ok (other, runtime) ∧ (∀ assignment, eval interp other assignment = .table entry') ∧
        ∀ value, Inhabits interp.shapes value key.meaning → entry' value = entry value := by
  have formed := reached.inOrder.formed
  have bound := reached.bound
  obtain ⟨-, keys, ranges, -, -⟩ := formed.types.compound_lookup listed (.inr ⟨_, rfl⟩)
  unfold tableValue at run
  obtain ⟨rest, _, first, run⟩ := run_bind_ok run
  obtain ⟨rfl, -, means⟩ := value_denotes formed bound free ranges first
  have start : ∀ assignment, eval interp (.app (.constArray key.sort range.sort) [rest])
      assignment = .table (open Classical in fun value => if Inhabits interp.shapes value key.meaning
        then valueOf runtime interp literal.defaultValue else default) := by
    intro assignment
    simp only [eval_app, map_singleton, means]
    rfl
  obtain ⟨entry, shown, maps, cells, -⟩ :=
    tableEntries_maps formed bound free keys ranges (by simp) start run
  refine ⟨entry, shown, maps.listed, fun value inside outside => ?_, maps.distinct,
    fun entries perm => ?_⟩
  · rw [maps.other value outside, if_pos inside]
  · have reads : ∃ other, (tableEntries key range [] (.app (.constArray key.sort range.sort) [rest])
        entries).run runtime = .ok (other, runtime) :=
      tableEntries_reads formed bound free keys (fun _ => default)
        (fun item member => cells item (perm.subset member))
        ((perm.map _).nodup_iff.mpr maps.distinct) (by simp)
    obtain ⟨other, again⟩ := reads
    obtain ⟨entry', shown', maps', -⟩ :=
      tableEntries_maps formed bound free keys ranges (by simp) start again
    refine ⟨other, entry', ?_, shown', fun value _ => ?_⟩
    · rw [tableValue, run_bind_of_ok first]
      exact again
    · by_cases known : ∃ item ∈ literal.entries, valueOf runtime interp item.key = value
      · obtain ⟨item, member, rfl⟩ := known
        rw [maps.listed item member, maps'.listed item (perm.mem_iff.mpr member)]
      · have none : ∀ item ∈ literal.entries, valueOf runtime interp item.key ≠ value :=
          fun item member same => known ⟨item, member, same⟩
        rw [maps.other value none, maps'.other value fun item member =>
          none item (perm.mem_iff.mp member)]

def numberEntry (key value : Int) : TableEntry :=
  ⟨{}, .integer {} (.ofInt key), .integer {} (.ofInt value)⟩

def numberTable (entries : List TableEntry) : TableLiteral := ⟨{}, .integer {} (.ofInt 0), entries⟩

/-- Three entries denote their values in either of two orders. -/
theorem tableValue_maps_three : ∃ runtime later address term other entry entry', Reached runtime ∧
    RuntimeType.table address (.integer 1) (.integer 1) ∈ runtime.objects ∧
    (tableValue (.integer 1) (.integer 1) (numberTable [numberEntry 1 10, numberEntry 2 20,
      numberEntry 3 30])).run runtime = .ok (term, later) ∧
    (∀ assignment, eval ⟨fun _ => none, fun _ _ => default, fun _ _ => False, fun _ _ _ => default⟩
      term assignment = .table entry) ∧
    (entry (.int 1), entry (.int 2), entry (.int 3), entry (.int 4)) =
      (.int 10, .int 20, .int 30, .int 0) ∧
    (tableValue (.integer 1) (.integer 1) (numberTable [numberEntry 3 30, numberEntry 1 10,
      numberEntry 2 20])).run runtime = .ok (other, runtime) ∧
    (∀ assignment, eval ⟨fun _ => none, fun _ _ => default, fun _ _ => False, fun _ _ _ => default⟩
      other assignment = .table entry') ∧
    ∀ number : Int, entry' (.int number) = entry (.int number) := by
  have resolved : (resolveType (.table {} (.named {} intName) (.named {} intName))).run .initial =
      .ok (_, _) := rfl
  obtain ⟨advances, listed, -⟩ := resolveType_advances Runtime.initial_valid resolved
  have reached := @Reached.proved _ _ [] [] .initial advances
  obtain ⟨entry, shown, at_, elsewhere, -, orders⟩ := tableValue_maps reached
    ⟨fun _ _ (found : none = some _) => (nomatch found),
      fun _ _ (found : none = some _) => (nomatch found)⟩ listed
    (show (tableValue _ _ (numberTable [numberEntry 1 10, numberEntry 2 20,
      numberEntry 3 30])).run _ = .ok (_, _) from rfl)
  obtain ⟨other, entry', run, shown', same⟩ := orders [numberEntry 3 30, numberEntry 1 10,
    numberEntry 2 20] 
    (@perm_append_comm _ [numberEntry 3 30] [numberEntry 1 10, numberEntry 2 20])
  have inhabits : ∀ number : Int, Inhabits (fun _ => none) (.int number)
      (RuntimeType.integer 1).meaning := by
    intro number
    rw [Inhabits]
    rfl
  have last := elsewhere (.int 4) (inhabits 4)
  simp only [numberTable, numberEntry, valueOf, denote, Element.toValue, IntegerText.value_ofInt,
    forall_mem_cons] at at_ last
  refine ⟨_, _, _, _, other, entry, entry', reached, listed, rfl, shown, ?_, run, shown',
    fun number => same _ (inhabits number)⟩
  rw [at_.1, at_.2.1, at_.2.2.1, last (by simp)]

end Fine.RuntimeDetail
