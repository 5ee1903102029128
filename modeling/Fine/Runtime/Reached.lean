import Fine.Runtime.Predicates

/-!
# The states that a run reaches

A document is executed one declaration after another, and all tables stay in order.
-/

namespace Fine.RuntimeDetail

open Fine.Syntax Fine.Semantics Fine.Fallible

variable {runtime later : Runtime}

def declare : Declaration → Run Unit
  | .enum declaration => declareEnum declaration
  | .function declaration => declareFunction declaration
  | .letBinding declaration => declareLet declaration
  | .model declaration => declareModel declaration
  | .view declaration => declareView declaration
  | .predicate declaration => declarePredicate declaration
  | _ => pure ()

/-- Reached by declarations and proofs in between. -/
inductive Reached : Runtime → Prop where
  | initial : Reached .initial
  | declared {runtime later declaration} : Reached runtime →
      (declare declaration).run runtime = .ok ((), later) → Reached later
  | proved {runtime middle output proofs} : Reached runtime → Advances runtime middle →
      Reached { middle with output := output, admittedProofs := proofs }

/-- All tables and views are in order. -/
structure Runtime.InOrder (runtime : Runtime) : Prop where
  formed : runtime.WellFormed
  views : runtime.ViewsValid

theorem Runtime.InOrder.initial : Runtime.initial.InOrder := by
  refine ⟨⟨Runtime.initial_valid, ⟨?_, ?_, ?_, ?_, ?_, ?_, ?_⟩⟩, ?_⟩
  · intro name declared
    simp [Runtime.Declares, Runtime.initial] at declared
  · intro key address name member
    simp [Runtime.initial] at member
  · intro key address name member
    simp [Runtime.initial] at member
  all_goals simp [Runtime.ViewsValid, Runtime.initial]

theorem EnumDeclared.objects {declaration : EnumDecl}
    (declared : EnumDeclared declaration runtime later) :
    ∀ type ∈ runtime.objects, type ∈ later.objects := by
  intro type member
  cases declared with
  | @datatype info _ new =>
    have types : (runtime.addDatatype info).types = (info.name, info.type) :: runtime.types :=
      Map.emplace_of_lookup new.fresh
    have compound : (runtime.addDatatype info).compoundTypes = runtime.compoundTypes := rfl
    exact (Runtime.mem_objects_cons types compound type).mpr (.inr member)
  | @enumeration info _ new =>
    have types : (runtime.addEnum info).types = (info.name, info.type) :: runtime.types :=
      Map.emplace_of_lookup new.fresh
    have compound : (runtime.addEnum info).compoundTypes = runtime.compoundTypes := rfl
    exact (Runtime.mem_objects_cons types compound type).mpr (.inr member)

theorem EnumDeclared.views_eq {declaration : EnumDecl}
    (declared : EnumDeclared declaration runtime later) : later.views = runtime.views := by
  cases declared with
  | datatype => rfl
  | enumeration => rfl

theorem FunctionDeclared.inOrder {declaration : FunctionDecl} {middle after : Runtime}
    {frame : FunctionFrame} {branches : List (Term × Term)}
    (declared : FunctionDeclared declaration middle after frame branches)
    (order : middle.InOrder) : (after.addDefinition (frame.definition branches)).InOrder := by
  have entered : (middle.addFunction ⟨declaration.name, frame.formals.map Formal.type,
      frame.resultType⟩).WellFormed := by
    refine addFunction_wellFormed order.formed ?_ declared.result.1 declared.new
    intro type member
    obtain ⟨formal, inside, rfl⟩ := List.mem_map.mp member
    exact declared.formals.listed formal inside
  have advances := declared.arms.advances
  refine ⟨(keeps_addDefinition _ _).wellFormed (advances.wellFormed entered), ?_⟩
  have views : after.ViewsValid := advances.viewsValid (order.views.grow rfl fun _ => id)
  exact views.grow rfl fun _ => id

/-- A declaration leaves all tables in order. -/
theorem Runtime.InOrder.declare (order : runtime.InOrder) {declaration : Declaration}
    (run : (declare declaration).run runtime = .ok ((), later)) : later.InOrder := by
  have grow : ∀ {middle}, Advances runtime middle → middle.InOrder := fun advances =>
    ⟨advances.wellFormed order.formed, advances.viewsValid order.views⟩
  cases declaration with
  | enum declaration =>
    obtain ⟨middle, advances, declared⟩ := declareEnum_ok order.formed run
    exact ⟨declared.wellFormed (grow advances).formed,
      (grow advances).views.grow declared.views_eq declared.objects⟩
  | function declaration =>
    obtain ⟨middle, after, frame, branches, advances, declared, rfl⟩ :=
      declareFunction_ok order.formed run
    exact declared.inOrder (grow advances)
  | letBinding declaration =>
    obtain ⟨middle, bindings, advances, rfl⟩ := declareLet_ok order.formed.toValid run
    exact ⟨Keeps.wellFormed ⟨_, _, _, _, _, _, rfl⟩ (grow advances).formed,
      (grow advances).views.grow rfl fun _ => id⟩
  | model declaration =>
    obtain ⟨middle, bindings, advances, rfl⟩ := declareModel_ok order.formed.toValid run
    exact ⟨Keeps.wellFormed ⟨_, _, _, _, _, _, rfl⟩ (grow advances).formed,
      (grow advances).views.grow rfl fun _ => id⟩
  | view declaration =>
    obtain ⟨middle, view, advances, known, rfl⟩ := declareView_ok order.formed.toValid run
    refine ⟨Keeps.wellFormed ⟨_, _, _, _, _, _, rfl⟩ (grow advances).formed, ?_⟩
    intro name found lookup
    rcases Map.emplace_cases lookup with old | ⟨-, rfl⟩
    · exact ((grow advances).views name found old).grow fun _ => id
    · exact known.grow fun _ => id
  | predicate declaration =>
    obtain ⟨middle, after, indices, kept, advances, declared, rfl⟩ :=
      declarePredicate_ok order.formed order.views run
    obtain ⟨formed, views⟩ := declared.wellFormed (grow advances).formed (grow advances).views
    exact ⟨formed, views⟩
  | solve | synth | check | counterexample => cases run; exact order

theorem Reached.inOrder (reached : Reached runtime) : runtime.InOrder := by
  induction reached with
  | initial => exact .initial
  | declared _ run ih => exact ih.declare run
  | proved _ advances ih =>
    exact ⟨Keeps.wellFormed ⟨_, _, _, _, _, _, rfl⟩ (advances.wellFormed ih.formed),
      (advances.viewsValid ih.views).grow rfl fun _ => id⟩

/-- The tables of the declared types and of their members. -/
def Runtime.typeTables (runtime : Runtime) :=
  (runtime.types, runtime.datatypes, runtime.enums, runtime.cases, runtime.constructors)

theorem Extends.leaves (extends_ : Extends runtime later) :
    later.typeTables = runtime.typeTables ∧ later.bindings = runtime.bindings := by
  obtain ⟨_, _, _, _, rfl⟩ := extends_
  exact ⟨rfl, rfl⟩

/-- Only types change the tables of types, lets and models the bindings, views the views. -/
theorem declare_leaves (order : runtime.InOrder) {declaration : Declaration}
    (run : (declare declaration).run runtime = .ok ((), later)) :
    (∀ type ∈ runtime.objects, type ∈ later.objects) ∧
      ((∀ item, declaration ≠ .enum item) → later.typeTables = runtime.typeTables ∧
        ((∀ item, declaration ≠ .letBinding item) → (∀ item, declaration ≠ .model item) →
          later.bindings = runtime.bindings)) ∧
      ((∀ item, declaration ≠ .view item) → later.views = runtime.views) := by
  cases declaration with
  | enum declaration =>
    obtain ⟨middle, ⟨extends_, -⟩, declared⟩ := declareEnum_ok order.formed run
    exact ⟨fun type known => declared.objects type (extends_.objects known),
      fun other => absurd rfl (other _), fun _ => declared.views_eq.trans extends_.views_eq⟩
  | function declaration =>
    obtain ⟨middle, after, frame, branches, ⟨extends_, -⟩, declared, rfl⟩ :=
      declareFunction_ok order.formed run
    obtain ⟨tables, bindings⟩ := extends_.leaves
    have arms := declared.arms.advances.extends_
    exact ⟨fun type known => arms.objects (extends_.objects known), fun _ =>
      ⟨arms.leaves.1.trans tables, fun _ _ => arms.leaves.2.trans bindings⟩,
      fun _ => arms.views_eq.trans extends_.views_eq⟩
  | letBinding declaration =>
    obtain ⟨middle, bindings, ⟨extends_, -⟩, rfl⟩ := declareLet_ok order.formed.toValid run
    exact ⟨fun _ => extends_.objects, fun _ => ⟨extends_.leaves.1, fun other => absurd rfl (other _)⟩,
      fun _ => extends_.views_eq⟩
  | model declaration =>
    obtain ⟨middle, bindings, ⟨extends_, -⟩, rfl⟩ := declareModel_ok order.formed.toValid run
    exact ⟨fun _ => extends_.objects, fun _ => ⟨extends_.leaves.1, fun _ other =>
      absurd rfl (other _)⟩, fun _ => extends_.views_eq⟩
  | view declaration =>
    obtain ⟨middle, view, ⟨extends_, -⟩, known, rfl⟩ := declareView_ok order.formed.toValid run
    exact ⟨fun _ => extends_.objects, fun _ => ⟨extends_.leaves.1, fun _ _ => extends_.leaves.2⟩,
      fun other => absurd rfl (other _)⟩
  | predicate declaration =>
    obtain ⟨middle, after, indices, kept, ⟨extends_, -⟩, declared, rfl⟩ :=
      declarePredicate_ok order.formed order.views run
    obtain ⟨tables, bindings⟩ := extends_.leaves
    have rules := declared.rules.extends_
    exact ⟨fun type known => rules.objects (extends_.objects known), fun _ =>
      ⟨rules.leaves.1.trans tables, fun _ _ => rules.leaves.2.trans bindings⟩,
      fun _ => rules.views_eq.trans extends_.views_eq⟩
  | solve | synth | check | counterexample =>
    cases run
    exact ⟨fun _ => id, fun _ => ⟨rfl, fun _ _ => rfl⟩, fun _ => rfl⟩

/-- One shape over the same built-in and declared types. -/
def RuntimeType.alike : RuntimeType → RuntimeType → Bool
  | .boolean _, .boolean _ | .integer _, .integer _ => true
  | .enumeration _ name, .enumeration _ other | .datatype _ name, .datatype _ other => name == other
  | .tuple _ _ first second, .tuple _ _ first' second'
  | .table _ first second, .table _ first' second' => first.alike first' && second.alike second'
  | _, _ => false

/-- Types that are resolved, paired, of a field or of an expression on the way. -/
inductive Obtained : Runtime → List RuntimeType → Prop where
  | initial : Obtained .initial []
  | declared {runtime later types declaration} : Obtained runtime types →
      (declare declaration).run runtime = .ok ((), later) → Obtained later types
  | proved {runtime middle types output proofs} : Obtained runtime types →
      Advances runtime middle →
      Obtained { middle with output := output, admittedProofs := proofs } types
  | resolved {runtime later types written type} : Obtained runtime types →
      (resolveType written).run runtime = .ok (type, later) → Obtained later (type :: types)
  | paired {runtime later types first second span type} : Obtained runtime types →
      first ∈ types → second ∈ types →
      (tupleType first second span).run runtime = .ok (type, later) →
      Obtained later (type :: types)
  | field {runtime types name info item type} : Obtained runtime types →
      runtime.constructors.lookup name = some (info, item) → type ∈ item.fieldTypes →
      Obtained runtime (type :: types)
  | elaborated {runtime later types environment expression result} : Obtained runtime types →
      environment.Valid runtime →
      (elaborate environment expression).run runtime = .ok (result, later) →
      Obtained later (result.type :: types)

/-- What is obtained is an object of a state in order. -/
theorem Obtained.listed {types : List RuntimeType} (obtained : Obtained runtime types) :
    runtime.InOrder ∧ ∀ type ∈ types, type ∈ runtime.objects := by
  have step : ∀ {first second : Runtime} {types : List RuntimeType} {type : RuntimeType},
      Advances first second → type ∈ second.objects →
      (first.InOrder ∧ ∀ type ∈ types, type ∈ first.objects) →
      second.InOrder ∧ ∀ other ∈ type :: types, other ∈ second.objects :=
    fun advances new ⟨order, old⟩ =>
      ⟨⟨advances.wellFormed order.formed, advances.viewsValid order.views⟩,
        List.forall_mem_cons.mpr ⟨new, fun _ known => advances.extends_.objects (old _ known)⟩⟩
  induction obtained with
  | initial => exact ⟨.initial, fun _ none => absurd none List.not_mem_nil⟩
  | declared _ run ih =>
    exact ⟨ih.1.declare run, fun type known => (declare_leaves ih.1 run).1 type (ih.2 type known)⟩
  | proved _ advances ih =>
    exact ⟨⟨Keeps.wellFormed ⟨_, _, _, _, _, _, rfl⟩ (advances.wellFormed ih.1.formed),
      (advances.viewsValid ih.1.views).grow rfl fun _ => id⟩,
      fun type known => advances.extends_.objects (ih.2 type known)⟩
  | resolved _ run ih =>
    obtain ⟨advances, new, -⟩ := resolveType_advances ih.1.formed.toValid run
    exact step advances new ih
  | paired _ one two run ih =>
    have valid := ih.1.formed.toValid
    obtain ⟨made, -⟩ := tupleType_ok valid.types (ih.2 _ one) (ih.2 _ two) run
    exact step ⟨made.extends_, made.stateValid valid⟩ made.listed ih
  | field _ found member ih =>
    obtain ⟨-, -, -, -, fields⟩ := ih.1.formed.names.constructors _ _ _ found
    exact ⟨ih.1, List.forall_mem_cons.mpr ⟨fields _ member, ih.2⟩⟩
  | elaborated _ names run ih =>
    have made := elaborate_ok _ ih.1.formed.toValid names run
    exact step ⟨made.extends_, made.valid⟩ made.listed ih

end Fine.RuntimeDetail
